/-
# Remote memory

The client works on the memory of the remote process: it asks for blocks, writes buffers
into them and reads results out of them. A call with a pointer of zero is refused by the
client itself.

What the kernel holds beside the memory is a parameter.
-/

import RpcProject.Client.Symbol
import RpcProject.Foundations.ByteMemory
import RpcProject.Foundations.Recursion

namespace RpcProject.Client

open Foundations Foundations.Effect

/-- The remote process, with the part of the kernel `K` that matters. -/
structure Remote (K : Type) where
  memory : Memory
  errno : ℕ
  kernel : K

/-- What the kernel does in a call that transfers bytes: move at most so many, or fail. -/
inductive Outcome
  | moves (most : ℕ)
  | fails (errno : ℕ)
  deriving DecidableEq, Repr

/-- The allocator of the remote process and what its kernel does in each call. -/
structure Host where
  malloc : ℕ → Symbol
  outcome : ℕ → Outcome

/-- Every call moves something, and no more than a call can report. -/
def Host.Flows (host : Host) : Prop :=
  ∀ call, ∃ most, host.outcome call = .moves most ∧ 0 < most ∧ most < 2 ^ 63

/-- The bound of a call on the bytes that it moves. -/
def Host.most (host : Host) (call : ℕ) : ℕ :=
  match host.outcome call with
  | .moves most => most
  | .fails _ => 0

/-- On a host that flows every transfer moves something. -/
theorem Host.Flows.outcome {host : Host} (h : host.Flows) (call : ℕ) :
    host.outcome call = .moves (host.most call) ∧ 0 < host.most call ∧ host.most call < 2 ^ 63 := by
  obtain ⟨most, houtcome, hpos, hlt⟩ := h call
  have hmost : host.most call = most := by rw [Host.most, houtcome]
  rw [hmost]
  exact ⟨houtcome, hpos, hlt⟩

/-- The exceptions of calls on remote memory. `outOfFuel` is none of the client's: it ends a
loop whose bound was too small. -/
inductive RpcError
  | argument
  | errno (errno : ℕ) (message : String)
  | outOfFuel
  deriving DecidableEq, Repr

/-- A remote call, which may raise. -/
abbrev Call (K α : Type) := Effect (Remote K) RpcError α

variable {K α : Type} {s : Remote K} {address : Symbol} {count size offset : ℕ} {data : List Byte}
  {malloc : ℕ → Symbol}

/-- `symbol + offset` -/
def Symbol.add (s : Symbol) (offset : ℕ) : Symbol := .new (s.int + offset)

theorem Symbol.bits_add (s : Symbol) (offset : ℕ) :
    (s.add offset).bits = s.bits + BitVec.ofNat 64 offset := by
  apply BitVec.eq_of_toNat_eq
  rw [Symbol.add, Symbol.new, BitVec.toNat_ofInt, BitVec.toNat_add, BitVec.toNat_ofNat, Symbol.int,
    ← Int.natCast_add, ← Int.natCast_emod, Int.toNat_natCast]
  omega

/-- `raise_errno_exception` -/
def raiseErrnoException (message : String) : Call K α := do
  let errno ← look Remote.errno
  raise (.errno errno message)

/-- peek data at the given address -/
def peek (address : Symbol) (count : ℕ) : Call K (List Byte) := do
  -- the null_pointer_guard of the client, before anything is sent
  raiseIf (address.int = 0) .argument
  look fun s => s.memory.load address.bits count

/-- poke data at a given address -/
def poke (address : Symbol) (data : List Byte) : Call K Unit := do
  raiseIf (address.int = 0) .argument
  modify fun s => { s with memory := s.memory.store address.bits data }

/-- A block for the duration of a body. That it is freed afterwards changes none of its bytes. -/
def safeMalloc (malloc : ℕ → Symbol) (size : ℕ) (body : Symbol → Call K α) : Call K α :=
  body (malloc size)

/-- The allocator has a block of this size, which lies between zero and the end of memory. -/
def Provides (malloc : ℕ → Symbol) (size : ℕ) : Prop :=
  0 < size → 0 < (malloc size).int ∧ (malloc size).int + size ≤ 2 ^ 64

/-- Memory that is provided is not at the null pointer. -/
theorem Provides.int_ne_zero (h : Provides malloc size) (hsize : 0 < size) :
    (malloc size).int ≠ 0 := (h hsize).1.ne'

theorem Provides.size_le (h : Provides malloc size) : size ≤ 2 ^ 64 := by
  rcases Nat.eq_zero_or_pos size with rfl | hsize
  · exact Nat.zero_le _
  · obtain ⟨hpos, hle⟩ := h hsize
    omega

/-- A peek reads the memory of the process. -/
theorem peek_of_ne (h : address.int ≠ 0) :
    (peek address count : Call K _) s = (.ok (s.memory.load address.bits count), s) := by
  rw [peek, bind_of_ok (raiseIf_of_not h _ _)]
  rfl

/-- What has been stored at an address is peeked there. -/
theorem peek_stored {memory : Memory} (h : address.int ≠ 0) (hcount : data.length = count)
    (hsize : count ≤ 2 ^ 64) (hmemory : s.memory = memory.store address.bits data) :
    (peek address count : Call K _) s = (.ok data, s) := by
  subst hcount
  rw [peek_of_ne h, hmemory, Memory.load_store memory address.bits hsize]

theorem poke_of_ne (h : address.int ≠ 0) :
    (poke address data : Call K _) s =
      (.ok (), { s with memory := s.memory.store address.bits data }) := by
  rw [poke, bind_of_ok (raiseIf_of_not h _ _)]
  rfl

end RpcProject.Client
