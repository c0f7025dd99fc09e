/-
# Strings of other processes

`Process.peek_str` reads a string whose length it does not know, in chunks. A chunk that
cannot be read is tried again with half its size, and the size never grows again. When a
single byte cannot be read, the size is zero and the loop ends.

So the loop ends only in front of a byte that cannot be read, or with a terminator in its
hands. The distance to the first unreadable byte and the size of the chunk bound the number
of rounds: a chunk that is read brings the byte nearer, and one that is not gets smaller.
-/

import Mathlib.Data.List.TakeWhile
import Mathlib.Data.Nat.Find
import RpcProject.Foundations.ByteMemory

namespace RpcProject.Darwin

open Foundations

/-- The memory of a process: which addresses can be read, and what they hold. -/
structure ProcessMemory where
  readable : ℕ → Bool
  contents : ℕ → Byte

/-- What `peek_str` raises. -/
inductive PeekError
  | badReturnValue (message : String)
  | runtime (message : String)
  | unicodeDecode
  | outOfFuel
  deriving DecidableEq, Repr

namespace ProcessMemory

/-- The bytes of a range. -/
def bytes (m : ProcessMemory) (address size : ℕ) : List Byte :=
  (List.range size).map fun i => m.contents (address + i)

/-- Whether the kernel reads a range, which it does as a whole. -/
def CanRead (m : ProcessMemory) (address size : ℕ) : Prop :=
  ∀ i < size, m.readable (address + i) = true

instance (m : ProcessMemory) (address size : ℕ) : Decidable (m.CanRead address size) :=
  inferInstanceAs (Decidable (∀ i < size, _))

/-- peek at memory address -/
def peek (m : ProcessMemory) (address size : ℕ) : Except PeekError (List Byte) :=
  if m.CanRead address size then .ok (m.bytes address size)
  else .error (.badReturnValue "vm_read() failed")

end ProcessMemory

section PeekStr

variable {α : Type} (decode : List Byte → Option α)

/-- `bytes.decode(encoding)` -/
def decoded (text : List Byte) : Except PeekError α :=
  match decode text with
  | some s => .ok s
  | none => .error .unicodeDecode

/-- `PEEK_STR_CHUNK_SIZE` -/
def peekStrChunkSize : ℕ := 0x100

/-- The loop of `peek_str`, with a bound on its rounds. -/
def peekStrLoop (m : ProcessMemory) : ℕ → ℕ → ℕ → List Byte → Except PeekError α
  | 0, _, _, _ => .error .outOfFuel
  | fuel + 1, size, address, buf =>
      if size = 0 then .error (.runtime "Failed to find string terminator")
      else
        match m.peek address size with
        | .ok data =>
            if 0 ∈ buf ++ data then decoded decode ((buf ++ data).takeWhile fun byte => byte ≠ 0)
            else peekStrLoop m fuel size (address + size) (buf ++ data)
        | .error (.badReturnValue _) => peekStrLoop m fuel (size / 2) address buf
        | .error e => .error e

/-- peek string at memory address -/
def peekStr (m : ProcessMemory) (fuel address : ℕ) : Except PeekError α :=
  peekStrLoop decode m fuel peekStrChunkSize address []

end PeekStr

namespace ProcessMemory

variable {m : ProcessMemory} {address start size n distance : ℕ} {text : List Byte}

/-- So many bytes can be read from an address on, and the one behind them cannot. -/
def Boundary (m : ProcessMemory) (address distance : ℕ) : Prop :=
  m.CanRead address distance ∧ m.readable (address + distance) = false

/-- What stands from an address on is a string: its bytes, none of them zero, and a zero behind
them, all of which can be read. -/
def StringAt (m : ProcessMemory) (address : ℕ) (text : List Byte) : Prop :=
  ∃ n, m.CanRead address (n + 1) ∧ m.contents (address + n) = 0 ∧ 0 ∉ m.bytes address n ∧
    text = m.bytes address n

/-- A byte that cannot be read comes before any zero. -/
def Unterminated (m : ProcessMemory) (address : ℕ) : Prop :=
  ∃ n, m.Boundary address n ∧ 0 ∉ m.bytes address n

/-- The bytes of two neighbouring parts. -/
theorem bytes_add (m : ProcessMemory) (address size n : ℕ) :
    m.bytes address (size + n) = m.bytes address size ++ m.bytes (address + size) n := by
  rw [bytes, List.range_add, List.map_append, List.map_map, bytes, bytes]
  congr 2
  funext i
  rw [Function.comp_apply, Nat.add_assoc]

theorem bytes_succ (m : ProcessMemory) (address n : ℕ) :
    m.bytes address (n + 1) = m.bytes address n ++ [m.contents (address + n)] :=
  m.bytes_add address n 1

theorem mem_bytes {byte : Byte} :
    byte ∈ m.bytes address n ↔ ∃ i < n, m.contents (address + i) = byte := by
  rw [bytes, List.mem_map]
  simp only [List.mem_range]

/-- Memory that ends somewhere has a boundary. -/
theorem exists_boundary (hend : ∃ a, start ≤ a ∧ m.readable a = false) :
    ∃ distance, m.Boundary start distance := by
  obtain ⟨a, hle, hunreadable⟩ := hend
  obtain ⟨offset, rfl⟩ := Nat.exists_eq_add_of_le hle
  have hsome : ∃ i, m.readable (start + i) = false := ⟨offset, hunreadable⟩
  refine ⟨Nat.find hsome, fun i hi => ?_, Nat.find_spec hsome⟩
  have hnot := Nat.find_min hsome hi
  rwa [Bool.not_eq_false] at hnot

/-- A range can be read if it ends before the boundary. -/
theorem Boundary.canRead_iff (h : m.Boundary address distance) :
    m.CanRead address size ↔ size ≤ distance := by
  constructor
  · intro hread
    by_contra hlt
    have hunreadable := h.2
    rw [hread distance (by omega)] at hunreadable
    cases hunreadable
  · exact fun hle i hi => h.1 i (Nat.lt_of_lt_of_le hi hle)

theorem Boundary.unique {distance' : ℕ} (h : m.Boundary address distance)
    (h' : m.Boundary address distance') : distance = distance' :=
  Nat.le_antisymm (h'.canRead_iff.mp h.1) (h.canRead_iff.mp h'.1)

theorem Boundary.add (h : m.Boundary address (size + n)) : m.Boundary (address + size) n := by
  refine ⟨fun i hi => ?_, by rw [Nat.add_assoc]; exact h.2⟩
  rw [Nat.add_assoc]
  exact h.1 _ (Nat.add_lt_add_left hi size)

/-- Up to the boundary memory can be read. -/
theorem peek_of_le (h : m.Boundary address distance) (hle : size ≤ distance) :
    m.peek address size = .ok (m.bytes address size) := if_pos (h.canRead_iff.mpr hle)

theorem peek_of_lt (h : m.Boundary address distance) (hlt : distance < size) :
    m.peek address size = .error (.badReturnValue "vm_read() failed") :=
  if_neg fun hread => Nat.not_le_of_lt hlt (h.canRead_iff.mp hread)

end ProcessMemory

/-! ## The loop -/

variable {α : Type} {decode : List Byte → Option α} {m : ProcessMemory}
  {address start size fuel distance : ℕ} {buf text : List Byte}

/-- What comes of all the bytes before the boundary. -/
def outcome (decode : List Byte → Option α) (all : List Byte) : Except PeekError α :=
  if 0 ∈ all then decoded decode (all.takeWhile fun byte => byte ≠ 0)
  else .error (.runtime "Failed to find string terminator")

theorem takeWhile_append_of_mem {first : List Byte} (h : 0 ∈ first) (rest : List Byte) :
    ((first ++ rest).takeWhile fun byte => byte ≠ 0) = first.takeWhile fun byte => byte ≠ 0 := by
  induction first with
  | nil => cases h
  | cons byte first ih =>
    rw [List.cons_append, List.takeWhile_cons, List.takeWhile_cons]
    by_cases hzero : byte = 0
    · rw [if_neg (by simpa using hzero), if_neg (by simpa using hzero)]
    · rw [ih ((List.mem_cons.mp h).resolve_left fun h => hzero h.symm)]

/-- What comes behind a terminator makes no difference. -/
theorem outcome_append_of_mem {first : List Byte} (h : 0 ∈ first) (rest : List Byte) :
    outcome decode (first ++ rest) = decoded decode (first.takeWhile fun byte => byte ≠ 0) := by
  rw [outcome, if_pos (List.mem_append_left rest h), takeWhile_append_of_mem h]

/-- A loop whose bound is above the distance to the boundary and the size of the chunk together
has the outcome of the bytes before the boundary. -/
theorem peekStrLoop_eq_outcome (hbuf : 0 ∉ buf) (hboundary : m.Boundary address distance)
    (hsize : size = 0 → distance = 0) (hfuel : distance + size < fuel) :
    peekStrLoop decode m fuel size address buf =
      outcome decode (buf ++ m.bytes address distance) := by
  induction fuel generalizing size address buf distance with
  | zero => exact absurd hfuel (Nat.not_lt_zero _)
  | succ fuel ih =>
    rw [peekStrLoop]
    by_cases hzero : size = 0
    · have hall : buf ++ m.bytes address distance = buf := by
        rw [hsize hzero]; simp [ProcessMemory.bytes]
      rw [if_pos hzero, hall, outcome, if_neg hbuf]
    · rw [if_neg hzero]
      by_cases hle : size ≤ distance
      · obtain ⟨n, rfl⟩ := Nat.exists_eq_add_of_le hle
        simp only [ProcessMemory.peek_of_le hboundary hle]
        rw [m.bytes_add address size n, ← List.append_assoc]
        by_cases hmem : 0 ∈ buf ++ m.bytes address size
        · rw [if_pos hmem, outcome_append_of_mem hmem]
        · rw [if_neg hmem]
          exact ih hmem hboundary.add (fun h => absurd h hzero) (by omega)
      · simp only [ProcessMemory.peek_of_lt hboundary (Nat.lt_of_not_le hle)]
        -- a size of one is halved only right in front of the boundary
        exact ih hbuf hboundary (fun h => by omega) (by omega)

/-! ## Strings -/

/-- A string ends before the boundary, and is what stands before the first zero. -/
theorem outcome_of_stringAt (hstring : m.StringAt start text)
    (hboundary : m.Boundary start distance) :
    outcome decode (m.bytes start distance) = decoded decode text := by
  obtain ⟨n, hread, hzero, hnone, rfl⟩ := hstring
  obtain ⟨rest, rfl⟩ := Nat.exists_eq_add_of_le (hboundary.canRead_iff.mp hread)
  have hmem : 0 ∈ m.bytes start (n + 1) := ProcessMemory.mem_bytes.mpr ⟨n, n.lt_succ_self, hzero⟩
  rw [m.bytes_add, outcome_append_of_mem hmem, m.bytes_succ, hzero, List.takeWhile_append_of_pos]
  · simp
  · intro byte hbyte
    have hne : byte ≠ 0 := fun h => hnone (h ▸ hbyte)
    simpa using hne

/-- Without a terminator the search fails at the boundary. -/
theorem outcome_of_unterminated (h : m.Unterminated start) (hboundary : m.Boundary start distance) :
    outcome decode (m.bytes start distance) =
      .error (.runtime "Failed to find string terminator") := by
  obtain ⟨n, hn, hnone⟩ := h
  rw [hboundary.unique hn, outcome, if_neg hnone]

/-- In front of a boundary there is a string or none. -/
theorem stringAt_or_unterminated (hboundary : m.Boundary start distance) :
    (∃ text, m.StringAt start text) ∨ m.Unterminated start := by
  by_cases hmem : 0 ∈ m.bytes start distance
  · have hsome := ProcessMemory.mem_bytes.mp hmem
    obtain ⟨hlt, hzero⟩ := Nat.find_spec hsome
    refine Or.inl ⟨_, Nat.find hsome, fun i hi => hboundary.1 i (by omega), hzero, fun hin => ?_,
      rfl⟩
    obtain ⟨i, hi, hi'⟩ := ProcessMemory.mem_bytes.mp hin
    exact Nat.find_min hsome hi ⟨hi.trans hlt, hi'⟩
  · exact Or.inr ⟨distance, hboundary, hmem⟩

/-- **Strings of other processes.** Where some address from the start on cannot be read, the loop
ends: with the decoding of the string at the start, or with an exception if a byte that cannot
be read comes before any zero. One of the two is the case. -/
theorem peekStr_spec (decode : List Byte → Option α) (m : ProcessMemory) {start : ℕ}
    (hend : ∃ a, start ≤ a ∧ m.readable a = false) :
    ∃ enough, (∀ fuel, enough ≤ fuel →
      (∀ text, m.StringAt start text → peekStr decode m fuel start = decoded decode text) ∧
      (m.Unterminated start →
        peekStr decode m fuel start = .error (.runtime "Failed to find string terminator"))) ∧
      ((∃ text, m.StringAt start text) ∨ m.Unterminated start) := by
  obtain ⟨distance, hboundary⟩ := m.exists_boundary hend
  refine ⟨distance + peekStrChunkSize + 1, fun fuel hle => ?_, stringAt_or_unterminated hboundary⟩
  have hloop : peekStr decode m fuel start = outcome decode (m.bytes start distance) :=
    peekStrLoop_eq_outcome (by simp) hboundary (fun h => by cases h) hle
  constructor
  · exact fun text htext => hloop.trans (outcome_of_stringAt htext hboundary)
  · exact fun hnone => hloop.trans (outcome_of_unterminated hnone hboundary)

/-- A string of two bytes right in front of memory that cannot be read. -/
def shortString : ProcessMemory where
  readable := fun a => a < 0x103
  contents := fun a => if a = 0x100 then 72 else if a = 0x101 then 105 else 0

/-- A text right before the boundary is read. -/
theorem peekStr_shortString :
    ∃ enough, (∀ fuel, enough ≤ fuel →
      (∀ text, shortString.StringAt 0x100 text →
        peekStr some shortString fuel 0x100 = decoded some text) ∧
      (shortString.Unterminated 0x100 → peekStr some shortString fuel 0x100 =
        .error (.runtime "Failed to find string terminator"))) ∧
      ((∃ text, shortString.StringAt 0x100 text) ∨ shortString.Unterminated 0x100) :=
  peekStr_spec some shortString ⟨0x103, by decide, by decide⟩

end RpcProject.Darwin
