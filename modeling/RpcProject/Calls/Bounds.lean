/-
# The bounds of the argument buffers

A request for a call may carry any number of arguments and any variadic index:
neither the unpacking nor `routine_call` looks at them before `call_function`
runs. The generic build writes argument number `i` to word `i` of one buffer of
seventeen words. The ARM64 build counts its registers, and does not count the
words of the stack area.

The stores stay inside the buffers for exactly those requests whose arguments
fit them.
-/

import RpcProject.Calls.Placement
import RpcProject.Server.Dispatch

namespace RpcProject.Calls

open Foundations Foundations.Wire Protocol Server

/-! ## Requests -/

/-- The fields of a request for a call that the two functions use. -/
structure RequestCall where
  address : UInt64
  vaListIndex : UInt64
  argv : List Argument
  deriving DecidableEq, Repr

/-- An unpacked argument, its text or bytes at `pointer`. The last member of the
union that the message carries counts. -/
def Argument.ofFields (pointer : UInt64) (fields : List Field) : Argument :=
  fields.foldl (fun arg f =>
    match f.number, f.value with
    | 1, .varint n => .vInt (UInt64.ofNat n)
    | 2, .fixed64 bytes => .vDouble (UInt64.ofNat (ofLE bytes))
    | 3, .delimited _ => .vStr pointer
    | 4, .delimited bytes => .vBytes (UInt64.ofNat bytes.length) pointer
    | _, _ => arg) .notSet

/-- The packed arguments of a request, in order. -/
def packedArguments (fields : List Field) : List Bytes :=
  fields.filterMap fun f =>
    match f.number, f.value with
    | 3, .delimited bytes => some bytes
    | _, _ => none

/-- The request that `rpc_dispatch` hands to `routine_call`, the data of its
arguments at the given places. -/
def RequestCall.unpack (p : Platform) (pointers : ℕ → UInt64) (payload : Bytes) :
    Option RequestCall := do
  let entry ← rpcRoutines p .reqCall
  let fields ← entry.requestDescriptor.unpack payload
  return {
    address := UInt64.ofNat (lastVarint 1 fields)
    vaListIndex := UInt64.ofNat (lastVarint 2 fields)
    argv := (packedArguments fields).mapIdx fun i bytes =>
      .ofFields (pointers i) ((scan bytes).getD []) }

/-! ## The generic build -/

/-- The room of `args` in `call_function_generic`. -/
def maxArgs : ℕ := 17

/-- The array of a generic call, and what was stored to it. -/
structure GenericFrame where
  args : ℕ → UInt64
  i : ℕ
  /-- the words stored to, in order -/
  written : List ℕ

namespace GenericFrame

/-- The array before the first argument. -/
def init : GenericFrame := ⟨fun _ => 0, 0, []⟩

/-- One turn of the loop. A double is converted to an integer; an argument
without a type is passed over. -/
def placeArgument (toInteger : UInt64 → UInt64) (s : GenericFrame) (arg : Argument) :
    GenericFrame :=
  let store (value : UInt64) : GenericFrame :=
    ⟨Function.update s.args s.i value, s.i + 1, s.written ++ [s.i]⟩
  match arg with
  | .vDouble bits => store (toInteger bits)
  | .vInt value => store value
  | .vStr pointer => store pointer
  | .vBytes _ data => store data
  | .notSet => { s with i := s.i + 1 }

end GenericFrame

/-- The loop of `call_function_generic` over the arguments. -/
def callFunctionGeneric (toInteger : UInt64 → UInt64) (argv : List Argument) : GenericFrame :=
  argv.foldl (GenericFrame.placeArgument toInteger) .init

/-! ## Both builds -/

/-- The two ways to build the server. -/
inductive Build
  | generic
  | arm64
  deriving DecidableEq, Repr

/-- Whether the call of a request stores inside the argument buffers only. The
loops run before anything of the request is checked. -/
def WritesInside (toInteger : UInt64 → UInt64) (request : RequestCall) : Build → Prop
  | .generic => ∀ i ∈ (callFunctionGeneric toInteger request.argv).written, i < maxArgs
  | .arm64 => ∀ slot ∈ (callFunctionArm request.vaListIndex.toNat request.argv).written,
      slot.InBounds

/-- The requests that fit the buffers: every argument with a type is among the
first seventeen, and at most sixteen arguments need the stack. -/
def FitsBuffers (request : RequestCall) : Build → Prop
  | .generic => ∀ i arg, request.argv[i]? = some arg → arg ≠ .notSet → i < maxArgs
  | .arm64 => (stackArguments request.vaListIndex.toNat request.argv).length ≤ maxStackArgs

variable {toInteger : UInt64 → UInt64} {argv : List Argument} {arg : Argument}

/-- One argument more is one round more. -/
theorem callFunctionGeneric_append_singleton :
    callFunctionGeneric toInteger (argv ++ [arg]) =
      (callFunctionGeneric toInteger argv).placeArgument toInteger arg := by
  rw [callFunctionGeneric, List.foldl_append, List.foldl_cons, List.foldl_nil, callFunctionGeneric]

/-- One turn of the generic loop stores one word, under the argument's number,
if the argument has a type. -/
theorem GenericFrame.placeArgument_i_written (s : GenericFrame) (arg : Argument) :
    (s.placeArgument toInteger arg).i = s.i + 1 ∧
      (s.placeArgument toInteger arg).written =
        s.written ++ if arg = .notSet then [] else [s.i] := by
  cases arg <;> simp [placeArgument]

theorem callFunctionGeneric_i (toInteger : UInt64 → UInt64) (argv : List Argument) :
    (callFunctionGeneric toInteger argv).i = argv.length := by
  induction argv using List.reverseRecOn with
  | nil => rfl
  | append_singleton argv arg ih =>
    rw [callFunctionGeneric_append_singleton, (GenericFrame.placeArgument_i_written _ _).1, ih,
      List.length_append, List.length_singleton]

/-- Stored to are the places of the arguments that are set. -/
theorem mem_written_callFunctionGeneric (toInteger : UInt64 → UInt64) (argv : List Argument)
    (i : ℕ) : i ∈ (callFunctionGeneric toInteger argv).written ↔
      ∃ arg, argv[i]? = some arg ∧ arg ≠ .notSet := by
  induction argv using List.reverseRecOn with
  | nil => simp [callFunctionGeneric, GenericFrame.init]
  | append_singleton argv arg ih =>
    rw [callFunctionGeneric_append_singleton, (GenericFrame.placeArgument_i_written _ _).2,
      List.mem_append, ih, callFunctionGeneric_i]
    rcases Nat.lt_trichotomy i argv.length with hlt | rfl | hgt
    · rw [List.getElem?_append_left hlt]
      have hne : i ≠ argv.length := Nat.ne_of_lt hlt
      split <;> simp [hne]
    · by_cases hset : arg = .notSet <;> simp [hset]
    · have hne : i ≠ argv.length := Nat.ne_of_gt hgt
      rw [List.getElem?_eq_none (Nat.le_of_lt hgt),
        List.getElem?_eq_none (by rw [List.length_append, List.length_singleton]; omega)]
      split <;> simp [hne]

/-- The generic build stays inside its buffer if every argument with a type has a word there. -/
theorem forall_written_lt_iff (toInteger : UInt64 → UInt64) (argv : List Argument) :
    (∀ i ∈ (callFunctionGeneric toInteger argv).written, i < maxArgs) ↔
      ∀ i arg, argv[i]? = some arg → arg ≠ .notSet → i < maxArgs := by
  constructor
  · intro hinside i arg hget hset
    exact hinside i ((mem_written_callFunctionGeneric _ _ i).mpr ⟨arg, hget, hset⟩)
  · intro hfits i hi
    obtain ⟨arg, hget, hset⟩ := (mem_written_callFunctionGeneric _ _ i).mp hi
    exact hfits i arg hget hset

/-- **Bounds.** Each build stores inside its buffers for exactly those requests
that fit them. -/
theorem writesInside_iff_fitsBuffers (toInteger : UInt64 → UInt64) (request : RequestCall)
    (build : Build) : WritesInside toInteger request build ↔ FitsBuffers request build := by
  cases build with
  | generic => exact forall_written_lt_iff _ _
  | arm64 => exact forall_inBounds_iff _ _

/-- Eighteen integers, all of them variadic. -/
def eighteenIntegers : Bytes := writeFields (List.replicate 18 ⟨3, .delimited [8, 1]⟩)

/-- The server accepts a request with eighteen integers, and either build writes
outside its buffer for it. -/
theorem not_writesInside_eighteenIntegers :
    ∃ request, RequestCall.unpack .linux (fun _ => 0) eighteenIntegers = some request ∧
      ∀ build, ¬ WritesInside id request build := by
  have hfits : ∀ f ∈ List.replicate 18 (⟨3, .delimited [8, 1]⟩ : Field), f.Fits := by
    intro f hf
    rw [List.eq_of_mem_replicate hf]
    exact ⟨by decide, by decide, show 2 ≤ maxDelimited by decide⟩
  refine ⟨⟨0, 0, List.replicate 18 (.vInt 1)⟩, ?_, ?_⟩
  · rw [RequestCall.unpack, rpcRoutines, Option.bind_eq_bind, Option.bind_some, eighteenIntegers,
      Descriptor.unpack_writeFields hfits (by decide)]
    decide
  · intro build hinside
    cases build with
    | generic => exact absurd (hinside 17 (by decide)) (by decide)
    | arm64 =>
      have hfew := (forall_inBounds_iff 0 (List.replicate 18 (.vInt 1))).mp hinside
      exact absurd hfew (by decide)

end RpcProject.Calls
