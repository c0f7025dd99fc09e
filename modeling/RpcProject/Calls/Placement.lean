/-
# Placing the arguments of a call

`call_function` lays the arguments of a request out for the callee. The ARM64
build fills the general registers `x`, the floating-point registers `d` and a
stack area, with one counter for each. Integers and pointers take the next word
of `x`, doubles the next word of `d`; an argument whose registers are used up,
and every argument from the variadic index on, takes the next word of the stack
area. An argument without a type leaves the target of the argument before it.

The code does not compare the counter of the stack area with the area's length.
A word of a buffer is therefore any natural number here, and every store is
recorded.
-/

import Mathlib.Data.List.Induction
import Mathlib.Data.List.Nodup
import Mathlib.Logic.Function.Basic

namespace RpcProject.Calls

/-! ## Arguments -/

/-- The union of an argument, by the member that is set. A text is the address
of its first byte, and bytes are their length and the address of the first. -/
inductive Argument
  | notSet
  | vInt (value : UInt64)
  | vDouble (bits : UInt64)
  | vStr (pointer : UInt64)
  | vBytes (len data : UInt64)
  deriving DecidableEq, Repr

/-- The two kinds of registers that arguments travel in. -/
inductive Kind
  | general
  | double
  deriving DecidableEq, Repr

namespace Argument

/-- The kind of register that an argument is passed in. -/
def kind : Argument → Option Kind
  | notSet => none
  | vInt _ => some .general
  | vDouble _ => some .double
  | vStr _ => some .general
  | vBytes _ _ => some .general

/-- `*current_arg`: the first word of the union, or the data pointer of bytes.
The union of an argument without a type is zero. -/
def word : Argument → UInt64
  | notSet => 0
  | vInt value => value
  | vDouble bits => bits
  | vStr pointer => pointer
  | vBytes _ data => data

end Argument

/-! ## The ARM64 build -/

/-- `MAX_REGS_ARGS` -/
def maxRegsArgs : ℕ := 8

/-- `MAX_STACK_ARGS` -/
def maxStackArgs : ℕ := 16

/-- A word of `arm_args_t`. -/
inductive Slot
  | x (i : ℕ)
  | d (i : ℕ)
  | stack (i : ℕ)
  deriving DecidableEq, Repr

/-- The slot is inside of its array. -/
def Slot.InBounds : Slot → Prop
  | x i => i < maxRegsArgs
  | d i => i < maxRegsArgs
  | stack i => i < maxStackArgs

instance : DecidablePred Slot.InBounds
  | .x i => inferInstanceAs (Decidable (i < maxRegsArgs))
  | .d i => inferInstanceAs (Decidable (i < maxRegsArgs))
  | .stack i => inferInstanceAs (Decidable (i < maxStackArgs))

/-- The locals of the loop over the arguments. -/
structure ArmFrame where
  args : Slot → UInt64
  idxGp : ℕ
  idxFp : ℕ
  idxStack : ℕ
  idxArgv : ℕ
  currentTarget : Option Slot
  /-- the words stored to, in order -/
  written : List Slot

namespace ArmFrame

/-- The frame before the first argument. -/
def init : ArmFrame := ⟨fun _ => 0, 0, 0, 0, 0, none, []⟩

/-- The switch on the type: the next register of the kind, if there is one. -/
def selectTarget (s : ArmFrame) (arg : Argument) : ArmFrame :=
  match arg.kind with
  | some .general =>
      if s.idxGp < maxRegsArgs then
        { s with currentTarget := some (.x s.idxGp), idxGp := s.idxGp + 1 }
      else { s with currentTarget := none }
  | some .double =>
      if s.idxFp < maxRegsArgs then
        { s with currentTarget := some (.d s.idxFp), idxFp := s.idxFp + 1 }
      else { s with currentTarget := none }
  | none => s

/-- Use the stack for a variadic argument, or when no register is left. -/
def useStack (s : ArmFrame) : ArmFrame :=
  { s with currentTarget := some (.stack s.idxStack), idxStack := s.idxStack + 1 }

/-- An argument is stored to a slot. -/
def store (s : ArmFrame) (target : Slot) (arg : Argument) : ArmFrame :=
  { s with
    args := Function.update s.args target arg.word
    written := s.written ++ [target]
    idxArgv := s.idxArgv + 1 }

/-- One turn of the loop. -/
def placeArgument (vaListIndex : ℕ) (s : ArmFrame) (arg : Argument) : ArmFrame :=
  let s := s.selectTarget arg
  match s.currentTarget with
  | none => s.useStack.store (.stack s.idxStack) arg
  | some target =>
      if vaListIndex ≤ s.idxArgv then s.useStack.store (.stack s.idxStack) arg
      else s.store target arg

end ArmFrame

/-- The loop of `call_function`, up to the call. -/
def callFunctionArm (vaListIndex : ℕ) (argv : List Argument) : ArmFrame :=
  argv.foldl (ArmFrame.placeArgument vaListIndex) .init

/-! ## Which arguments need the stack -/

/-- How many arguments of a kind a list has. -/
def counted (kind : Kind) (argv : List Argument) : ℕ := argv.countP fun arg => arg.kind = some kind

/-- Whether an argument behind others finds no register: those of its kind are
used up, or it has no type and no argument before it left a target. -/
def NoRegister (before : List Argument) (arg : Argument) : Prop :=
  match arg.kind with
  | some kind => maxRegsArgs ≤ counted kind before
  | none => before = []

/-- Whether an argument behind others goes to the stack area. -/
def Overflows (vaListIndex : ℕ) (before : List Argument) (arg : Argument) : Prop :=
  vaListIndex ≤ before.length ∨ NoRegister before arg

instance (before : List Argument) (arg : Argument) : Decidable (NoRegister before arg) :=
  match h : arg.kind with
  | some kind => decidable_of_iff (maxRegsArgs ≤ counted kind before) (by simp [NoRegister, h])
  | none => decidable_of_iff (before = []) (by simp [NoRegister, h])

instance (vaListIndex : ℕ) (before : List Argument) (arg : Argument) :
    Decidable (Overflows vaListIndex before arg) := inferInstanceAs (Decidable (_ ∨ _))

/-- Whether argument number `i` goes to the stack area. -/
def needsStack (vaListIndex : ℕ) (argv : List Argument) (i : ℕ) : Bool :=
  match argv[i]? with
  | some arg => decide (Overflows vaListIndex (argv.take i) arg)
  | none => false

/-- The arguments that go to the stack area, by number and in order. -/
def stackArguments (vaListIndex : ℕ) (argv : List Argument) : List ℕ :=
  (List.range argv.length).filter (needsStack vaListIndex argv)

variable {va : ℕ} {argv : List Argument} {arg : Argument} {kind : Kind} {s : ArmFrame}

/-- One argument more counts for its kind. -/
theorem counted_append_singleton :
    counted kind (argv ++ [arg]) = counted kind argv + if arg.kind = some kind then 1 else 0 := by
  simp [counted, List.countP_append, List.countP_singleton]

theorem stackArguments_append_singleton :
    stackArguments va (argv ++ [arg]) =
      stackArguments va argv ++ if Overflows va argv arg then [argv.length] else [] := by
  have hold : ∀ i ∈ List.range argv.length,
      needsStack va (argv ++ [arg]) i = needsStack va argv i := by
    intro i hi
    have hlt : i < argv.length := List.mem_range.mp hi
    rw [needsStack, needsStack, List.getElem?_append_left hlt,
      List.take_append_of_le_length (Nat.le_of_lt hlt)]
  have hnew : needsStack va (argv ++ [arg]) argv.length = decide (Overflows va argv arg) := by
    simp [needsStack]
  rw [stackArguments, List.length_append, List.length_singleton, List.range_succ,
    List.filter_append, List.filter_congr hold, stackArguments, List.filter_singleton, hnew]
  simp only [Bool.cond_decide]

/-! ## What one turn of the loop does -/

/-- The counters of the loop once it has gone through `argv`. -/
structure Tracks (va : ℕ) (argv : List Argument) (s : ArmFrame) : Prop where
  idxArgv : s.idxArgv = argv.length
  idxGp : s.idxGp = min maxRegsArgs (counted .general argv)
  idxFp : s.idxFp = min maxRegsArgs (counted .double argv)
  idxStack : s.idxStack = (stackArguments va argv).length
  currentTarget : s.currentTarget = none ↔ argv = []

/-- The registers of a kind. -/
def Kind.slot : Kind → ℕ → Slot
  | general => .x
  | double => .d

/-- The register of the next argument, as long as there is one. -/
def register (before : List Argument) (arg : Argument) : Option Slot :=
  arg.kind.map fun kind => kind.slot (counted kind before)

/-- An argument of another kind does not count. -/
theorem counted_append_of_ne (h : arg.kind ≠ some kind) :
    counted kind (argv ++ [arg]) = counted kind argv := by
  rw [counted_append_singleton, if_neg h, Nat.add_zero]

theorem counted_append_of_eq (h : arg.kind = some kind) :
    counted kind (argv ++ [arg]) = counted kind argv + 1 := by
  rw [counted_append_singleton, if_pos h]

namespace ArmFrame

@[simp] theorem selectTarget_args : (s.selectTarget arg).args = s.args := by
  unfold selectTarget
  split <;> (try split) <;> rfl

@[simp] theorem selectTarget_written : (s.selectTarget arg).written = s.written := by
  unfold selectTarget
  split <;> (try split) <;> rfl

@[simp] theorem selectTarget_idxStack : (s.selectTarget arg).idxStack = s.idxStack := by
  unfold selectTarget
  split <;> (try split) <;> rfl

@[simp] theorem selectTarget_idxArgv : (s.selectTarget arg).idxArgv = s.idxArgv := by
  unfold selectTarget
  split <;> (try split) <;> rfl

end ArmFrame

namespace Tracks

variable (h : Tracks va argv s)

include h

/-- The integer registers in use are as many as there are such arguments, or all. -/
theorem selectTarget_idxGp :
    (s.selectTarget arg).idxGp = min maxRegsArgs (counted .general (argv ++ [arg])) := by
  have hcount := h.idxGp
  cases hkind : arg.kind with
  | none =>
    rw [counted_append_of_ne (by simp [hkind]), ← hcount]
    simp [ArmFrame.selectTarget, hkind]
  | some kind =>
    cases kind with
    | general =>
      rw [counted_append_of_eq hkind]
      simp only [ArmFrame.selectTarget, hkind]
      split <;> simp only <;> omega
    | double =>
      rw [counted_append_of_ne (by simp [hkind]), ← hcount]
      simp only [ArmFrame.selectTarget, hkind]
      split <;> rfl

theorem selectTarget_idxFp :
    (s.selectTarget arg).idxFp = min maxRegsArgs (counted .double (argv ++ [arg])) := by
  have hcount := h.idxFp
  cases hkind : arg.kind with
  | none =>
    rw [counted_append_of_ne (by simp [hkind]), ← hcount]
    simp [ArmFrame.selectTarget, hkind]
  | some kind =>
    cases kind with
    | general =>
      rw [counted_append_of_ne (by simp [hkind]), ← hcount]
      simp only [ArmFrame.selectTarget, hkind]
      split <;> rfl
    | double =>
      rw [counted_append_of_eq hkind]
      simp only [ArmFrame.selectTarget, hkind]
      split <;> simp only <;> omega

/-- The switch leaves a target unless the argument finds no register. -/
theorem selectTarget_currentTarget (arg : Argument) :
    (s.selectTarget arg).currentTarget =
      if NoRegister argv arg then none else (register argv arg).or s.currentTarget := by
  have hgp := h.idxGp
  have hfp := h.idxFp
  cases hkind : arg.kind with
  | none =>
    have htarget := h.currentTarget
    simp only [ArmFrame.selectTarget, NoRegister, register, hkind, Option.map_none, Option.none_or]
    split
    · next hnil => exact htarget.mpr hnil
    · rfl
  | some kind =>
    cases kind with
    | general =>
      simp only [ArmFrame.selectTarget, NoRegister, register, Kind.slot, hkind, Option.map_some,
        Option.some_or]
      split
      · rw [if_neg (by omega), show s.idxGp = counted .general argv by omega]
      · rw [if_pos (by omega)]
    | double =>
      simp only [ArmFrame.selectTarget, NoRegister, register, Kind.slot, hkind, Option.map_some,
        Option.some_or]
      split
      · rw [if_neg (by omega), show s.idxFp = counted .double argv by omega]
      · rw [if_pos (by omega)]

/-- An argument that overflows is stored to the next place on the stack. -/
theorem placeArgument_of_overflows (overflows : Overflows va argv arg) :
    s.placeArgument va arg = (s.selectTarget arg).useStack.store (.stack s.idxStack) arg := by
  simp only [ArmFrame.placeArgument, ArmFrame.selectTarget_idxStack, ArmFrame.selectTarget_idxArgv,
    h.idxArgv, h.selectTarget_currentTarget]
  by_cases hregister : NoRegister argv arg
  · rw [if_pos hregister]
  · have hvariadic : va ≤ argv.length := overflows.resolve_right hregister
    rw [if_neg hregister]
    split
    · rfl
    · rw [if_pos hvariadic]

theorem placeArgument_of_not_overflows (stays : ¬ Overflows va argv arg) :
    ∃ target, (register argv arg).or s.currentTarget = some target ∧
      s.placeArgument va arg = (s.selectTarget arg).store target arg := by
  obtain ⟨hnamed, hregister⟩ := not_or.mp stays
  have htarget := h.selectTarget_currentTarget arg
  rw [if_neg hregister] at htarget
  cases hselect : (s.selectTarget arg).currentTarget with
  | none =>
    -- a typed argument has a register, and an untyped one comes behind others
    rw [hselect] at htarget
    obtain ⟨hnone, hcurrent⟩ := Option.or_eq_none_iff.mp htarget.symm
    have hkind : arg.kind = none := by simpa [register] using hnone
    refine absurd ?_ hregister
    rw [NoRegister, hkind]
    exact h.currentTarget.mp hcurrent
  | some target =>
    refine ⟨target, by rw [← htarget, hselect], ?_⟩
    simp only [ArmFrame.placeArgument, hselect, ArmFrame.selectTarget_idxArgv, h.idxArgv]
    rw [if_neg hnamed]

/-- A round keeps track of what has been placed. -/
theorem placeArgument : Tracks va (argv ++ [arg]) (s.placeArgument va arg) := by
  have hidx : ∀ target, ((s.selectTarget arg).store target arg).idxArgv =
      (argv ++ [arg]).length := by
    intro target
    simp [ArmFrame.store, h.idxArgv]
  by_cases overflows : Overflows va argv arg
  · rw [h.placeArgument_of_overflows overflows]
    refine ⟨hidx (.stack s.idxStack), h.selectTarget_idxGp, h.selectTarget_idxFp, ?_, ?_⟩
    · rw [stackArguments_append_singleton, if_pos overflows]
      simp [ArmFrame.store, ArmFrame.useStack, h.idxStack]
    · simp [ArmFrame.store, ArmFrame.useStack]
  · obtain ⟨target, htarget, hplace⟩ := h.placeArgument_of_not_overflows overflows
    have hselect := h.selectTarget_currentTarget arg
    rw [if_neg (not_or.mp overflows).2, htarget] at hselect
    rw [hplace]
    refine ⟨hidx target, h.selectTarget_idxGp, h.selectTarget_idxFp, ?_, ?_⟩
    · rw [stackArguments_append_singleton, if_neg overflows]
      simp [ArmFrame.store, h.idxStack]
    · simp [ArmFrame.store, hselect]

end Tracks

/-- One argument more is one round more. -/
theorem callFunctionArm_append_singleton :
    callFunctionArm va (argv ++ [arg]) = (callFunctionArm va argv).placeArgument va arg := by
  rw [callFunctionArm, List.foldl_append, List.foldl_cons, List.foldl_nil, callFunctionArm]

/-- The loop keeps track of what it places. -/
theorem tracks_callFunctionArm (va : ℕ) (argv : List Argument) :
    Tracks va argv (callFunctionArm va argv) := by
  induction argv using List.reverseRecOn with
  | nil => exact ⟨rfl, rfl, rfl, rfl, by simp [callFunctionArm, ArmFrame.init]⟩
  | append_singleton argv arg ih =>
    rw [callFunctionArm_append_singleton]
    exact ih.placeArgument

/-! ## The words stored to -/

/-- The words that the counters have passed. -/
def ArmFrame.Passed (s : ArmFrame) : Slot → Prop
  | .x i => i < s.idxGp
  | .d i => i < s.idxFp
  | .stack i => i < s.idxStack

/-- What the loop has stored to: words its counters have passed, all of the
stack area among them, and the current target. -/
structure Stores (s : ArmFrame) : Prop where
  passed : ∀ slot ∈ s.written, s.Passed slot
  stack : ∀ i < s.idxStack, Slot.stack i ∈ s.written
  current : ∀ slot, s.currentTarget = some slot → slot ∈ s.written

theorem ArmFrame.Passed.selectTarget {slot : Slot} (arg : Argument) (h : s.Passed slot) :
    (s.selectTarget arg).Passed slot := by
  cases slot with
  | x i =>
    have hi : i < s.idxGp := h
    simp only [ArmFrame.Passed, ArmFrame.selectTarget]
    split
    · split
      · exact Nat.lt_succ_of_lt hi
      · exact hi
    · split <;> exact hi
    · exact hi
  | d i =>
    have hi : i < s.idxFp := h
    simp only [ArmFrame.Passed, ArmFrame.selectTarget]
    split
    · split <;> exact hi
    · split
      · exact Nat.lt_succ_of_lt hi
      · exact hi
    · exact hi
  | stack i => exact Nat.lt_of_lt_of_eq h ArmFrame.selectTarget_idxStack.symm

/-- The register of an argument that finds one is the next of its kind. -/
theorem Tracks.passed_register (h : Tracks va argv s) (found : ¬ NoRegister argv arg)
    {slot : Slot} (hslot : register argv arg = some slot) :
    ¬ s.Passed slot ∧ (s.selectTarget arg).Passed slot := by
  obtain ⟨kind, hkind, rfl⟩ := Option.map_eq_some_iff.mp hslot
  rw [NoRegister, hkind] at found
  cases kind with
  | general =>
    simp only [ArmFrame.Passed, Kind.slot, h.idxGp, h.selectTarget_idxGp,
      counted_append_of_eq hkind]
    omega
  | double =>
    simp only [ArmFrame.Passed, Kind.slot, h.idxFp, h.selectTarget_idxFp,
      counted_append_of_eq hkind]
    omega

/-- The slots of the arguments counted so far have been passed. -/
theorem Tracks.passed_slot (h : Tracks va argv s) {k : ℕ} (hk : k < maxRegsArgs)
    (hcount : k < counted kind argv) : s.Passed (kind.slot k) := by
  cases kind with
  | general =>
    simp only [ArmFrame.Passed, Kind.slot, h.idxGp]
    omega
  | double =>
    simp only [ArmFrame.Passed, Kind.slot, h.idxFp]
    omega

/-- A round stores to one slot that was not passed. -/
theorem Stores.placeArgument (h : Tracks va argv s) (hs : Stores s) :
    Stores (s.placeArgument va arg) := by
  by_cases overflows : Overflows va argv arg
  · rw [h.placeArgument_of_overflows overflows]
    refine ⟨fun slot hslot => ?_, fun i hi => ?_, fun slot hslot => ?_⟩
    · simp only [ArmFrame.store, ArmFrame.useStack, ArmFrame.selectTarget_written,
        List.mem_append, List.mem_singleton] at hslot
      rcases hslot with hslot | rfl
      · have hpassed := (hs.passed slot hslot).selectTarget arg
        cases slot with
        | x i => exact hpassed
        | d i => exact hpassed
        | stack i => exact Nat.lt_succ_of_lt hpassed
      · simp [ArmFrame.Passed, ArmFrame.store, ArmFrame.useStack]
    · simp only [ArmFrame.store, ArmFrame.useStack, ArmFrame.selectTarget_idxStack] at hi
      simp only [ArmFrame.store, ArmFrame.useStack, ArmFrame.selectTarget_written,
        List.mem_append, List.mem_singleton, Slot.stack.injEq]
      rcases Nat.lt_succ_iff_lt_or_eq.mp hi with hi | rfl
      · exact Or.inl (hs.stack i hi)
      · exact Or.inr rfl
    · simp_all [ArmFrame.store, ArmFrame.useStack]
  · obtain ⟨target, htarget, hplace⟩ := h.placeArgument_of_not_overflows overflows
    have hselect := h.selectTarget_currentTarget arg
    rw [if_neg (not_or.mp overflows).2, htarget] at hselect
    rw [hplace]
    refine ⟨fun slot hslot => ?_, fun i hi => ?_, fun slot hslot => ?_⟩
    · simp only [ArmFrame.store, ArmFrame.selectTarget_written, List.mem_append,
        List.mem_singleton] at hslot
      rcases hslot with hslot | rfl
      · exact (hs.passed slot hslot).selectTarget _
      · -- the target is the next register, or the target of the argument before
        rcases Option.or_eq_some_iff.mp htarget with hregister | ⟨-, hcurrent⟩
        · exact (h.passed_register (not_or.mp overflows).2 hregister).2
        · exact (hs.passed slot (hs.current slot hcurrent)).selectTarget _
    · simp only [ArmFrame.store, ArmFrame.selectTarget_idxStack] at hi
      simp only [ArmFrame.store, ArmFrame.selectTarget_written, List.mem_append]
      exact Or.inl (hs.stack i hi)
    · have hslot : (s.selectTarget arg).currentTarget = some slot := hslot
      simp only [ArmFrame.store, List.mem_append, List.mem_singleton]
      exact Or.inr (Option.some.inj (hslot.symm.trans hselect))

theorem stores_callFunctionArm (va : ℕ) (argv : List Argument) :
    Stores (callFunctionArm va argv) := by
  induction argv using List.reverseRecOn with
  | nil =>
    exact ⟨by simp [callFunctionArm, ArmFrame.init], by simp [callFunctionArm, ArmFrame.init],
      by simp [callFunctionArm, ArmFrame.init]⟩
  | append_singleton argv arg ih =>
    rw [callFunctionArm_append_singleton]
    exact ih.placeArgument (tracks_callFunctionArm va argv)

/-- Every word stored to lies in its buffer exactly when the stack area holds
all arguments that need it. -/
theorem forall_inBounds_iff (va : ℕ) (argv : List Argument) :
    (∀ slot ∈ (callFunctionArm va argv).written, slot.InBounds) ↔
      (stackArguments va argv).length ≤ maxStackArgs := by
  have htracks := tracks_callFunctionArm va argv
  have hstores := stores_callFunctionArm va argv
  rw [← htracks.idxStack]
  constructor
  · intro hbounds
    by_contra hmany
    exact Nat.lt_irrefl maxStackArgs
      (hbounds _ (hstores.stack maxStackArgs (Nat.lt_of_not_le hmany)))
  · intro hfits slot hslot
    have hpassed := hstores.passed slot hslot
    have hgp := htracks.idxGp
    have hfp := htracks.idxFp
    cases slot with
    | x i =>
      have hi : i < (callFunctionArm va argv).idxGp := hpassed
      exact Nat.lt_of_lt_of_le hi (by omega)
    | d i =>
      have hi : i < (callFunctionArm va argv).idxFp := hpassed
      exact Nat.lt_of_lt_of_le hi (by omega)
    | stack i => exact Nat.lt_of_lt_of_le hpassed hfits

/-! ## The law of placement -/

/-- The place on the stack of a slot that is there. -/
def Slot.stack? : Slot → Option ℕ
  | stack i => some i
  | _ => none

/-- Where the arguments are, once the loop has gone through `argv`. -/
structure Layout (va : ℕ) (argv : List Argument) (s : ArmFrame) : Prop where
  /-- the `k`-th named integer or pointer is in `x[k]`, the `k`-th named double in `d[k]` -/
  named : ∀ kind, ∀ k < maxRegsArgs, ∀ i < va, ∀ arg, argv[i]? = some arg →
    arg.kind = some kind → counted kind (argv.take i) = k → s.args (kind.slot k) = arg.word
  /-- the `k`-th of the other arguments is in `stack[k]` -/
  stack : ∀ k i arg, (stackArguments va argv)[k]? = some i → argv[i]? = some arg →
    s.args (.stack k) = arg.word
  /-- the stack area is filled from its first word on, without a gap -/
  order : s.written.filterMap Slot.stack? = List.range (stackArguments va argv).length
  /-- every argument is stored once, and no word is stored to twice -/
  nodup : s.written.Nodup
  length : s.written.length = argv.length

/-- One turn of the loop on an argument with a type: it is stored to a word no
counter has passed. -/
theorem Tracks.placeArgument_typed (h : Tracks va argv s) (typed : arg.kind ≠ none) :
    ∃ target, ¬ s.Passed target ∧
      (Overflows va argv arg → target = .stack (stackArguments va argv).length) ∧
      (¬ Overflows va argv arg → register argv arg = some target) ∧
      (s.placeArgument va arg).args = Function.update s.args target arg.word ∧
      (s.placeArgument va arg).written = s.written ++ [target] := by
  by_cases overflows : Overflows va argv arg
  · refine ⟨.stack s.idxStack, Nat.lt_irrefl _, fun _ => by rw [h.idxStack],
      fun stays => absurd overflows stays, ?_, ?_⟩
    · rw [h.placeArgument_of_overflows overflows]
      simp [ArmFrame.store, ArmFrame.useStack]
    · rw [h.placeArgument_of_overflows overflows]
      simp [ArmFrame.store, ArmFrame.useStack]
  · obtain ⟨target, htarget, hplace⟩ := h.placeArgument_of_not_overflows overflows
    obtain ⟨slot, hslot⟩ : ∃ slot, register argv arg = some slot := by
      obtain ⟨kind, hkind⟩ := Option.ne_none_iff_exists'.mp typed
      exact ⟨_, by rw [register, hkind]; rfl⟩
    obtain rfl : slot = target := by simpa [hslot] using htarget
    refine ⟨slot, (h.passed_register (not_or.mp overflows).2 hslot).1,
      fun goes => absurd goes overflows, fun _ => hslot, ?_, ?_⟩
    · rw [hplace]
      simp [ArmFrame.store]
    · rw [hplace]
      simp [ArmFrame.store]

/-- An argument is one of those counted. -/
theorem counted_take_lt {i : ℕ} (hi : argv[i]? = some arg) (hkind : arg.kind = some kind) :
    counted kind (argv.take i) < counted kind argv := by
  obtain ⟨hlt, hget⟩ := List.getElem?_eq_some_iff.mp hi
  have hsplit : counted kind argv =
      counted kind (argv.take i) + counted kind (argv.drop i) := by
    rw [counted, counted, counted, ← List.countP_append, List.take_append_drop]
  have hpos : 0 < counted kind (argv.drop i) := by
    rw [counted, List.countP_pos_iff]
    refine ⟨arg, ?_, by simp [hkind]⟩
    rw [List.drop_eq_getElem_cons hlt, hget]
    exact List.mem_cons_self
  omega

/-- An argument of the longer list is an earlier one or the new one. -/
theorem getElem?_append_cases {i : ℕ} {arg' : Argument} (hget : (argv ++ [arg])[i]? = some arg') :
    (i < argv.length ∧ argv[i]? = some arg') ∨ (i = argv.length ∧ arg' = arg) := by
  rcases Nat.lt_trichotomy i argv.length with hlt | rfl | hgt
  · rw [List.getElem?_append_left hlt] at hget
    exact Or.inl ⟨hlt, hget⟩
  · exact Or.inr ⟨rfl, by simpa using hget.symm⟩
  · rw [List.getElem?_eq_none (by simp; omega)] at hget
    cases hget

/-- A place on the stack is an old one or the last. -/
theorem stackArguments_getElem?_cases {k i : ℕ}
    (hk : (stackArguments va (argv ++ [arg]))[k]? = some i) :
    (k < (stackArguments va argv).length ∧ (stackArguments va argv)[k]? = some i ∧
        i < argv.length) ∨
      (Overflows va argv arg ∧ k = (stackArguments va argv).length ∧ i = argv.length) := by
  rw [stackArguments_append_singleton] at hk
  rcases Nat.lt_or_ge k (stackArguments va argv).length with hlt | hge
  · rw [List.getElem?_append_left hlt] at hk
    have hmem := List.mem_of_getElem? hk
    rw [stackArguments, List.mem_filter, List.mem_range] at hmem
    exact Or.inl ⟨hlt, hk, hmem.1⟩
  · rw [List.getElem?_append_right hge] at hk
    by_cases overflows : Overflows va argv arg
    · rw [if_pos overflows] at hk
      obtain ⟨hzero, rfl⟩ : k - (stackArguments va argv).length = 0 ∧ argv.length = i := by
        simpa [List.getElem?_singleton] using hk
      exact Or.inr ⟨overflows, by omega, rfl⟩
    · rw [if_neg overflows] at hk
      cases hk

/-- The words stored to before the new one are the ones of the stack, in order. -/
theorem order_append {target : Slot} {written : List Slot}
    (hover : Overflows va argv arg → target = .stack (stackArguments va argv).length)
    (hstay : ¬ Overflows va argv arg → register argv arg = some target)
    (horder : written.filterMap Slot.stack? = List.range (stackArguments va argv).length) :
    (written ++ [target]).filterMap Slot.stack? =
      List.range (stackArguments va (argv ++ [arg])).length := by
  rw [List.filterMap_append, horder, stackArguments_append_singleton]
  by_cases overflows : Overflows va argv arg
  · rw [hover overflows, if_pos overflows, List.length_append, List.length_singleton,
        List.range_succ]
    rfl
  · obtain ⟨kind, hkind, rfl⟩ := Option.map_eq_some_iff.mp (hstay overflows)
    rw [if_neg overflows, List.append_nil]
    cases kind <;> simp [Kind.slot, Slot.stack?]

theorem Layout.placeArgument (h : Tracks va argv s) (hs : Stores s) (hl : Layout va argv s)
    (typed : arg.kind ≠ none) : Layout va (argv ++ [arg]) (s.placeArgument va arg) := by
  obtain ⟨target, hfresh, hover, hstay, hargs, hwritten⟩ := h.placeArgument_typed typed
  -- the words of earlier arguments keep their values
  have hkeep : ∀ slot, s.Passed slot → (s.placeArgument va arg).args slot = s.args slot := by
    intro slot hpassed
    rw [hargs, Function.update_of_ne]
    rintro rfl
    exact hfresh hpassed
  have htarget : (s.placeArgument va arg).args target = arg.word := by
    rw [hargs, Function.update_self]
  refine ⟨?_, ?_, ?_, ?_, ?_⟩
  · intro kind k hk i hi arg' hget hkind hcount
    rcases getElem?_append_cases hget with ⟨hlt, hget⟩ | ⟨rfl, rfl⟩
    · rw [List.take_append_of_le_length (Nat.le_of_lt hlt)] at hcount
      have hless := counted_take_lt hget hkind
      rw [hkeep _ (h.passed_slot hk (by omega))]
      exact hl.named kind k hk i hi arg' hget hkind hcount
    · rw [List.take_left' rfl] at hcount
      have hstays : ¬ Overflows va argv arg' := by
        rw [Overflows, NoRegister, hkind]
        omega
      have hslot := hstay hstays
      rw [register, hkind, Option.map_some, hcount, Option.some.injEq] at hslot
      rw [← htarget, ← hslot]
  · intro k i arg' hk hget
    rcases stackArguments_getElem?_cases hk with ⟨hlt, hk, hi⟩ | ⟨overflows, rfl, rfl⟩
    · rw [List.getElem?_append_left hi] at hget
      rw [hkeep _ (by rw [ArmFrame.Passed, h.idxStack]; exact hlt)]
      exact hl.stack k i arg' hk hget
    · obtain rfl : arg = arg' := by simpa using hget
      rw [← htarget, hover overflows]
  · rw [hwritten]
    exact order_append hover hstay hl.order
  · rw [hwritten]
    apply hl.nodup.append (List.nodup_singleton target)
    rw [List.disjoint_singleton]
    exact fun hmem => hfresh (hs.passed target hmem)
  · rw [hwritten, List.length_append, List.length_append, hl.length]
    rfl

theorem layout_callFunctionArm (va : ℕ) (typed : ∀ arg ∈ argv, arg.kind ≠ none) :
    Layout va argv (callFunctionArm va argv) := by
  induction argv using List.reverseRecOn with
  | nil => exact ⟨by simp, by simp [stackArguments], rfl, List.nodup_nil, rfl⟩
  | append_singleton argv arg ih =>
    rw [callFunctionArm_append_singleton]
    exact (ih fun arg' harg' => typed arg' (List.mem_append_left _ harg')).placeArgument
      (tracks_callFunctionArm va argv) (stores_callFunctionArm va argv)
      (typed arg (by simp))

/-- Arguments with types, at most sixteen of which need the stack, are each put
where the convention wants them, within the buffers. -/
theorem callFunctionArm_places (va : ℕ) (argv : List Argument)
    (typed : ∀ arg ∈ argv, arg.kind ≠ none)
    (fits : (stackArguments va argv).length ≤ maxStackArgs) :
    Layout va argv (callFunctionArm va argv) ∧
      ∀ slot ∈ (callFunctionArm va argv).written, slot.InBounds :=
  ⟨layout_callFunctionArm va typed, (forall_inBounds_iff va argv).mpr fits⟩

/-- A format text, three variadic arguments and their places. -/
theorem callFunctionArm_places_printf :
    Layout 1 [.vStr 0x1000, .vInt 3, .vDouble 0x3ff0000000000000, .vBytes 2 0x2000]
        (callFunctionArm 1 [.vStr 0x1000, .vInt 3, .vDouble 0x3ff0000000000000, .vBytes 2 0x2000]) ∧
      ∀ slot ∈ (callFunctionArm 1
        [.vStr 0x1000, .vInt 3, .vDouble 0x3ff0000000000000, .vBytes 2 0x2000]).written,
        slot.InBounds :=
  callFunctionArm_places 1 _ (by decide) (by decide)

end RpcProject.Calls
