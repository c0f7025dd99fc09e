/-
# Allocating and deallocating a remote resource

An `Allocated` object stands for a resource on the remote host. `allocate` runs
`_allocate` unless the flag `_allocated` is set, and `deallocate` runs `_deallocate`
unless `_deallocated` is set. Both set their flag before they await what it stands for, and
never take it back. `async with` allocates, runs its body and deallocates.

A call that finds its flag set returns at once, whatever has become of the attempt that
set it. What the flags stand for is true as long as no attempt raises, no call meets an
attempt that is still under way, and none asks for what has been given back.
-/

import Mathlib.Logic.Function.Basic
import RpcProject.Foundations.Machine

namespace RpcProject.Client.Allocated

open Foundations

/-- The two things that are done to the resource. -/
inductive Attempt
  | allocate
  | deallocate
  deriving DecidableEq, Repr

/-- Whether the resource is held after the attempt. -/
def Attempt.holds : Attempt → Bool
  | allocate => true
  | deallocate => false

variable {T : Type} [DecidableEq T]

/-- The flags `_allocated` and `_deallocated`, the resource, and of each task the call it
awaits, if any, and the bodies of `async with` it is in.

Besides: how often the resource has been acquired and released, the attempts that raised,
and the calls that returned, each with whether the resource was held when it did. -/
structure State (T : Type) where
  flag : Attempt → Bool
  held : Bool
  count : Attempt → ℕ
  failed : Attempt → Bool
  awaiting : T → Option (Attempt × Bool)
  bodies : T → ℕ
  returns : List (Attempt × Bool)

/-- What a task does next. -/
inductive Act
  /-- Call `allocate` or `deallocate`, directly or on the way in or out of `async with`. -/
  | call (attempt : Attempt) (inWith : Bool)
  /-- The awaited `_allocate` or `_deallocate` returns. -/
  | completes
  /-- It raises, and leaves the resource as it is. -/
  | raises
  deriving DecidableEq, Repr

/-- A call of `allocate` or `deallocate` returns to its task. -/
def State.returned (s : State T) (t : T) (attempt : Attempt) (inWith : Bool) : State T :=
  { s with
    awaiting := Function.update s.awaiting t none
    bodies :=
      if inWith ∧ attempt = .allocate then Function.update s.bodies t (s.bodies t + 1) else s.bodies
    returns := (attempt, s.held) :: s.returns }

/-- The body that `allocate` and `deallocate` share: set the flag and await the attempt, or
return at once. -/
def State.begin (s : State T) (t : T) (attempt : Attempt) (inWith : Bool) : State T :=
  if s.flag attempt = false then
    { s with
      flag := Function.update s.flag attempt true
      awaiting := Function.update s.awaiting t (some (attempt, inWith)) }
  else s.returned t attempt inWith

/-- `allocate` -/
def allocate (s : State T) (t : T) : State T := s.begin t .allocate false

/-- `deallocate` -/
def deallocate (s : State T) (t : T) : State T := s.begin t .deallocate false

/-- `__aenter__` -/
def aenter (s : State T) (t : T) : State T := s.begin t .allocate true

/-- The body of `async with` is left, which only a task in one can do. -/
def aexit (s : State T) (t : T) : Option (State T) :=
  if s.bodies t = 0 then none
  else
    some ({ s with bodies := Function.update s.bodies t (s.bodies t - 1) }.begin t .deallocate true)

/-- `_allocate` and `_deallocate` do what they are for. The resource may be there from
construction on, and then `_allocate` does nothing. -/
def State.complete (acquires : Bool) (s : State T) : Attempt → State T
  | .allocate =>
      if acquires then
        { s with held := true, count := Function.update s.count .allocate (s.count .allocate + 1) }
      else s
  | .deallocate =>
      { s with
        held := false
        count := Function.update s.count .deallocate (s.count .deallocate + s.held.toNat) }

/-- The four ways to call the two methods. -/
def call (s : State T) (t : T) : Attempt → Bool → Option (State T)
  | .allocate, false => some (allocate s t)
  | .deallocate, false => some (deallocate s t)
  | .allocate, true => some (aenter s t)
  | .deallocate, true => aexit s t

/-- What each task may do next. -/
def step (acquires : Bool) (s : State T) : T × Act → Option (State T)
  | (t, .call attempt inWith) => if s.awaiting t = none then call s t attempt inWith else none
  | (t, .completes) =>
      (s.awaiting t).map fun (attempt, inWith) =>
        (s.complete acquires attempt).returned t attempt inWith
  | (t, .raises) =>
      match s.awaiting t with
      | some (attempt, _) =>
          -- an `_allocate` that does nothing does not raise
          if attempt = .allocate ∧ acquires = false then none
          else some { s with
            failed := Function.update s.failed attempt true
            awaiting := Function.update s.awaiting t none }
      | none => none

/-- A new object, which holds its resource if `_allocate` does not acquire one. -/
def new (acquires : Bool) : State T where
  flag _ := false
  held := !acquires
  count
    | .allocate => (!acquires).toNat
    | .deallocate => 0
  failed _ := false
  awaiting _ := none
  bodies _ := 0
  returns := []

/-- The tasks that share one object. -/
def machine (T : Type) [DecidableEq T] (acquires : Bool) : Machine (State T) (T × Act) where
  start s := s = new acquires
  step := step acquires

/-- What is expected of an object. -/
structure Lawful (s : State T) : Prop where
  returned : ∀ attempt held, (attempt, held) ∈ s.returns → held = attempt.holds
  /-- After an attempt that failed, with none under way, a call makes another one. -/
  retry : ∀ attempt, s.failed attempt = true → s.count attempt = 0 →
    (∀ t inWith, s.awaiting t ≠ some (attempt, inWith)) → s.flag attempt = false
  once : ∀ attempt, s.count attempt ≤ 1

/-- A call finds its flag unset or the resource as it wants it, no attempt raises, and an
`_allocate` that does nothing is run while the resource is held. -/
def Undisturbed (acquires : Bool) (s : State T) : T × Act → Prop
  | (_, .call attempt _) => s.flag attempt = false ∨ s.held = attempt.holds
  | (t, .completes) =>
      ∀ inWith, s.awaiting t = some (.allocate, inWith) → acquires = true ∨ s.held = true
  | (_, .raises) => False

instance (acquires : Bool) (s : State T) (act : T × Act) : Decidable (Undisturbed acquires s act) :=
  match act with
  | (_, .call _ _) => inferInstanceAs (Decidable (_ ∨ _))
  | (_, .completes) => inferInstanceAs (Decidable (∀ _, _ → _))
  | (_, .raises) => .isFalse id

/-! ## What a step can do -/

variable {acquires : Bool} {s s' : State T} {t : T} {act : Act} {attempt : Attempt}

/-- What the steps of all tasks come to. -/
inductive Change (acquires : Bool) (s : State T) : T × Act → State T → Prop
  | atOnce (t : T) (attempt : Attempt) (inWith : Bool) (bodies : T → ℕ)
      (hflag : s.flag attempt = true) :
      Change acquires s (t, .call attempt inWith)
        { s with bodies, returns := (attempt, s.held) :: s.returns }
  | begun (t : T) (attempt : Attempt) (inWith : Bool) (bodies : T → ℕ)
      (hawaiting : s.awaiting t = none) (hflag : s.flag attempt = false) :
      Change acquires s (t, .call attempt inWith)
        { s with
          bodies
          flag := Function.update s.flag attempt true
          awaiting := Function.update s.awaiting t (some (attempt, inWith)) }
  | completed (t : T) (attempt : Attempt) (inWith : Bool) (bodies : T → ℕ)
      (hawaiting : s.awaiting t = some (attempt, inWith)) :
      Change acquires s (t, .completes)
        { s.complete acquires attempt with
          bodies
          awaiting := Function.update s.awaiting t none
          returns := (attempt, (s.complete acquires attempt).held) :: s.returns }
  | raised (t : T) (attempt : Attempt) (inWith : Bool)
      (hawaiting : s.awaiting t = some (attempt, inWith))
      (hacquires : attempt = .allocate → acquires = true) :
      Change acquires s (t, .raises)
        { s with
          failed := Function.update s.failed attempt true
          awaiting := Function.update s.awaiting t none }

/-- A task that calls a method goes on until it waits or returns. -/
theorem change_of_begin {bodies : T → ℕ} (hawaiting : s.awaiting t = none) (inWith : Bool) :
    Change acquires s (t, .call attempt inWith)
      ({ s with bodies }.begin t attempt inWith) := by
  -- a flag that is set makes the call return, whatever became of the attempt
  cases hflag : s.flag attempt with
  | false =>
    rw [State.begin, if_pos hflag]
    exact .begun t attempt inWith bodies hawaiting hflag
  | true =>
    have hsame : Function.update s.awaiting t none = s.awaiting := by
      rw [← hawaiting, Function.update_eq_self]
    rw [State.begin, if_neg (by rw [hflag]; exact Bool.noConfusion), State.returned]
    dsimp only
    rw [hsame]
    exact .atOnce t attempt inWith _ hflag

omit [DecidableEq T] in
/-- A method that ends changes the resource only. -/
theorem complete_frame (acquires : Bool) (s : State T) (attempt : Attempt) :
    (s.complete acquires attempt).flag = s.flag ∧
      (s.complete acquires attempt).failed = s.failed ∧
      (s.complete acquires attempt).awaiting = s.awaiting ∧
      (s.complete acquires attempt).returns = s.returns := by
  cases attempt with
  | allocate => cases acquires <;> exact ⟨rfl, rfl, rfl, rfl⟩
  | deallocate => exact ⟨rfl, rfl, rfl, rfl⟩

theorem change_of_step (h : step acquires s (t, act) = some s') :
    Change acquires s (t, act) s' := by
  cases act with
  | call attempt inWith =>
    obtain ⟨hawaiting, hcall⟩ := Option.ite_none_right_eq_some.mp h
    cases attempt with
    | allocate =>
      cases inWith with
      | false =>
        cases hcall
        exact change_of_begin hawaiting false
      | true =>
        cases hcall
        exact change_of_begin hawaiting true
    | deallocate =>
      cases inWith with
      | false =>
        cases hcall
        exact change_of_begin hawaiting false
      | true =>
        obtain ⟨-, hcall⟩ := Option.ite_none_left_eq_some.mp hcall
        cases hcall
        exact change_of_begin hawaiting true
  | completes =>
    obtain ⟨⟨attempt, inWith⟩, hawaiting, h⟩ := Option.map_eq_some_iff.mp h
    cases h
    obtain ⟨-, -, hawait, hreturns⟩ := complete_frame acquires s attempt
    dsimp only
    rw [State.returned, hawait, hreturns]
    exact .completed t attempt inWith _ hawaiting
  | raises =>
    rw [step] at h
    split at h
    next attempt inWith hawaiting =>
      obtain ⟨hnot, h⟩ := Option.ite_none_left_eq_some.mp h
      cases h
      refine .raised t attempt inWith hawaiting fun hallocate => ?_
      cases acquires with
      | false => exact absurd ⟨hallocate, rfl⟩ hnot
      | true => rfl
    next => cases h

/-! ## Each attempt is made once -/

/-- An attempt that may be counted when it completes has not been counted before. -/
def Uncounted (acquires : Bool) (s : State T) (attempt : Attempt) : Prop :=
  s.count attempt = 0 ∨ attempt = .allocate ∧ acquires = false

/-- What the flags do ensure: an attempt under way is the only one that was ever made. -/
structure Single (acquires : Bool) (s : State T) : Prop where
  awaited : ∀ t attempt inWith, s.awaiting t = some (attempt, inWith) →
    s.flag attempt = true ∧ s.failed attempt = false ∧ Uncounted acquires s attempt ∧
      ∀ t' inWith', s.awaiting t' = some (attempt, inWith') → t' = t
  fresh : ∀ attempt, s.flag attempt = false →
    s.failed attempt = false ∧ Uncounted acquires s attempt ∧
      ∀ t inWith, s.awaiting t ≠ some (attempt, inWith)
  once : ∀ attempt, s.count attempt ≤ 1

omit [DecidableEq T] in
/-- A new object has one attempt of each kind at most. -/
theorem single_new : Single acquires (new acquires : State T) where
  awaited _ _ _ h := nomatch h
  fresh attempt _ := by
    refine ⟨rfl, ?_, fun _ _ h => nomatch h⟩
    cases attempt with
    | allocate =>
      cases acquires with
      | false => exact .inr ⟨rfl, rfl⟩
      | true => exact .inl rfl
    | deallocate => exact .inl rfl
  once attempt := by
    cases attempt with
    | allocate => exact Bool.toNat_le _
    | deallocate => exact Nat.zero_le 1

/-- A change of what a task awaits that is about one attempt leaves who awaits the other. -/
theorem awaiting_update_iff {other : Attempt} {awaited : Option (Attempt × Bool)} {t' : T}
    {inWith : Bool} (hold : s.awaiting t ≠ some (other, inWith))
    (hnew : awaited ≠ some (other, inWith)) :
    Function.update s.awaiting t awaited t' = some (other, inWith) ↔
      s.awaiting t' = some (other, inWith) := by
  by_cases ht : t' = t
  · rw [ht, Function.update_self]
    exact iff_of_false hnew hold
  · rw [Function.update_of_ne ht]

/-- After a task's call has ended, the other tasks await what they awaited. -/
theorem awaiting_of_ended {t' : T} {awaited : Attempt × Bool}
    (h : Function.update s.awaiting t none t' = some awaited) :
    t' ≠ t ∧ s.awaiting t' = some awaited := by
  by_cases heq : t' = t
  · rw [heq, Function.update_self] at h
    cases h
  · rw [Function.update_of_ne heq] at h
    exact ⟨heq, h⟩

/-- An attempt that begins is the first of its kind. -/
theorem Single.begun (h : Single acquires s) {inWith : Bool} {bodies : T → ℕ}
    (hawaiting : s.awaiting t = none) (hflag : s.flag attempt = false) :
    Single acquires
      { s with
        bodies
        flag := Function.update s.flag attempt true
        awaiting := Function.update s.awaiting t (some (attempt, inWith)) } := by
  have hothers : ∀ other t' inWith', other ≠ attempt →
      (Function.update s.awaiting t (some (attempt, inWith)) t' = some (other, inWith') ↔
        s.awaiting t' = some (other, inWith')) := by
    intro other t' inWith' hne
    apply awaiting_update_iff (by rw [hawaiting]; exact Option.some_ne_none _ |>.symm)
    intro h'
    cases h'
    exact hne rfl
  constructor
  · intro t₁ other inWith₁ h₁
    by_cases heq : other = attempt
    · -- nobody else awaits an attempt whose flag was unset
      subst heq
      obtain ⟨hfailed, hcount, hnone⟩ := h.fresh other hflag
      have honly : ∀ t' inWith', Function.update s.awaiting t (some (other, inWith)) t' =
          some (other, inWith') → t' = t := by
        intro t' inWith' h'
        by_contra ht
        rw [Function.update_of_ne ht] at h'
        exact hnone t' inWith' h'
      refine ⟨Function.update_self _ _ _, hfailed, hcount, fun t' inWith' h' => ?_⟩
      rw [honly t' inWith' h', honly t₁ inWith₁ h₁]
    · obtain ⟨hset, hfailed, hcount, hunique⟩ :=
        h.awaited t₁ other inWith₁ ((hothers other t₁ inWith₁ heq).mp h₁)
      exact ⟨(Function.update_of_ne heq _ _).trans hset, hfailed, hcount, fun t' inWith' h' =>
        hunique t' inWith' ((hothers other t' inWith' heq).mp h')⟩
  · intro other hunset
    have hne : other ≠ attempt := by
      rintro rfl
      exact absurd ((Function.update_self other true s.flag).symm.trans hunset) nofun
    obtain ⟨hfailed, hcount, hnone⟩ :=
      h.fresh other ((Function.update_of_ne hne _ _).symm.trans hunset)
    exact ⟨hfailed, hcount, fun t' inWith' h' =>
      hnone t' inWith' ((hothers other t' inWith' hne).mp h')⟩
  · exact h.once

/-- An attempt that ends leaves what is known of the other one, of its flag and of the
tasks. -/
theorem Single.ended (h : Single acquires s) {inWith : Bool} {s' : State T}
    (hawaiting : s.awaiting t = some (attempt, inWith)) (hflag : s'.flag = s.flag)
    (hawaiting' : s'.awaiting = Function.update s.awaiting t none)
    (hother : ∀ other, other ≠ attempt →
      s'.failed other = s.failed other ∧ s'.count other = s.count other)
    (honce : s'.count attempt ≤ 1) : Single acquires s' where
  awaited t₁ other inWith₁ h₁ := by
    rw [hawaiting'] at h₁ ⊢
    obtain ⟨ht, h₁⟩ := awaiting_of_ended h₁
    have hne : other ≠ attempt := by
      rintro rfl
      exact ht ((h.awaited t other inWith hawaiting).2.2.2 t₁ inWith₁ h₁)
    obtain ⟨hset, hfailed, hcount, hunique⟩ := h.awaited t₁ other inWith₁ h₁
    obtain ⟨hfailed', hcount'⟩ := hother other hne
    rw [hflag, hfailed', Uncounted, hcount']
    exact ⟨hset, hfailed, hcount, fun t' inWith' h' =>
      hunique t' inWith' (awaiting_of_ended h').2⟩
  fresh other hunset := by
    rw [hflag] at hunset
    have hne : other ≠ attempt := by
      rintro rfl
      exact absurd (hunset.symm.trans (h.awaited t other inWith hawaiting).1) nofun
    obtain ⟨hfailed, hcount, hnone⟩ := h.fresh other hunset
    obtain ⟨hfailed', hcount'⟩ := hother other hne
    rw [hfailed', Uncounted, hcount', hawaiting']
    exact ⟨hfailed, hcount, fun t' inWith' h' => hnone t' inWith' (awaiting_of_ended h').2⟩
  once other := by
    by_cases heq : other = attempt
    · rw [heq]
      exact honce
    · rw [(hother other heq).2]
      exact h.once other

omit [DecidableEq T] in
/-- What completing an attempt does to the count of the other one. -/
theorem complete_count (s : State T) {other : Attempt} (hne : other ≠ attempt) :
    (s.complete acquires attempt).count other = s.count other := by
  cases attempt with
  | allocate =>
    cases acquires with
    | false => rfl
    | true => exact Function.update_of_ne hne _ _
  | deallocate => exact Function.update_of_ne hne _ _

omit [DecidableEq T] in
theorem complete_count_self_le (hcount : Uncounted acquires s attempt)
    (honce : s.count attempt ≤ 1) :
    (s.complete acquires attempt).count attempt ≤ 1 := by
  cases attempt with
  | allocate =>
    cases acquires with
    | false => exact honce
    | true =>
      obtain hzero | ⟨-, hfalse⟩ := hcount
      · have hcompleted : (s.complete true .allocate).count .allocate = s.count .allocate + 1 := by
          simp [State.complete]
        omega
      · cases hfalse
  | deallocate =>
    obtain hzero | ⟨hallocate, -⟩ := hcount
    · have hcompleted : (s.complete acquires .deallocate).count .deallocate =
          s.count .deallocate + s.held.toNat := by simp [State.complete]
      rw [hcompleted, hzero, Nat.zero_add]
      exact Bool.toNat_le _
    · cases hallocate

theorem Single.change (h : Single acquires s) {act : T × Act} (hchange : Change acquires s act s') :
    Single acquires s' := by
  cases hchange with
  | atOnce t attempt inWith bodies hflag => exact { h with }
  | begun t attempt inWith bodies hawaiting hflag => exact h.begun hawaiting hflag
  | completed t attempt inWith bodies hawaiting =>
    obtain ⟨hflag, hfailed, -, -⟩ := complete_frame acquires s attempt
    refine h.ended hawaiting hflag rfl (fun other hne => ?_) ?_
    · exact ⟨congrFun hfailed other, complete_count s hne⟩
    · exact complete_count_self_le (h.awaited t attempt inWith hawaiting).2.2.1 (h.once attempt)
  | raised t attempt inWith hawaiting hacquires =>
    refine h.ended hawaiting rfl rfl (fun other hne => ?_) (h.once attempt)
    exact ⟨Function.update_of_ne hne _ _, rfl⟩

/-! ## The exact condition -/

theorem forall_returns_cons {P : Attempt → Bool → Prop} {returns : List (Attempt × Bool)}
    {held : Bool} :
    (∀ other h, (other, h) ∈ (attempt, held) :: returns → P other h) ↔
      P attempt held ∧ ∀ other h, (other, h) ∈ returns → P other h := by
  constructor
  · exact fun hall => ⟨hall attempt held List.mem_cons_self,
      fun other h hmem => hall other h (List.mem_cons_of_mem _ hmem)⟩
  · rintro ⟨hfirst, hrest⟩ other h hmem
    rcases List.mem_cons.mp hmem with heq | hmem
    · cases heq
      exact hfirst
    · exact hrest other h hmem

omit [DecidableEq T] in
/-- A completed attempt leaves the resource as the attempt is to leave it, except that
`_allocate` may do nothing. -/
theorem complete_held_iff (s : State T) (inWith : Bool)
    (hawaiting : s.awaiting t = some (attempt, inWith)) :
    (s.complete acquires attempt).held = attempt.holds ↔
      Undisturbed acquires s (t, .completes) := by
  cases attempt with
  | allocate =>
    cases acquires with
    | false =>
      refine ⟨fun hheld _ _ => .inr hheld, fun h => ?_⟩
      exact (h inWith hawaiting).resolve_left nofun
    | true => exact ⟨fun _ _ _ => .inl rfl, fun _ => rfl⟩
  | deallocate =>
    refine ⟨fun _ inWith' h' => ?_, fun _ => rfl⟩
    cases hawaiting.symm.trans h'

omit [DecidableEq T] in
/-- A call that returns at once is as it should be if the resource is as the method leaves
it. -/
theorem lawful_atOnce_iff (attempt : Attempt) (bodies : T → ℕ) :
    Lawful { s with bodies, returns := (attempt, s.held) :: s.returns } ↔
      Lawful s ∧ s.held = attempt.holds := by
  constructor
  · intro h
    obtain ⟨hfirst, hrest⟩ := forall_returns_cons.mp h.returned
    exact ⟨⟨hrest, h.retry, h.once⟩, hfirst⟩
  · rintro ⟨h, hfirst⟩
    exact ⟨forall_returns_cons.mpr ⟨hfirst, h.returned⟩, h.retry, h.once⟩

/-- An attempt that begins breaks nothing. -/
theorem lawful_begun_iff (hs : Single acquires s) (inWith : Bool) (bodies : T → ℕ)
    (hawaiting : s.awaiting t = none) (hflag : s.flag attempt = false) :
    Lawful { s with
      bodies
      flag := Function.update s.flag attempt true
      awaiting := Function.update s.awaiting t (some (attempt, inWith)) } ↔ Lawful s := by
  have hothers : ∀ other, other ≠ attempt → ∀ t' inWith',
      (Function.update s.awaiting t (some (attempt, inWith)) t' = some (other, inWith') ↔
        s.awaiting t' = some (other, inWith')) := by
    intro other hne t' inWith'
    apply awaiting_update_iff (by rw [hawaiting]; exact Option.some_ne_none _ |>.symm)
    intro h'
    cases h'
    exact hne rfl
  constructor
  · refine fun h => ⟨h.returned, fun other hfail hcount hnone => ?_, h.once⟩
    by_cases heq : other = attempt
    · rw [heq, hflag]
    · refine (Function.update_of_ne heq _ _).symm.trans (h.retry other hfail hcount ?_)
      exact fun t' inWith' h' => hnone t' inWith' ((hothers other heq t' inWith').mp h')
  · refine fun h => ⟨h.returned, fun other hfail hcount hnone => ?_, h.once⟩
    -- an attempt that has failed is not the one that is made for the first time now
    have hne : other ≠ attempt := by
      rintro rfl
      exact absurd (hfail.symm.trans (hs.fresh other hflag).1) nofun
    refine (Function.update_of_ne hne _ _).trans (h.retry other hfail hcount ?_)
    exact fun t' inWith' h' => hnone t' inWith' ((hothers other hne t' inWith').mpr h')

/-- An attempt that ends is as it should be if nothing came between. -/
theorem lawful_completed_iff (hs : Single acquires s) (inWith : Bool) (bodies : T → ℕ)
    (hawaiting : s.awaiting t = some (attempt, inWith)) :
    Lawful { s.complete acquires attempt with
      bodies
      awaiting := Function.update s.awaiting t none
      returns := (attempt, (s.complete acquires attempt).held) :: s.returns } ↔
        Lawful s ∧ (s.complete acquires attempt).held = attempt.holds := by
  obtain ⟨hset, hfailed, hcount, -⟩ := hs.awaited t attempt inWith hawaiting
  obtain ⟨hflag, hfail, -, -⟩ := complete_frame acquires s attempt
  -- the attempt has not failed, and the other one is as it was
  have hothers : ∀ other, s.failed other = true → other ≠ attempt := by
    rintro other hother rfl
    exact absurd (hother.symm.trans hfailed) nofun
  constructor
  · intro h
    obtain ⟨hfirst, hrest⟩ := forall_returns_cons.mp h.returned
    refine ⟨⟨hrest, fun other hother hzero hnone => ?_, fun other => hs.once other⟩, hfirst⟩
    have hne := hothers other hother
    rw [← congrFun hflag other]
    refine h.retry other ((congrFun hfail other).trans hother)
      ((complete_count s hne).trans hzero) fun t' inWith' h' => ?_
    exact hnone t' inWith' (awaiting_of_ended h').2
  · rintro ⟨h, hfirst⟩
    refine ⟨forall_returns_cons.mpr ⟨hfirst, h.returned⟩, fun other hother hzero hnone => ?_,
      fun other => ?_⟩
    · have hother : s.failed other = true := (congrFun hfail other).symm.trans hother
      have hne := hothers other hother
      refine (congrFun hflag other).trans (h.retry other hother
        ((complete_count s hne).symm.trans hzero) fun t' inWith' h' => hnone t' inWith' ?_)
      have ht : t' ≠ t := by
        rintro rfl
        cases hawaiting.symm.trans h'
        exact hne rfl
      exact (Function.update_of_ne ht _ _).trans h'
    · exact (hs.change (.completed t attempt inWith bodies hawaiting)).once other

/-- After an attempt that raises, its flag is still set and nobody awaits it any more. -/
theorem not_lawful_raised (hs : Single acquires s) {inWith : Bool}
    (hawaiting : s.awaiting t = some (attempt, inWith))
    (hacquires : attempt = .allocate → acquires = true) :
    ¬ Lawful { s with
      failed := Function.update s.failed attempt true
      awaiting := Function.update s.awaiting t none } := by
  intro h
  obtain ⟨hset, -, hcount, hunique⟩ := hs.awaited t attempt inWith hawaiting
  have hunset : s.flag attempt = false := by
    refine h.retry attempt (Function.update_self _ _ _) ?_ fun t' inWith' h' => ?_
    · refine hcount.resolve_right fun ⟨hallocate, hfalse⟩ => ?_
      exact absurd ((hacquires hallocate).symm.trans hfalse) nofun
    · obtain ⟨hne, h'⟩ := awaiting_of_ended h'
      exact hne (hunique t' inWith' h')
  exact absurd (hset.symm.trans hunset) nofun

/-- A step keeps to what is expected just if it is undisturbed. -/
theorem lawful_change_iff (hs : Single acquires s) {act : T × Act}
    (hchange : Change acquires s act s') :
    Lawful s' ↔ Lawful s ∧ Undisturbed acquires s act := by
  cases hchange with
  | atOnce t attempt inWith bodies hflag =>
    have hheld : Undisturbed acquires s (t, .call attempt inWith) ↔ s.held = attempt.holds :=
      ⟨fun h => h.resolve_left (by rw [hflag]; exact Bool.noConfusion), .inr⟩
    rw [hheld]
    exact lawful_atOnce_iff attempt bodies
  | begun t attempt inWith bodies hawaiting hflag =>
    rw [lawful_begun_iff hs inWith bodies hawaiting hflag]
    exact (and_iff_left (.inl hflag)).symm
  | completed t attempt inWith bodies hawaiting =>
    rw [← complete_held_iff s inWith hawaiting]
    exact lawful_completed_iff hs inWith bodies hawaiting
  | raised t attempt inWith hawaiting hacquires =>
    exact iff_of_false (not_lawful_raised hs hawaiting hacquires) And.right

omit [DecidableEq T] in
theorem lawful_new : Lawful (new acquires : State T) where
  returned _ _ h := absurd h List.not_mem_nil
  retry _ _ _ _ := rfl
  once := single_new.once

/-- An object lives up to what is expected of it just if the run is undisturbed. -/
theorem lawful_iff_undisturbed (acquires : Bool) {acts : List (T × Act)}
    (hrun : (machine T acquires).run (new acquires) acts = some s) :
    Lawful s ↔
      (machine T acquires).passes (fun s act => decide (Undisturbed acquires s act)) (new acquires)
        acts = true := by
  have hfrom : ∀ acts (s₀ : State T), Single acquires s₀ →
      (machine T acquires).run s₀ acts = some s → (Lawful s ↔ Lawful s₀ ∧
        (machine T acquires).passes
          (fun s act => decide (Undisturbed acquires s act)) s₀ acts) := by
    intro acts
    induction acts with
    | nil =>
      intro s₀ _ hrun
      cases hrun
      exact ⟨fun h => ⟨h, rfl⟩, And.left⟩
    | cons act rest ih =>
      intro s₀ hs hrun
      rw [Machine.run_cons] at hrun
      obtain ⟨s₁, hstep, hrest⟩ := Option.bind_eq_some_iff.mp hrun
      have hchange : Change acquires s₀ act s₁ := change_of_step hstep
      rw [ih s₁ (hs.change hchange) hrest, lawful_change_iff hs hchange, Machine.passes, hstep,
        Bool.and_eq_true, decide_eq_true_iff, and_assoc]
  rw [hfrom acts _ single_new hrun]
  exact and_iff_right lawful_new

/-- One task's `async with` around another task's call of `allocate`. -/
def shared : List (ℕ × Act) :=
  [(0, .call .allocate true), (0, .completes), (1, .call .allocate false),
    (0, .call .deallocate true), (0, .completes)]

/-- Two tasks share an object that is released once. -/
theorem lawful_shared :
    ∃ s, (machine ℕ true).run (new true) shared = some s ∧ Lawful s ∧ s.count .deallocate = 1 := by
  have hpasses : (machine ℕ true).passes (fun s act => decide (Undisturbed true s act)) (new true)
      shared = true := by decide
  obtain ⟨s, hrun, hcount⟩ : ∃ s, (machine ℕ true).run (new true) shared = some s ∧
      s.count .deallocate = 1 := ⟨_, rfl, rfl⟩
  exact ⟨s, hrun, (lawful_iff_undisturbed true hrun).mpr hpasses, hcount⟩

/-- `_allocate` raises, and the next `allocate` returns without a resource. -/
theorem not_lawful_failed :
    ∃ s, (machine ℕ true).run (new true)
        [(0, .call .allocate true), (0, .raises), (0, .call .allocate true)] = some s ∧
      (.allocate, false) ∈ s.returns ∧ ¬ Lawful s := by
  refine ⟨_, rfl, List.mem_cons_self, fun h => ?_⟩
  exact absurd (h.returned .allocate false List.mem_cons_self) (by decide)

end RpcProject.Client.Allocated
