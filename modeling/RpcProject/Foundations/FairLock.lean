/-
# A fair lock

A lock with at most one holder and a queue of waiters, as cooperative task
schedulers provide it. A newcomer takes the lock at once only when nobody holds
it and nobody waits for it; otherwise it joins the queue. When the lock is free
the head of the queue may take it, and a waiter may give up and leave.

A lock *tracks* two properties of tasks when its holder is exactly the task with
the first and its queue lists exactly the tasks with the second. Each operation
on behalf of one task keeps the lock in step with properties that change at that
task only, so a program proves its lock discipline one operation at a time.
-/

import Mathlib.Data.List.Basic
import Mathlib.Data.List.Nodup
import Mathlib.Logic.Function.Basic

namespace RpcProject.Foundations

/-- A lock over tasks `τ`: its holder, if any, and the tasks waiting for it. -/
structure FairLock (τ : Type*) where
  holder : Option τ
  waiters : List τ
  deriving DecidableEq, Repr

namespace FairLock

variable {τ : Type*}

/-- The lock nobody holds or waits for. -/
def free : FairLock τ := ⟨none, []⟩

/-- Release the lock. Its queue stays, and its head may take the lock next. -/
def release (l : FairLock τ) : FairLock τ := { l with holder := none }

/-- Join the queue. -/
def enqueue (l : FairLock τ) (t : τ) : FairLock τ := { l with waiters := l.waiters ++ [t] }

/-- Take the lock without waiting, if it is free and nobody is queued for it. -/
def tryAcquire (l : FairLock τ) (t : τ) : Option (FairLock τ) :=
  if l.holder.isNone && l.waiters.isEmpty then some { l with holder := some t } else none

variable [DecidableEq τ]

/-- Hand the free lock to the head of its queue. -/
def grant (l : FairLock τ) (t : τ) : Option (FairLock τ) :=
  match l.holder, l.waiters with
  | none, u :: rest => if u = t then some ⟨some t, rest⟩ else none
  | _, _ => none

/-- Leave the queue without having taken the lock. -/
def withdraw (l : FairLock τ) (t : τ) : FairLock τ := { l with waiters := l.waiters.erase t }

/-- The lock is held exactly by the task with `holds` and queued for exactly by
the tasks with `waits`. -/
structure Tracks (l : FairLock τ) (holds waits : τ → Prop) : Prop where
  holder_iff : ∀ t, l.holder = some t ↔ holds t
  mem_waiters_iff : ∀ t, t ∈ l.waiters ↔ waits t
  nodup : l.waiters.Nodup

variable {l l' : FairLock τ} {holds waits holds' waits' : τ → Prop} {t u : τ}

omit [DecidableEq τ] in
/-- A lock is taken at once only when it is free and nobody waits. -/
theorem tryAcquire_eq_some (h : l.tryAcquire t = some l') :
    l.holder = none ∧ l.waiters = [] ∧ l' = ⟨some t, []⟩ := by
  obtain ⟨holder, waiters⟩ := l
  cases holder <;> cases waiters <;> simp_all [tryAcquire]

/-- A waiter gets it only when it is free and the turn is the waiter's. -/
theorem grant_eq_some (h : l.grant t = some l') :
    l.holder = none ∧ l.waiters = t :: l'.waiters ∧ l'.holder = some t := by
  obtain ⟨holder, waiters⟩ := l
  cases holder with
  | some _ => simp [grant] at h
  | none =>
    cases waiters with
    | nil => simp [grant] at h
    | cons head rest =>
      by_cases hhead : head = t
      · simp only [grant, if_pos hhead, Option.some.injEq] at h
        subst h
        simp [hhead]
      · simp [grant, hhead] at h

namespace Tracks

omit [DecidableEq τ] in
theorem free : (FairLock.free : FairLock τ).Tracks (fun _ => False) fun _ => False := by
  constructor <;> simp [FairLock.free]

omit [DecidableEq τ] in
/-- Only one task holds a lock. -/
theorem unique (h : l.Tracks holds waits) (ht : holds t) (hu : holds u) : t = u :=
  Option.some.inj (((h.holder_iff t).mpr ht).symm.trans ((h.holder_iff u).mpr hu))

omit [DecidableEq τ] in
/-- What is tracked can be written in another way. -/
theorem congr (h : l.Tracks holds waits) (hholds : ∀ u, holds' u ↔ holds u)
    (hwaits : ∀ u, waits' u ↔ waits u) : l.Tracks holds' waits' where
  holder_iff u := (h.holder_iff u).trans (hholds u).symm
  mem_waiters_iff u := (h.mem_waiters_iff u).trans (hwaits u).symm
  nodup := h.nodup

section Frame

/-! Each operation is for one task `t`; the properties of every other task stay. -/

variable (hholds : ∀ u, u ≠ t → (holds' u ↔ holds u)) (hwaits : ∀ u, u ≠ t → (waits' u ↔ waits u))
include hholds hwaits

omit [DecidableEq τ] in
theorem tryAcquire (h : l.Tracks holds waits) (hl : l.tryAcquire t = some l')
    (hholdsT : holds' t) (hwaitsT : ¬ waits' t) : l'.Tracks holds' waits' := by
  obtain ⟨hfree, hempty, rfl⟩ := tryAcquire_eq_some hl
  refine ⟨fun u => ?_, fun u => ?_, List.nodup_nil⟩
  · by_cases hu : u = t
    · subst hu
      simp [hholdsT]
    · rw [hholds u hu, ← h.holder_iff u, hfree]
      simp [Ne.symm hu]
  · by_cases hu : u = t
    · subst hu
      simp [hwaitsT]
    · rw [hwaits u hu, ← h.mem_waiters_iff u, hempty]

omit [DecidableEq τ] in
theorem enqueue (h : l.Tracks holds waits) (hnew : ¬ waits t)
    (hholdsT : holds' t ↔ holds t) (hwaitsT : waits' t) : (l.enqueue t).Tracks holds' waits' := by
  refine ⟨fun u => ?_, fun u => ?_, ?_⟩
  · by_cases hu : u = t
    · subst hu
      rw [hholdsT]
      exact h.holder_iff u
    · rw [hholds u hu]
      exact h.holder_iff u
  · by_cases hu : u = t
    · subst hu
      simp [FairLock.enqueue, hwaitsT]
    · rw [hwaits u hu, ← h.mem_waiters_iff u]
      simp [FairLock.enqueue, hu]
  -- the newcomer was not in the queue
  · rw [FairLock.enqueue, List.nodup_append]
    refine ⟨h.nodup, List.nodup_singleton t, fun a ha b hb => ?_⟩
    rw [List.mem_singleton] at hb
    rintro rfl
    exact hnew ((h.mem_waiters_iff t).mp (hb ▸ ha))

theorem grant (h : l.Tracks holds waits) (hl : l.grant t = some l')
    (hholdsT : holds' t) (hwaitsT : ¬ waits' t) : l'.Tracks holds' waits' := by
  obtain ⟨hfree, hqueue, hholder⟩ := grant_eq_some hl
  -- the head of the queue is in it once, so it waits no more
  have hnodup := h.nodup
  rw [hqueue, List.nodup_cons] at hnodup
  refine ⟨fun u => ?_, fun u => ?_, hnodup.2⟩
  · by_cases hu : u = t
    · subst hu
      simp [hholder, hholdsT]
    · rw [hholds u hu, ← h.holder_iff u, hfree, hholder]
      simp [Ne.symm hu]
  · by_cases hu : u = t
    · subst hu
      simp [hwaitsT, hnodup.1]
    · rw [hwaits u hu, ← h.mem_waiters_iff u, hqueue]
      simp [hu]

omit [DecidableEq τ] in
theorem release (h : l.Tracks holds waits) (hheld : holds t)
    (hholdsT : ¬ holds' t) (hwaitsT : waits' t ↔ waits t) : l.release.Tracks holds' waits' := by
  refine ⟨fun u => ?_, fun u => ?_, h.nodup⟩
  · by_cases hu : u = t
    · subst hu
      simp [FairLock.release, hholdsT]
    -- nobody else was the holder
    · have hother : ¬ holds u := fun hholdsU => hu (h.unique hholdsU hheld)
      simp [FairLock.release, hholds u hu, hother]
  · by_cases hu : u = t
    · subst hu
      rw [hwaitsT]
      exact h.mem_waiters_iff u
    · rw [hwaits u hu]
      exact h.mem_waiters_iff u

theorem withdraw (h : l.Tracks holds waits) (hholdsT : holds' t ↔ holds t)
    (hwaitsT : ¬ waits' t) : (l.withdraw t).Tracks holds' waits' := by
  refine ⟨fun u => ?_, fun u => ?_, h.nodup.erase t⟩
  · by_cases hu : u = t
    · subst hu
      rw [hholdsT]
      exact h.holder_iff u
    · rw [hholds u hu]
      exact h.holder_iff u
  · by_cases hu : u = t
    · subst hu
      simp [FairLock.withdraw, hwaitsT, h.nodup.mem_erase_iff]
    · rw [hwaits u hu, ← h.mem_waiters_iff u, FairLock.withdraw, h.nodup.mem_erase_iff]
      simp [hu]

end Frame

end Tracks

/-! ## Locks and phases

Tasks that run a program are in phases of it, and the phase of a task says
whether it holds a lock or waits for it. A step moves one task to a new phase. -/

section Follows

variable {α : Type*} {holding waiting : α → Prop} {phase : τ → α} {a : α}

/-- The lock is held and queued for by the tasks in the phases that say so. -/
def Follows (l : FairLock τ) (holding waiting : α → Prop) (phase : τ → α) : Prop :=
  l.Tracks (fun t => holding (phase t)) fun t => waiting (phase t)

private theorem update_iff_of_ne {P : α → Prop} (hu : u ≠ t) :
    P (Function.update phase t a u) ↔ P (phase u) := by
  rw [Function.update_of_ne hu]

/-- A task that goes on as it was changes nothing. -/
theorem Follows.keep (h : l.Follows holding waiting phase)
    (hholds : holding a ↔ holding (phase t)) (hwaits : waiting a ↔ waiting (phase t)) :
    l.Follows holding waiting (Function.update phase t a) := by
  refine Tracks.congr h (fun u => ?_) fun u => ?_
  · by_cases hu : u = t
    · subst hu
      rw [Function.update_self, hholds]
    · exact update_iff_of_ne hu
  · by_cases hu : u = t
    · subst hu
      rw [Function.update_self, hwaits]
    · exact update_iff_of_ne hu

/-- A task that takes the lock holds it. -/
theorem Follows.tryAcquire (h : l.Follows holding waiting phase) (hl : l.tryAcquire t = some l')
    (hholds : holding a) (hwaits : ¬ waiting a) :
    l'.Follows holding waiting (Function.update phase t a) := by
  apply Tracks.tryAcquire (fun u hu => update_iff_of_ne hu) (fun u hu => update_iff_of_ne hu) h hl
  · rwa [Function.update_self]
  · rwa [Function.update_self]

theorem Follows.enqueue (h : l.Follows holding waiting phase) (hnone : ¬ holding (phase t))
    (hnew : ¬ waiting (phase t)) (hholds : ¬ holding a) (hwaits : waiting a) :
    (l.enqueue t).Follows holding waiting (Function.update phase t a) := by
  apply Tracks.enqueue (fun u hu => update_iff_of_ne hu) (fun u hu => update_iff_of_ne hu) h hnew
  · rw [Function.update_self]
    exact iff_of_false hholds hnone
  · rwa [Function.update_self]

/-- A waiter that gets the lock holds it. -/
theorem Follows.grant (h : l.Follows holding waiting phase) (hl : l.grant t = some l')
    (hholds : holding a) (hwaits : ¬ waiting a) :
    l'.Follows holding waiting (Function.update phase t a) := by
  apply Tracks.grant (fun u hu => update_iff_of_ne hu) (fun u hu => update_iff_of_ne hu) h hl
  · rwa [Function.update_self]
  · rwa [Function.update_self]

/-- A holder that lets go holds it no more. -/
theorem Follows.release (h : l.Follows holding waiting phase) (hheld : holding (phase t))
    (hnone : ¬ waiting (phase t)) (hholds : ¬ holding a) (hwaits : ¬ waiting a) :
    l.release.Follows holding waiting (Function.update phase t a) := by
  apply Tracks.release (fun u hu => update_iff_of_ne hu) (fun u hu => update_iff_of_ne hu) h hheld
  · rwa [Function.update_self]
  · rw [Function.update_self]
    exact iff_of_false hwaits hnone

/-- A waiter that gives up waits no more. -/
theorem Follows.withdraw (h : l.Follows holding waiting phase) (hnone : ¬ holding (phase t))
    (hholds : ¬ holding a) (hwaits : ¬ waiting a) :
    (l.withdraw t).Follows holding waiting (Function.update phase t a) := by
  apply Tracks.withdraw (fun u hu => update_iff_of_ne hu) (fun u hu => update_iff_of_ne hu) h
  · rw [Function.update_self]
    exact iff_of_false hholds hnone
  · rwa [Function.update_self]

omit [DecidableEq τ] in
/-- A lock that somebody holds is not taken without waiting. -/
theorem Follows.tryAcquire_eq_none (h : l.Follows holding waiting phase)
    (hheld : holding (phase u)) :
    l.tryAcquire t = none := by
  rw [FairLock.tryAcquire, (h.holder_iff u).mpr hheld]
  rfl

/-- A lock that somebody holds is not granted. -/
theorem Follows.grant_eq_none (h : l.Follows holding waiting phase) (hheld : holding (phase u)) :
    l.grant t = none := by
  rw [FairLock.grant, (h.holder_iff u).mpr hheld]

end Follows

end FairLock

end RpcProject.Foundations
