/-
# Machines and what holds along their runs

A machine is a set of starting states and a partial step function: an action
either leads to one next state or cannot happen. Its runs are the finite lists
of actions that can happen one after the other.

Two ways of speaking about every run are packaged here. A property is an
*invariant* under a discipline when it holds at the start and every disciplined
step preserves it; it then holds wherever disciplined runs lead. One machine
*simulates* another when each of its disciplined steps is matched by at most one
step of the other, and the related state then exists all along the run.
-/

import Mathlib.Data.List.Induction
import Mathlib.Data.Option.Basic

namespace RpcProject.Foundations

/-- A machine with states `σ` and actions `α`. `step s a = none` says that the
action cannot happen in `s`. -/
structure Machine (σ α : Type*) where
  start : σ → Prop
  step : σ → α → Option σ

namespace Machine

variable {σ τ α β : Type*}

/-- Perform a list of actions, stopping at the first that cannot happen. -/
def run (M : Machine σ α) (s : σ) : List α → Option σ
  | [] => some s
  | a :: rest =>
      match M.step s a with
      | none => none
      | some t => M.run t rest

/-- The states reached from a start by steps that all meet the discipline `ok`. -/
inductive Reaches (M : Machine σ α) (ok : σ → α → Prop) : σ → Prop
  | start {s : σ} (hs : M.start s) : Reaches M ok s
  | step {s t : σ} {a : α} (hs : Reaches M ok s) (ha : ok s a) (ht : M.step s a = some t) :
      Reaches M ok t

/-- The states reached by any steps at all. -/
def Reachable (M : Machine σ α) : σ → Prop := M.Reaches fun _ _ => True

variable {M : Machine σ α} {ok ok' : σ → α → Prop} {s t : σ}

@[simp] theorem run_nil : M.run s [] = some s := rfl

theorem run_cons (a : α) (rest : List α) :
    M.run s (a :: rest) = (M.step s a).bind fun t => M.run t rest := by
  cases h : M.step s a <;> simp [run, h]

theorem run_append (acts acts' : List α) :
    M.run s (acts ++ acts') = (M.run s acts).bind fun t => M.run t acts' := by
  induction acts generalizing s with
  | nil => rfl
  | cons a rest ih =>
    rw [List.cons_append, run_cons, run_cons, Option.bind_assoc]
    congr 1
    funext t
    exact ih

/-- **Trace rule.** What relates the empty trace to a state, and is kept when a
trace is extended by a step, relates every trace to the state it leads to. -/
theorem run_invariant {P : List α → σ → Prop} (hnil : P [] s)
    (hsnoc : ∀ acts t a u, P acts t → M.step t a = some u → P (acts ++ [a]) u)
    {acts : List α} (h : M.run s acts = some t) : P acts t := by
  -- from the end of the trace, as `P` speaks of what has happened so far
  induction acts using List.reverseRecOn generalizing t with
  | nil => exact Option.some.inj h ▸ hnil
  | append_singleton acts a ih =>
    rw [run_append] at h
    obtain ⟨u, hu, hlast⟩ := Option.bind_eq_some_iff.mp h
    rw [run_cons] at hlast
    obtain ⟨v, hv, hend⟩ := Option.bind_eq_some_iff.mp hlast
    exact Option.some.inj hend ▸ hsnoc acts u a v (ih hu) hv

/-- A stricter discipline reaches fewer states. -/
theorem Reaches.mono (hok : ∀ s a, ok s a → ok' s a) (h : M.Reaches ok s) :
    M.Reaches ok' s := by
  induction h with
  | start hs => exact .start hs
  | step _ ha ht ih => exact .step ih (hok _ _ ha) ht

/-- What is reached under a condition is reachable. -/
theorem Reaches.reachable (h : M.Reaches ok s) : M.Reachable s :=
  h.mono fun _ _ _ => trivial

/-- **Invariant rule.** What the starts satisfy and disciplined steps preserve
holds in every state that a disciplined run reaches. -/
theorem Reaches.invariant {P : σ → Prop} (hstart : ∀ s, M.start s → P s)
    (hstep : ∀ s a t, P s → ok s a → M.step s a = some t → P t) (h : M.Reaches ok s) : P s := by
  induction h with
  | start hs => exact hstart _ hs
  | step _ ha ht ih => exact hstep _ _ _ ih ha ht

/-- The invariant rule on top of a property already known of disciplined runs. -/
theorem Reaches.invariant_of {P Q : σ → Prop} (hP : ∀ s, M.Reaches ok s → P s)
    (hstart : ∀ s, M.start s → Q s)
    (hstep : ∀ s a t, P s → Q s → ok s a → M.step s a = some t → Q t)
    (h : M.Reaches ok s) : Q s := by
  induction h with
  | start hs => exact hstart _ hs
  | step hs ha ht ih => exact hstep _ _ _ (hP _ hs) ih ha ht

/-- **Discipline rule.** A run meets a second discipline when a property that its
steps keep makes each of them meet it. -/
theorem Reaches.disciplined {Q : σ → Prop} (hstart : ∀ s, M.start s → Q s)
    (hstep : ∀ s a t, M.Reaches ok' s → Q s → ok s a → M.step s a = some t → ok' s a ∧ Q t)
    (h : M.Reaches ok s) : M.Reaches ok' s ∧ Q s := by
  induction h with
  | start hs => exact ⟨.start hs, hstart _ hs⟩
  | step _ ha ht ih =>
    obtain ⟨hok, hQ⟩ := hstep _ _ _ ih.1 ih.2 ha ht
    exact ⟨.step ih.1 hok ht, hQ⟩

/-- A run from a reachable state leads to a reachable state. -/
theorem Reachable.run (hs : M.Reachable s) {acts : List α} (h : M.run s acts = some t) :
    M.Reachable t := by
  induction acts generalizing s with
  | nil => exact Option.some.inj h ▸ hs
  | cons a rest ih =>
    rw [run_cons] at h
    obtain ⟨u, hu, hrest⟩ := Option.bind_eq_some_iff.mp h
    exact ih (.step hs trivial hu) hrest

/-- Every run ends in a reachable state. -/
theorem reachable_of_run (hs : M.start s) {acts : List α} (h : M.run s acts = some t) :
    M.Reachable t :=
  Reachable.run (.start hs) h

/-- Whether every action of a list can happen where it stands and passes a test there. -/
def passes (M : Machine σ α) (test : σ → α → Bool) (s : σ) : List α → Bool
  | [] => true
  | a :: rest =>
      test s a &&
        match M.step s a with
        | none => false
        | some t => M.passes test t rest

/-- A run that passes a test for the discipline is disciplined. -/
theorem Reaches.of_passes {test : σ → α → Bool} (htest : ∀ s a, test s a = true → ok s a)
    (hs : M.Reaches ok s) {acts : List α} (hpasses : M.passes test s acts = true)
    (h : M.run s acts = some t) : M.Reaches ok t := by
  induction acts generalizing s with
  | nil => exact Option.some.inj h ▸ hs
  | cons a rest ih =>
    rw [run_cons] at h
    obtain ⟨u, hu, hrest⟩ := Option.bind_eq_some_iff.mp h
    -- the test of the first action, and of the others in the state it leads to
    rw [passes, hu, Bool.and_eq_true] at hpasses
    exact ih (.step hs (htest s a hpasses.1) hu) hpasses.2 hrest

/-- A run whose first step is disciplined and whose other steps pass a test. -/
theorem Reaches.of_step_passes {test : σ → α → Bool} (htest : ∀ s a, test s a = true → ok s a)
    (hs : M.Reaches ok s) {a : α} {acts : List α} (ha : ok s a)
    (hpasses : (M.step s a).map (fun u => M.passes test u acts) = some true)
    (h : M.run s (a :: acts) = some t) : M.Reaches ok t := by
  rw [run_cons] at h
  obtain ⟨u, hu, hrest⟩ := Option.bind_eq_some_iff.mp h
  rw [hu] at hpasses
  exact (Reaches.step hs ha hu).of_passes htest (Option.some.inj hpasses) hrest

/-- **Simulation rule.** If every start of `M` has a related start of `N`, and
every disciplined step of `M` is matched by no step or by one step of `N`, then
every state that a disciplined run of `M` reaches is related to a reachable
state of `N`. -/
theorem Reaches.simulates {N : Machine τ β} {R : σ → τ → Prop}
    (hstart : ∀ s, M.start s → ∃ u, N.start u ∧ R s u)
    (hstep : ∀ s a t u, M.Reaches ok s → R s u → ok s a → M.step s a = some t →
      R t u ∨ ∃ b v, N.step u b = some v ∧ R t v)
    (h : M.Reaches ok s) : ∃ u, N.Reachable u ∧ R s u := by
  induction h with
  | start hs =>
    obtain ⟨u, hu, hR⟩ := hstart _ hs
    exact ⟨u, .start hu, hR⟩
  | step hs ha ht ih =>
    obtain ⟨u, hu, hR⟩ := ih
    -- no step of `N`, or one
    rcases hstep _ _ _ u hs hR ha ht with hR' | ⟨b, v, hv, hR'⟩
    · exact ⟨u, hu, hR'⟩
    · exact ⟨v, .step hu trivial hv, hR'⟩

/-- **Matching rule.** When every step of `M` is matched, through a reading of its
states, by no step or by one step of `N`, every run of `M` is matched by a run of `N`. -/
theorem run_matched {N : Machine τ β} (read : σ → τ)
    (hstep : ∀ s a t, M.step s a = some t →
      read t = read s ∨ ∃ b, N.step (read s) b = some (read t))
    {acts : List α} (h : M.run s acts = some t) :
    ∃ acts', N.run (read s) acts' = some (read t) := by
  refine run_invariant (P := fun _ t => ∃ acts', N.run (read s) acts' = some (read t))
    ⟨[], rfl⟩ ?_ h
  intro acts t a u ⟨acts', hrun⟩ ha
  rcases hstep t a u ha with hread | ⟨b, hb⟩
  · exact ⟨acts', hread ▸ hrun⟩
  · exact ⟨acts' ++ [b], by rw [run_append, hrun, Option.bind_some, run_cons, hb]; rfl⟩

end Machine

end RpcProject.Foundations
