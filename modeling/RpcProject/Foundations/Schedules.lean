/-
# Programs driven by a schedule

A program that calls into its surroundings does not choose what comes back. Its
run is determined by a schedule, the list of results that the calls get, and it
either finishes with a value or is still waiting when the schedule ends.

A program completes within a budget when every schedule of acceptable results
that makes progress often enough lets it finish in a wanted state, and it uses
up no more progress than the budget. Budgets add up along a sequence of
programs, and an endless schedule on which progress never stops meets every
budget.
-/

import Mathlib.Data.List.Basic
import Mathlib.Data.List.Range

namespace RpcProject.Foundations

/-- Where a program is at the end of its run: its value if it has finished, the
state, and the results it has not asked for. -/
structure Outcome (ρ σ α : Type*) where
  value : Option α
  state : σ
  rest : List ρ
  deriving DecidableEq, Repr

/-- A program over states `σ` whose calls get results `ρ`. -/
def Driven (ρ σ α : Type*) := List ρ → σ → Outcome ρ σ α

namespace Driven

universe u

variable {ρ σ : Type*} {α β : Type u}

/-- Finish with a value without a call. -/
protected def pure (a : α) : Driven ρ σ α := fun schedule s => ⟨some a, s, schedule⟩

/-- Run one program and go on with another once it has finished. -/
protected def bind (prog : Driven ρ σ α) (next : α → Driven ρ σ β) : Driven ρ σ β :=
  fun schedule s =>
    match prog schedule s with
    | ⟨some a, s', rest⟩ => next a rest s'
    | ⟨none, s', rest⟩ => ⟨none, s', rest⟩

/-- The state the program is in. -/
def get : Driven ρ σ σ := fun schedule s => ⟨some s, s, schedule⟩

/-- The state is changed. -/
def modify (f : σ → σ) : Driven ρ σ Unit := fun schedule s => ⟨some (), f s, schedule⟩

instance : Monad (Driven ρ σ) where
  pure := Driven.pure
  bind := Driven.bind

/-- A sequence of programs that has finished, taken apart. -/
theorem bind_eq_some {prog : Driven ρ σ α} {next : α → Driven ρ σ β} {schedule rest : List ρ}
    {s s' : σ} {b : β} (h : (prog >>= next) schedule s = ⟨some b, s', rest⟩) :
    ∃ a t between, prog schedule s = ⟨some a, t, between⟩ ∧
      next a between t = ⟨some b, s', rest⟩ := by
  change (match prog schedule s with
    | ⟨some a, s', rest⟩ => next a rest s'
    | ⟨none, s', rest⟩ => ⟨none, s', rest⟩) = _ at h
  match hprog : prog schedule s with
  | ⟨some a, t, between⟩ =>
    rw [hprog] at h
    exact ⟨a, t, between, rfl, h⟩
  | ⟨none, t, between⟩ =>
    rw [hprog] at h
    simp at h

/-- Run a program a number of times, collecting the values. -/
def times (prog : Driven ρ σ α) : ℕ → Driven ρ σ (List α)
  | 0 => pure []
  | n + 1 => do
      let a ← prog
      let rest ← times prog n
      return a :: rest

/-! ## Completion within a budget -/

/-- How often a schedule makes progress. -/
def progress (moves : ρ → Bool) (schedule : List ρ) : ℕ := schedule.countP moves

theorem progress_cons (moves : ρ → Bool) (r : ρ) (schedule : List ρ) :
    progress moves (r :: schedule) = progress moves schedule + if moves r then 1 else 0 :=
  List.countP_cons

/-- From state `s`, every schedule of acceptable results with at least `budget`
progress lets the program finish in `Q`, and uses up at most that much. -/
def Completes (ok : ρ → Prop) (moves : ρ → Bool) (budget : ℕ) (prog : Driven ρ σ α) (s : σ)
    (Q : α → σ → Prop) : Prop :=
  ∀ schedule, (∀ r ∈ schedule, ok r) → budget ≤ progress moves schedule →
    ∃ a s' rest, prog schedule s = ⟨some a, s', rest⟩ ∧ Q a s' ∧ (∀ r ∈ rest, ok r) ∧
      progress moves schedule ≤ progress moves rest + budget

variable {ok : ρ → Prop} {moves : ρ → Bool} {m n : ℕ} {prog : Driven ρ σ α} {s : σ}
  {Q Q' : α → σ → Prop} {R : β → σ → Prop}

/-- A program that does nothing completes. -/
theorem completes_pure {a : α} (hQ : Q a s) : Completes ok moves 0 (pure a) s Q :=
  fun schedule hok _ => ⟨a, s, schedule, rfl, hQ, hok, Nat.le_refl _⟩

theorem Completes.imp (h : Completes ok moves m prog s Q) (hQ : ∀ a s', Q a s' → Q' a s') :
    Completes ok moves m prog s Q' := by
  intro schedule hok hbudget
  obtain ⟨a, s', rest, hrun, hpost, hrest, hused⟩ := h schedule hok hbudget
  exact ⟨a, s', rest, hrun, hQ a s' hpost, hrest, hused⟩

/-- **Sequencing.** The budgets of two programs add up. -/
theorem Completes.bind {next : α → Driven ρ σ β} (h : Completes ok moves m prog s Q)
    (hnext : ∀ a s', Q a s' → Completes ok moves n (next a) s' R) :
    Completes ok moves (m + n) (prog >>= next) s R := by
  intro schedule hok hbudget
  obtain ⟨a, s', rest, hrun, hpost, hrest, hused⟩ := h schedule hok (by omega)
  -- what the first program left over pays for the second
  obtain ⟨b, s'', rest', hrun', hpost', hrest', hused'⟩ := hnext a s' hpost rest hrest (by omega)
  refine ⟨b, s'', rest', ?_, hpost', hrest', by omega⟩
  change (match prog schedule s with
    | ⟨some a, s', rest⟩ => next a rest s'
    | ⟨none, s', rest⟩ => ⟨none, s', rest⟩) = _
  rw [hrun]
  exact hrun'

/-! ## Endless schedules -/

/-- An endless schedule that never stops making progress makes any amount of it. -/
theorem exists_progress {results : ℕ → ρ} (hforever : ∀ n, ∃ m, n ≤ m ∧ moves (results m) = true)
    (budget : ℕ) : ∃ N, budget ≤ progress moves ((List.range N).map results) := by
  induction budget with
  | zero => exact ⟨0, Nat.zero_le _⟩
  | succ budget ih =>
    obtain ⟨N, hN⟩ := ih
    obtain ⟨m, hm, hmoves⟩ := hforever N
    refine ⟨m + 1, ?_⟩
    -- the schedule is followed up to the next progress after `N`
    have hprefix : ((List.range N).map results).Sublist ((List.range m).map results) :=
      (List.range_sublist.mpr hm).map results
    have hcount : progress moves ((List.range N).map results) ≤
        progress moves ((List.range m).map results) := hprefix.countP_le
    rw [List.range_succ, List.map_append, progress, List.countP_append]
    simp only [List.map_cons, List.map_nil, List.countP_singleton, hmoves, if_true]
    exact Nat.succ_le_succ (le_trans hN hcount)

/-- **Eventual completion.** Along an endless schedule of acceptable results on
which progress never stops, a program that completes within some budget finishes. -/
theorem Completes.eventually (h : Completes ok moves m prog s Q) {results : ℕ → ρ}
    (hok : ∀ n, ok (results n)) (hforever : ∀ n, ∃ m, n ≤ m ∧ moves (results m) = true) :
    ∃ N a s' rest, prog ((List.range N).map results) s = ⟨some a, s', rest⟩ ∧ Q a s' := by
  -- a front part of the schedule has as much progress as the budget asks for
  obtain ⟨N, hN⟩ := exists_progress hforever m
  have hall : ∀ r ∈ (List.range N).map results, ok r := by
    intro r hr
    obtain ⟨i, _, rfl⟩ := List.mem_map.mp hr
    exact hok i
  obtain ⟨a, s', rest, hrun, hpost, _⟩ := h _ hall hN
  exact ⟨N, a, s', rest, hrun, hpost⟩

end Driven

end RpcProject.Foundations
