/-
# Cells that calls fill

A cell for each key remembers a value. A call for a key whose cell is filled returns what
is in it. A call that finds the cell empty computes a value, which takes a while, puts it
in the cell and returns it. It does not look at the cell again first: two calls that both
find the cell empty both compute, and the second of them to end replaces the value of the
first.

A cell is *fixed* at a value when it holds it and no call for its key is computing. It
then stays so, and every later call returns the value.
-/

import RpcProject.Foundations.Machine

namespace RpcProject.Foundations

/-- What has become of a call. -/
inductive Computation (K V : Type*)
  | computing (k : K)
  | returned (k : K) (v : V)
  | raised (k : K)

/-- The cells, and every call so far. -/
structure Memo (K V : Type*) where
  cell : K → Option V
  calls : List (Computation K V)

/-- What the calls do. -/
inductive MemoAction (K V : Type*)
  | ask (k : K)
  | fill (i : ℕ) (v : V)
  | fail (i : ℕ)

namespace Memo

variable {K V : Type*} [DecidableEq K]

/-- What each action does. A call that finds a result returns it at once. -/
def step (s : Memo K V) : MemoAction K V → Option (Memo K V)
  | .ask k =>
      match s.cell k with
      | some v => some { s with calls := s.calls ++ [.returned k v] }
      | none => some { s with calls := s.calls ++ [.computing k] }
  | .fill i v =>
      match s.calls[i]? with
      | some (.computing k) =>
          some { cell := Function.update s.cell k (some v), calls := s.calls.set i (.returned k v) }
      | _ => none
  | .fail i =>
      match s.calls[i]? with
      | some (.computing k) => some { s with calls := s.calls.set i (.raised k) }
      | _ => none

/-- Cells and the calls for them, from empty cells on. -/
def machine : Machine (Memo K V) (MemoAction K V) where
  start s := s = ⟨fun _ => none, []⟩
  step := step

variable {s t : Memo K V} {a : MemoAction K V} {k : K} {v : V}

/-- No call for the key is computing. -/
def Idle (s : Memo K V) (k : K) : Prop := ∀ i : ℕ, s.calls[i]? ≠ some (.computing k)

/-- What a step can do: a call returns what its cell holds, a call starts to compute, a
computing call fills its cell, a computing call fails. -/
theorem step_cases (h : s.step a = some t) :
    (∃ k v, s.cell k = some v ∧ t = { s with calls := s.calls ++ [.returned k v] }) ∨
    (∃ k, s.cell k = none ∧ t = { s with calls := s.calls ++ [.computing k] }) ∨
    (∃ i k v, s.calls[i]? = some (.computing k) ∧
      t = { cell := Function.update s.cell k (some v), calls := s.calls.set i (.returned k v) }) ∨
    ∃ i k, s.calls[i]? = some (.computing k) ∧
      t = { s with calls := s.calls.set i (.raised k) } := by
  cases a with
  | ask k =>
    simp only [step] at h
    cases hcell : s.cell k with
    | some v => exact Or.inl ⟨k, v, hcell, by simpa [hcell] using h.symm⟩
    | none => exact Or.inr (Or.inl ⟨k, hcell, by simpa [hcell] using h.symm⟩)
  | fill i v =>
    simp only [step] at h
    split at h
    · next k hi => exact Or.inr (Or.inr (Or.inl ⟨i, k, v, hi, by simpa using h.symm⟩))
    · exact absurd h (by simp)
  | fail i =>
    simp only [step] at h
    split at h
    · next k hi => exact Or.inr (Or.inr (Or.inr ⟨i, k, hi, by simpa using h.symm⟩))
    · exact absurd h (by simp)

/-- The cell holds the value and nobody is about to replace it. -/
structure Fixed (s : Memo K V) (k : K) (v : V) : Prop where
  cell : s.cell k = some v
  idle : s.Idle k

/-- Where a list extended by one element has a certain element. -/
theorem getElem?_append_singleton {α : Type*} {l : List α} {a b : α} {i : ℕ}
    (h : (l ++ [a])[i]? = some b) : l[i]? = some b ∨ b = a := by
  rcases Nat.lt_or_ge i l.length with hi | hi
  · exact Or.inl (by rwa [List.getElem?_append_left hi] at h)
  · rw [List.getElem?_append_right hi] at h
    exact Or.inr (List.mem_singleton.mp (List.mem_of_getElem? h))

/-- Where a list with one element replaced has a certain element. -/
theorem getElem?_set_cases {α : Type*} {l : List α} {a b : α} {i j : ℕ}
    (h : (l.set i a)[j]? = some b) : l[j]? = some b ∨ (i = j ∧ b = a) := by
  rcases eq_or_ne i j with rfl | hij
  · rw [List.getElem?_set_self'] at h
    obtain ⟨-, -, rfl⟩ := Option.map_eq_some_iff.mp h
    exact Or.inr ⟨rfl, rfl⟩
  · exact Or.inl (by rwa [List.getElem?_set_ne hij] at h)

/-- A step leaves a fixed cell fixed, and what it returns for the key is the value. -/
theorem Fixed.step (hs : s.Fixed k v) (h : s.step a = some t) :
    t.Fixed k v ∧ ∀ (i : ℕ) w, t.calls[i]? = some (.returned k w) →
      s.calls[i]? = some (.returned k w) ∨ w = v := by
  rcases step_cases h with ⟨k', v', hcell, rfl⟩ | ⟨k', hcell, rfl⟩ | ⟨i, k', v', hi, rfl⟩ |
    ⟨i, k', hi, rfl⟩
  · refine ⟨⟨hs.cell, fun j hj => ?_⟩, fun j w hj => ?_⟩
    · rcases getElem?_append_singleton hj with hj | hj
      · exact hs.idle j hj
      · cases hj
    · refine (getElem?_append_singleton hj).imp_right fun heq => ?_
      cases heq
      exact Option.some.inj (hcell.symm.trans hs.cell)
  · -- the key of a call that starts to compute is another one, as the cell is filled
    have hne : k' ≠ k := fun heq => by rw [heq, hs.cell] at hcell; cases hcell
    refine ⟨⟨hs.cell, fun j hj => ?_⟩, fun j w hj => ?_⟩
    · rcases getElem?_append_singleton hj with hj | hj
      · exact hs.idle j hj
      · exact hne (Computation.computing.inj hj).symm
    · exact (getElem?_append_singleton hj).imp_right fun heq => by cases heq
  · have hne : k ≠ k' := fun heq => hs.idle i (heq ▸ hi)
    refine ⟨⟨?_, fun j hj => ?_⟩, fun j w hj => ?_⟩
    · exact (Function.update_of_ne hne ..).trans hs.cell
    · rcases getElem?_set_cases hj with hj | ⟨-, hj⟩
      · exact hs.idle j hj
      · cases hj
    · refine (getElem?_set_cases hj).imp_right fun ⟨_, heq⟩ => ?_
      cases heq
      exact absurd rfl hne
  · refine ⟨⟨hs.cell, fun j hj => ?_⟩, fun j w hj => ?_⟩
    · rcases getElem?_set_cases hj with hj | ⟨-, hj⟩
      · exact hs.idle j hj
      · cases hj
    · exact (getElem?_set_cases hj).imp_right fun ⟨_, heq⟩ => by cases heq

/-- **Fixed cells.** From a state where the cell is fixed, every call for the key that
returns returns the value. -/
theorem Fixed.run (hs : s.Fixed k v) {acts : List (MemoAction K V)}
    (h : machine.run s acts = some t) {i : ℕ} {w : V} (hi : t.calls[i]? = some (.returned k w)) :
    s.calls[i]? = some (.returned k w) ∨ w = v := by
  have hrun : t.Fixed k v ∧ ∀ (i : ℕ) w, t.calls[i]? = some (.returned k w) →
      s.calls[i]? = some (.returned k w) ∨ w = v := by
    refine Machine.run_invariant (P := fun _ t => t.Fixed k v ∧ ∀ (i : ℕ) w,
      t.calls[i]? = some (.returned k w) → s.calls[i]? = some (.returned k w) ∨ w = v)
      ⟨hs, fun _ _ => Or.inl⟩ ?_ h
    intro acts t a u ⟨hfixed, hreturned⟩ ha
    obtain ⟨hfixed', hnew⟩ := hfixed.step ha
    exact ⟨hfixed', fun j w hj => (hnew j w hj).elim (hreturned j w) Or.inr⟩
  exact hrun.2 i w hi

end Memo

end RpcProject.Foundations
