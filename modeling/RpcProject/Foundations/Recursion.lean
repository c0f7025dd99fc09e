/-
# Recursion with a bound on its depth

A recursive routine is modelled as a family of programs, one for each bound on
the depth of the recursion. The routine ends from a state when from some bound on
the bound makes no difference there: the run is then the run without a bound,
whether it returns or raises.

A program ends if its parts end in the states in which they are started, and so
does a loop. A routine ends if its body does, given that each call that the body
makes ends.
-/

import Mathlib.Data.List.Induction
import RpcProject.Foundations.Effects

namespace RpcProject.Foundations

namespace Effect

variable {σ ε α β : Type} {m : ℕ → Effect σ ε α} {f : ℕ → α → Effect σ ε β}
  {body : ℕ → α → Effect σ ε Unit} {s t : σ} {a : α}

/-- From some bound on, the bound makes no difference. -/
def Ends (m : ℕ → Effect σ ε α) (s : σ) : Prop :=
  ∃ enough, ∀ fuel, enough ≤ fuel → m fuel s = m enough s

theorem ends_const (p : Effect σ ε α) (s : σ) : Ends (fun _ => p) s := ⟨0, fun _ _ => rfl⟩

/-- A routine that ends does so with each larger bound, and with one that all share. -/
theorem Ends.exists_from (h : Ends m s) : ∃ enough, ∀ fuel fuel', enough ≤ fuel → enough ≤ fuel' →
    m fuel s = m fuel' s := by
  obtain ⟨enough, hsame⟩ := h
  exact ⟨enough, fun fuel fuel' hle hle' => (hsame fuel hle).trans (hsame fuel' hle').symm⟩

/-- A program that no fuel changes any more has ended. -/
theorem ends_of_from (enough : ℕ)
    (h : ∀ fuel fuel', enough ≤ fuel → enough ≤ fuel' → m fuel s = m fuel' s) : Ends m s :=
  ⟨enough, fun fuel hle => h fuel enough hle (Nat.le_refl enough)⟩

/-- One call deeper. -/
theorem Ends.succ (h : Ends (fun fuel => m (fuel + 1)) s) : Ends m s := by
  obtain ⟨enough, hsame⟩ := h.exists_from
  apply ends_of_from (enough + 1)
  intro fuel fuel' hle hle'
  obtain ⟨k, rfl⟩ := Nat.exists_eq_add_of_le' hle
  obtain ⟨k', rfl⟩ := Nat.exists_eq_add_of_le' hle'
  exact hsame (k + enough) (k' + enough) (Nat.le_add_left _ _) (Nat.le_add_left _ _)

/-- A program ends if its first part does, and the second one wherever the first returns. -/
theorem Ends.bind (hm : Ends m s)
    (hf : ∀ fuel a t, m fuel s = (.ok a, t) → Ends (fun fuel => f fuel a) t) :
    Ends (fun fuel => m fuel >>= f fuel) s := by
  obtain ⟨enough, hsame⟩ := hm.exists_from
  rcases hrun : m enough s with ⟨e | a, t⟩
  · apply ends_of_from enough
    intro fuel fuel' hle hle'
    rw [bind_of_error ((hsame fuel enough hle (Nat.le_refl _)).trans hrun),
      bind_of_error ((hsame fuel' enough hle' (Nat.le_refl _)).trans hrun)]
  · obtain ⟨enough', hsame'⟩ := (hf enough a t hrun).exists_from
    apply ends_of_from (max enough enough')
    intro fuel fuel' hle hle'
    obtain ⟨hfirst, hsecond⟩ := Nat.max_le.mp hle
    obtain ⟨hfirst', hsecond'⟩ := Nat.max_le.mp hle'
    rw [bind_of_ok ((hsame fuel enough hfirst (Nat.le_refl _)).trans hrun),
      bind_of_ok ((hsame fuel' enough hfirst' (Nat.le_refl _)).trans hrun),
      hsame' fuel fuel' hsecond hsecond']

/-- What comes first does not depend on the bound. -/
theorem Ends.bind_const {p : Effect σ ε α}
    (hf : ∀ a t, p s = (.ok a, t) → Ends (fun fuel => f fuel a) t) :
    Ends (fun fuel => p >>= f fuel) s :=
  (ends_const p s).bind fun _ => hf

/-- A loop ends if each round does, where the rounds before it lead. -/
theorem Ends.forEach {list : List α}
    (hbody : ∀ before a after fuel t, list = before ++ a :: after →
      Effect.forEach (body fuel) before s = (.ok (), t) → Ends (fun fuel => body fuel a) t) :
    Ends (fun fuel => Effect.forEach (body fuel) list) s := by
  induction list using List.reverseRecOn with
  | nil => exact ends_const _ s
  | append_singleton before a ih =>
    have hbefore : Ends (fun fuel => Effect.forEach (body fuel) before) s := by
      refine ih fun first b after fuel t hlist => hbody first b (after ++ [a]) fuel t ?_
      rw [hlist, List.append_assoc, List.cons_append]
    simp only [forEach_append]
    refine hbefore.bind fun fuel _ t hrun => Ends.bind ?_ fun _ _ u _ => ends_const _ u
    exact hbody before a [] fuel t rfl hrun

/-! ## The result without a bound -/

/-- From some bound on, the run has this result. -/
def Settles (m : ℕ → Effect σ ε α) (s : σ) (result : Except ε α × σ) : Prop :=
  ∃ enough, ∀ fuel, enough ≤ fuel → m fuel s = result

variable {result result' : Except ε α × σ}

theorem settles_const (p : Effect σ ε α) (s : σ) : Settles (fun _ => p) s (p s) :=
  ⟨0, fun _ _ => rfl⟩

theorem Settles.ends (h : Settles m s result) : Ends m s := by
  obtain ⟨enough, hresult⟩ := h
  exact ⟨enough, fun fuel hle => (hresult fuel hle).trans (hresult enough (Nat.le_refl _)).symm⟩

/-- There is at most one result to settle with. -/
theorem Settles.unique (h : Settles m s result) (h' : Settles m s result') : result = result' := by
  obtain ⟨enough, hresult⟩ := h
  obtain ⟨enough', hresult'⟩ := h'
  exact (hresult _ (Nat.le_max_left enough enough')).symm.trans
    (hresult' _ (Nat.le_max_right enough enough'))

/-- One round more makes no difference. -/
theorem Settles.succ (h : Settles (fun fuel => m (fuel + 1)) s result) : Settles m s result := by
  obtain ⟨enough, hresult⟩ := h
  refine ⟨enough + 1, fun fuel hle => ?_⟩
  obtain ⟨k, rfl⟩ := Nat.exists_eq_add_of_le' hle
  exact hresult (k + enough) (Nat.le_add_left _ _)

/-- Two programs that settle do so together. -/
theorem Settles.bind {last : Except ε β × σ} (hm : Settles m s (.ok a, t))
    (hf : Settles (fun fuel => f fuel a) t last) :
    Settles (fun fuel => m fuel >>= f fuel) s last := by
  obtain ⟨enough, hfirst⟩ := hm
  obtain ⟨enough', hsecond⟩ := hf
  refine ⟨max enough enough', fun fuel hle => ?_⟩
  obtain ⟨hle, hle'⟩ := Nat.max_le.mp hle
  exact (bind_of_ok (hfirst fuel hle)).trans (hsecond fuel hle')

/-- A program whose first part settles with an exception does so too. -/
theorem Settles.bind_of_error {e : ε} (hm : Settles m s (.error e, t)) :
    Settles (fun fuel => m fuel >>= f fuel) s (.error e, t) := by
  obtain ⟨enough, hfirst⟩ := hm
  exact ⟨enough, fun fuel hle => Effect.bind_of_error (hfirst fuel hle)⟩

/-- What comes first does not depend on the bound. -/
theorem Settles.bind_const {p : Effect σ ε α} {last : Except ε β × σ} (hp : p s = (.ok a, t))
    (hf : Settles (fun fuel => f fuel a) t last) : Settles (fun fuel => p >>= f fuel) s last :=
  Settles.bind (m := fun _ => p) (hp ▸ settles_const p s) hf

end Effect

end RpcProject.Foundations
