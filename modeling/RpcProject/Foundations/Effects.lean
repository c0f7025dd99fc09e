/-
# Programs with a state and exceptions

A program maps a state to a value or an exception and to the state it leaves,
which an exception does not undo. Programs are put together with `do`, a loop
over a list, and a handler for exceptions.

Several ways of speaking about a program are given. A program *keeps* a relation
when it relates every state to the one left, however the program ends. A program
that *returns* is taken apart into the parts that have returned. A program is
*still* when the state plays no part in it, and it *appends* when the state is a
log to which it only adds. One program *covers* another when the other does what it
does wherever it returns. A program *achieves* a state under a permission when
it leaves that state if it returns, and returns if the permission is given.
-/

import Mathlib.Data.List.Basic
import Mathlib.Order.Defs.Unbundled

namespace RpcProject.Foundations

theorem except_bind_ok {ε α β : Type} (a : α) (f : α → Except ε β) : (.ok a >>= f) = f a := rfl

theorem except_bind_error {ε α β : Type} (e : ε) (f : α → Except ε β) :
    ((.error e : Except ε α) >>= f) = .error e := rfl

theorem except_bind_eq_ok_iff {ε α β : Type} {x : Except ε α} {f : α → Except ε β} {b : β} :
    (x >>= f) = .ok b ↔ ∃ a, x = .ok a ∧ f a = .ok b := by
  cases x with
  | error e => exact ⟨fun h => (by cases h), fun ⟨_, h, _⟩ => (by cases h)⟩
  | ok a =>
    constructor
    · exact fun h => ⟨a, rfl, h⟩
    · rintro ⟨a, ⟨⟩, h⟩
      exact h

/-- A program over states `σ` with exceptions `ε`. -/
def Effect (σ ε α : Type) : Type := σ → Except ε α × σ

namespace Effect

variable {σ ε α β : Type}

instance : Monad (Effect σ ε) where
  pure a := fun s => (.ok a, s)
  bind m f := fun s =>
    match m s with
    | (.ok a, t) => f a t
    | (.error e, t) => (.error e, t)

/-- An exception is raised. -/
def raise (e : ε) : Effect σ ε α := fun s => (.error e, s)

/-- An exception is raised on a condition. -/
def raiseIf (p : Prop) [Decidable p] (e : ε) : Effect σ ε Unit := if p then raise e else pure ()

/-- Read something off the state. -/
def look (f : σ → α) : Effect σ ε α := fun s => (.ok (f s), s)

/-- Look at the state. -/
def ask (f : σ → Except ε α) : Effect σ ε α := fun s => (f s, s)

/-- Change the state, or fail and leave it. -/
def tryUpdate (f : σ → Except ε σ) : Effect σ ε Unit := fun s =>
  match f s with
  | .ok t => (.ok (), t)
  | .error e => (.error e, s)

/-- The state is changed. -/
def modify (f : σ → σ) : Effect σ ε Unit := fun s => (.ok (), f s)

/-- Run a program and return also what it raises. -/
def attempt (m : Effect σ ε α) : Effect σ ε (Except ε α) := fun s =>
  match m s with
  | (result, t) => (.ok result, t)

/-- Run a program, and a handler if it raises. -/
def handle (m : Effect σ ε α) (handler : ε → Effect σ ε α) : Effect σ ε α := fun s =>
  match m s with
  | (.ok a, t) => (.ok a, t)
  | (.error e, t) => handler e t

/-- Run a body for each element of a list, in order. -/
def forEach (body : α → Effect σ ε Unit) : List α → Effect σ ε Unit
  | [] => pure ()
  | a :: rest => do
      body a
      forEach body rest

/-- Run a body for each element of a list and collect what it returns. -/
def collect (body : α → Effect σ ε β) : List α → Effect σ ε (List β)
  | [] => pure []
  | a :: rest => do
      let b ← body a
      let bs ← collect body rest
      return b :: bs

variable {m : Effect σ ε α} {f : α → Effect σ ε β} {handler : ε → Effect σ ε α}
  {body : α → Effect σ ε Unit} {s t u : σ} {a : α} {b : β} {e : ε}

theorem pure_apply (a : α) (s : σ) : (pure a : Effect σ ε α) s = (.ok a, s) := rfl

theorem bind_apply (m : Effect σ ε α) (f : α → Effect σ ε β) (s : σ) :
    (m >>= f) s =
      match m s with
      | (.ok a, t) => f a t
      | (.error e, t) => (.error e, t) := rfl

/-- A program goes on from what its first part returns. -/
theorem bind_of_ok (h : m s = (.ok a, t)) : (m >>= f) s = f a t := by
  rw [bind_apply, h]

theorem bind_of_error (h : m s = (.error e, t)) : (m >>= f) s = (.error e, t) := by
  rw [bind_apply, h]

theorem tryUpdate_of_ok {f : σ → Except ε σ} (h : f s = .ok t) : tryUpdate f s = (.ok (), t) := by
  rw [tryUpdate, h]

/-- An update that fails changes nothing. -/
theorem tryUpdate_of_error {f : σ → Except ε σ} (h : f s = .error e) :
    tryUpdate f s = (.error e, s) := by
  rw [tryUpdate, h]

theorem modify_bind {f : Unit → Effect σ ε β} (g : σ → σ) : (modify g >>= f) s = f () (g s) := rfl

theorem look_bind (g : σ → α) : (look g >>= f) s = f (g s) s := rfl

theorem ask_bind_of_ok {x : Except ε α} (h : x = .ok a) : ((ask fun _ => x) >>= f) s = f a s := by
  rw [bind_apply, ask, h]

theorem ask_bind_of_error {x : Except ε α} (h : x = .error e) :
    ((ask fun _ => x) >>= f) s = (.error e, s) := by
  rw [bind_apply, ask, h]

theorem raiseIf_of {p : Prop} [Decidable p] (h : p) (e : ε) (s : σ) :
    raiseIf p e s = (.error e, s) := by
  rw [raiseIf, if_pos h]
  rfl

theorem raiseIf_of_not {p : Prop} [Decidable p] (h : ¬ p) (e : ε) (s : σ) :
    raiseIf p e s = (.ok (), s) := by
  rw [raiseIf, if_neg h]
  rfl

/-- Programs are put together in any grouping. -/
theorem bind_assoc {γ : Type} (m : Effect σ ε α) (f : α → Effect σ ε β) (g : β → Effect σ ε γ) :
    ((m >>= f) >>= g) = m >>= fun a => f a >>= g := by
  funext s
  rw [bind_apply, bind_apply, bind_apply]
  rcases m s with ⟨_ | _, t⟩ <;> rfl

theorem bind_pure_unit (m : Effect σ ε Unit) : (m >>= fun _ => pure ()) = m := by
  funext s
  rw [bind_apply]
  rcases m s with ⟨_ | _, t⟩ <;> rfl

/-! ## Programs that return -/

/-- A program of two parts returns if both do. -/
theorem bind_eq_ok_iff :
    (m >>= f) s = (.ok b, u) ↔ ∃ a t, m s = (.ok a, t) ∧ f a t = (.ok b, u) := by
  constructor
  · intro hrun
    rcases hfirst : m s with ⟨e | a, t⟩
    · rw [bind_of_error hfirst] at hrun
      cases hrun
    · rw [bind_of_ok hfirst] at hrun
      exact ⟨a, t, rfl, hrun⟩
  · rintro ⟨a, t, hfirst, hrest⟩
    rw [bind_of_ok hfirst, hrest]

theorem ask_bind_eq_ok_iff {g : σ → Except ε α} :
    (ask g >>= f) s = (.ok b, u) ↔ ∃ a, g s = .ok a ∧ f a s = (.ok b, u) := by
  rw [bind_apply, ask]
  cases hg : g s <;> simp

theorem pure_eq_ok_iff {a' : α} :
    (pure a : Effect σ ε α) s = (.ok a', t) ↔ a = a' ∧ s = t := by
  rw [pure_apply, Prod.mk.injEq, Except.ok.injEq]

/-- A loop returns if its first round does and the others do. -/
theorem forEach_cons_eq_ok_iff {list : List α} :
    forEach body (a :: list) s = (.ok (), u) ↔
      ∃ t, body a s = (.ok (), t) ∧ forEach body list t = (.ok (), u) := by
  rw [forEach, bind_eq_ok_iff]
  constructor
  · rintro ⟨⟨⟩, t, hfirst, hrest⟩
    exact ⟨t, hfirst, hrest⟩
  · rintro ⟨t, hfirst, hrest⟩
    exact ⟨(), t, hfirst, hrest⟩

/-- A loop over what a function makes of a list. -/
theorem forEach_map (f : β → α) (list : List β) :
    forEach body (list.map f) = forEach (fun b => body (f b)) list := by
  induction list with
  | nil => rfl
  | cons b rest ih => rw [List.map_cons, forEach, forEach, ih]

/-- The rule for loops that return, for a property of the elements done and the state. -/
theorem forEach_induction {list : List α} (P : List α → σ → Prop) (hstart : P [] s)
    (hstep : ∀ before a after s t, list = before ++ a :: after → P before s →
      body a s = (.ok (), t) → P (before ++ [a]) t)
    (hrun : forEach body list s = (.ok (), u)) : P list u := by
  have hfrom : ∀ before rest s, list = before ++ rest → P before s →
      forEach body rest s = (.ok (), u) → P list u := by
    intro before rest
    induction rest generalizing before with
    | nil =>
      rintro s rfl hbefore hrun
      obtain ⟨-, rfl⟩ := pure_eq_ok_iff.mp hrun
      rwa [List.append_nil]
    | cons a rest ih =>
      intro s hlist hbefore hrun
      obtain ⟨t, hfirst, hlater⟩ := forEach_cons_eq_ok_iff.mp hrun
      refine ih (before ++ [a]) t ?_ (hstep before a rest s t hlist hbefore hfirst) hlater
      rw [hlist, List.append_assoc, List.singleton_append]
  exact hfrom [] list s rfl hstart hrun

/-! ## Programs without a state -/

/-- The program neither reads nor changes the state. -/
def Still (m : Effect σ ε α) : Prop := ∃ result, ∀ s, m s = (result, s)

theorem still_pure (a : α) : Still (pure a : Effect σ ε α) := ⟨.ok a, fun _ => rfl⟩

theorem still_raise (e : ε) : Still (raise e : Effect σ ε α) := ⟨.error e, fun _ => rfl⟩

theorem still_ask (result : Except ε α) : Still (ask fun _ => result : Effect σ ε α) :=
  ⟨result, fun _ => rfl⟩

/-- Two programs that leave the state do so together. -/
theorem Still.bind (hm : Still m) (hf : ∀ a, Still (f a)) : Still (m >>= f) := by
  obtain ⟨result, hresult⟩ := hm
  cases result with
  | error e => exact ⟨.error e, fun s => bind_of_error (hresult s)⟩
  | ok a =>
    obtain ⟨result', hresult'⟩ := hf a
    exact ⟨result', fun s => by rw [bind_of_ok (hresult s), hresult' s]⟩

theorem Still.attempt (hm : Still m) : Still (attempt m) := by
  obtain ⟨result, hresult⟩ := hm
  exact ⟨.ok result, fun s => by rw [Effect.attempt, hresult s]⟩

/-! ## Programs that append to a log -/

section Log

variable {ι : Type} {p : Effect (List ι) ε α} {q : α → Effect (List ι) ε β}
  {each : α → Effect (List ι) ε Unit} {list : List α} {log : List ι}

/-- An item is appended to the log. -/
def emit (i : ι) : Effect (List ι) ε Unit := fun s => (.ok (), s ++ [i])

/-- The program adds to the log what it adds to the empty one. -/
def Appends (p : Effect (List ι) ε α) : Prop := ∀ s, p s = ((p []).1, s ++ (p []).2)

/-- A program that leaves the state appends nothing. -/
theorem Still.appends (hp : Still p) : Appends p := by
  obtain ⟨result, hresult⟩ := hp
  intro s
  rw [hresult s, hresult [], List.append_nil]

theorem appends_emit (i : ι) : Appends (emit i : Effect (List ι) ε Unit) := fun _ => rfl

/-- What two programs append comes in their order. -/
theorem Appends.bind_apply_ok (hq : ∀ a, Appends (q a)) {a : α} (hp : p [] = (.ok a, log)) :
    (p >>= q) [] = ((q a []).1, log ++ (q a []).2) := by
  rw [bind_of_ok hp, hq a log]

/-- Two programs that append do so together. -/
theorem Appends.bind (hp : Appends p) (hq : ∀ a, Appends (q a)) : Appends (p >>= q) := by
  intro s
  rcases hrun : p [] with ⟨e | a, log⟩
  · have hs : p s = (.error e, s ++ log) := by rw [hp s, hrun]
    rw [bind_of_error hs, bind_of_error hrun]
  · have hs : p s = (.ok a, s ++ log) := by rw [hp s, hrun]
    rw [bind_of_ok hs, hq a, Appends.bind_apply_ok hq hrun, List.append_assoc]

theorem Appends.forEach (heach : ∀ a, Appends (each a)) : Appends (forEach each list) := by
  induction list with
  | nil => exact (still_pure ()).appends
  | cons a rest ih => exact (heach a).bind fun _ => ih

/-- A loop that returns has logged what its rounds log, one after the other. -/
theorem Appends.forEach_eq_ok_iff (heach : ∀ a, Appends (each a)) :
    Effect.forEach each list [] = (.ok (), log) ↔
      (∀ a ∈ list, (each a []).1 = .ok ()) ∧ log = list.flatMap fun a => (each a []).2 := by
  induction list generalizing log with
  | nil =>
    simp [Effect.forEach, pure_apply, eq_comm]
  | cons a rest ih =>
    have hrest : Appends (Effect.forEach each rest) := Appends.forEach heach
    rw [forEach_cons_eq_ok_iff]
    constructor
    · rintro ⟨t, hfirst, hlater⟩
      rw [hrest t, Prod.mk.injEq] at hlater
      obtain ⟨hall, hlog⟩ := ih.mp (Prod.ext hlater.1 rfl)
      refine ⟨List.forall_mem_cons.mpr ⟨congrArg Prod.fst hfirst, hall⟩, ?_⟩
      rw [List.flatMap_cons, ← hlog, hfirst, hlater.2]
    · rintro ⟨hall, rfl⟩
      obtain ⟨hfirst, hlater⟩ := List.forall_mem_cons.mp hall
      refine ⟨(each a []).2, Prod.ext hfirst rfl, ?_⟩
      rw [hrest, ih.mpr ⟨hlater, rfl⟩, List.flatMap_cons]

/-- The program returns just if `P` holds, and then it has logged a list. -/
def Logs (P : Prop) (p : Effect (List ι) ε Unit) (items : List ι) : Prop :=
  ∀ s t, p s = (.ok (), t) ↔ P ∧ t = s ++ items

variable {P Q : Prop} {items items' : List ι} {u v : Effect (List ι) ε Unit}

theorem logs_pure : Logs True (pure () : Effect (List ι) ε Unit) [] := by
  intro s t
  rw [pure_apply, Prod.mk.injEq, List.append_nil]
  exact ⟨fun h => ⟨trivial, h.2.symm⟩, fun h => ⟨rfl, h.2.symm⟩⟩

theorem logs_emit (i : ι) : Logs True (emit i : Effect (List ι) ε Unit) [i] := by
  intro s t
  rw [emit, Prod.mk.injEq]
  exact ⟨fun h => ⟨trivial, h.2.symm⟩, fun h => ⟨rfl, h.2.symm⟩⟩

/-- What always raises logs under no condition. -/
theorem logs_of_error (hnot : ¬ P) (hrun : ∀ s, ∃ e t, u s = (.error e, t)) : Logs P u items := by
  intro s t
  obtain ⟨e, t', herror⟩ := hrun s
  rw [herror]
  exact ⟨fun h => (by cases h), fun h => absurd h.1 hnot⟩

/-- Two programs log under both conditions. -/
theorem Logs.bind (hu : Logs P u items) (hv : Logs Q v items') :
    Logs (P ∧ Q) (u >>= fun _ => v) (items ++ items') := by
  intro s t
  rw [bind_eq_ok_iff]
  constructor
  · rintro ⟨⟨⟩, t', hfirst, hrest⟩
    obtain ⟨hP, rfl⟩ := (hu s t').mp hfirst
    obtain ⟨hQ, rfl⟩ := (hv _ t).mp hrest
    exact ⟨⟨hP, hQ⟩, List.append_assoc _ _ _⟩
  · rintro ⟨⟨hP, hQ⟩, rfl⟩
    exact ⟨(), s ++ items, (hu s _).mpr ⟨hP, rfl⟩,
      (hv _ _).mpr ⟨hQ, (List.append_assoc _ _ _).symm⟩⟩

/-- The condition can be written in another way. -/
theorem Logs.congr (h : Logs P u items) (hiff : Q ↔ P) : Logs Q u items := fun s t => by
  rw [h s t, hiff]

/-- A loop logs what its rounds log, one after the other. -/
theorem Logs.forEach {each : α → Effect (List ι) ε Unit} {P : α → Prop} {items : α → List ι}
    (list : List α) (heach : ∀ a ∈ list, Logs (P a) (each a) (items a)) :
    Logs (∀ a ∈ list, P a) (Effect.forEach each list) (list.flatMap items) := by
  induction list with
  | nil => exact logs_pure.congr (by simp)
  | cons a rest ih =>
    obtain ⟨hfirst, hrest⟩ := List.forall_mem_cons.mp heach
    exact (hfirst.bind (ih hrest)).congr List.forall_mem_cons

end Log

/-! ## Programs that keep a relation -/

/-- Whichever way the program ends, the state it leaves is related to the state before. -/
def Keeps (R : σ → σ → Prop) (m : Effect σ ε α) : Prop := ∀ s, R s (m s).2

section Keeps

variable {R : σ → σ → Prop}

/-- The states before and after one run. -/
theorem Keeps.of_run {result : Except ε α} (h : Keeps R m) (hrun : m s = (result, t)) : R s t := by
  have hkept := h s
  rwa [hrun] at hkept

theorem keeps_pure [Std.Refl R] (a : α) : Keeps R (pure a : Effect σ ε α) := fun s => refl_of R s

theorem keeps_raise [Std.Refl R] (e : ε) : Keeps R (raise e : Effect σ ε α) := fun s => refl_of R s

theorem keeps_ask [Std.Refl R] (f : σ → Except ε α) : Keeps R (ask f) := fun s => refl_of R s

/-- What comes second may rely on what the first part has returned and left. -/
theorem keeps_bind_of [IsTrans σ R] (hm : Keeps R m)
    (hf : ∀ s a t, m s = (.ok a, t) → R t (f a t).2) : Keeps R (m >>= f) := by
  intro s
  rw [bind_apply]
  have hfirst := hm s
  rcases hrun : m s with ⟨_ | a, t⟩
  · rw [hrun] at hfirst
    exact hfirst
  · rw [hrun] at hfirst
    exact trans_of R hfirst (hf s a t hrun)

/-- A relation that two programs keep is kept by both together. -/
theorem Keeps.bind [IsTrans σ R] (hm : Keeps R m) (hf : ∀ a, Keeps R (f a)) :
    Keeps R (m >>= f) :=
  keeps_bind_of hm fun _ a t _ => hf a t

theorem Keeps.attempt (hm : Keeps R m) : Keeps R (attempt m) := hm

theorem Keeps.handle [IsTrans σ R] (hm : Keeps R m) (hhandler : ∀ e, Keeps R (handler e)) :
    Keeps R (handle m handler) := by
  intro s
  rw [Effect.handle]
  have hfirst := hm s
  rcases hrun : m s with ⟨e | a, t⟩
  · rw [hrun] at hfirst
    exact trans_of R hfirst (hhandler e t)
  · rw [hrun] at hfirst
    exact hfirst

theorem Keeps.forEach [Std.Refl R] [IsTrans σ R] {list : List α}
    (hbody : ∀ a ∈ list, Keeps R (body a)) : Keeps R (forEach body list) := by
  induction list with
  | nil => exact keeps_pure ()
  | cons a rest ih =>
    exact (hbody a List.mem_cons_self).bind fun _ =>
      ih fun b hb => hbody b (List.mem_cons_of_mem _ hb)

end Keeps

/-! ## Programs that do what another does -/

/-- Wherever the first program returns, the second returns the same and leaves the same. -/
def Covers (m m' : Effect σ ε α) : Prop := ∀ s a t, m s = (.ok a, t) → m' s = (.ok a, t)

section Covers

variable {m' : Effect σ ε α} {f' : α → Effect σ ε β} {body' : α → Effect σ ε Unit}

theorem covers_refl (m : Effect σ ε α) : Covers m m := fun _ _ _ h => h

/-- What is covered in parts is covered. -/
theorem Covers.bind (hm : Covers m m') (hf : ∀ a, Covers (f a) (f' a)) :
    Covers (m >>= f) (m' >>= f') := by
  intro s b u h
  obtain ⟨a, t, hfirst, hrest⟩ := bind_eq_ok_iff.mp h
  exact bind_eq_ok_iff.mpr ⟨a, t, hm s a t hfirst, hf a t b u hrest⟩

theorem Covers.forEach (hbody : ∀ a, Covers (body a) (body' a)) (list : List α) :
    Covers (forEach body list) (forEach body' list) := by
  induction list with
  | nil => exact covers_refl _
  | cons a rest ih => exact (hbody a).bind fun _ => ih

end Covers

/-! ## Programs that achieve a state -/

/-- If the program returns, it returns `a` and leaves `t`; and it does return if
it is permitted. -/
def Achieves (permitted : Prop) (m : Effect σ ε α) (s : σ) (a : α) (t : σ) : Prop :=
  (∀ b u, m s = (.ok b, u) → b = a ∧ u = t) ∧ (permitted → m s = (.ok a, t))

section Achieves

variable {permitted permitted' : Prop}

/-- A program that returns has achieved its result. -/
theorem achieves_of_eq (hrun : m s = (.ok a, t)) : Achieves permitted m s a t :=
  ⟨fun b u hrun' => by cases hrun.symm.trans hrun'; exact ⟨rfl, rfl⟩, fun _ => hrun⟩

theorem achieves_of_error (hrun : (m s).1 = .error e) (hnot : ¬ permitted) :
    Achieves permitted m s a t := by
  refine ⟨fun b u hrun' => ?_, fun h => absurd h hnot⟩
  rw [hrun'] at hrun
  cases hrun

theorem Achieves.mono (h : Achieves permitted m s a t) (himp : permitted' → permitted) :
    Achieves permitted' m s a t :=
  ⟨h.1, fun hpermitted => h.2 (himp hpermitted)⟩

/-- Two programs achieve what the second one does. -/
theorem Achieves.bind (hm : Achieves permitted m s a t) (hf : Achieves permitted (f a) t b u) :
    Achieves permitted (m >>= f) s b u := by
  constructor
  · intro b' u' hrun
    obtain ⟨a', t', hfirst, hrest⟩ := bind_eq_ok_iff.mp hrun
    obtain ⟨rfl, rfl⟩ := hm.1 a' t' hfirst
    exact hf.1 b' u' hrest
  · intro hpermitted
    rw [bind_of_ok (hm.2 hpermitted), hf.2 hpermitted]

/-- The rule for loops, with the state as a function of the elements done. -/
theorem Achieves.forEach {list : List α} (state : List α → σ)
    (hbody : ∀ before a after, list = before ++ a :: after →
      Achieves permitted (body a) (state before) () (state (before ++ [a]))) :
    Achieves permitted (forEach body list) (state []) () (state list) := by
  have hfrom : ∀ before rest, list = before ++ rest →
      Achieves permitted (Effect.forEach body rest) (state before) () (state list) := by
    intro before rest
    induction rest generalizing before with
    | nil =>
      rintro rfl
      rw [List.append_nil]
      exact achieves_of_eq rfl
    | cons a rest ih =>
      intro hlist
      refine (hbody before a rest hlist).bind (ih (before ++ [a]) ?_)
      rw [hlist, List.append_assoc, List.singleton_append]
  exact hfrom [] list rfl

end Achieves

/-! ## Loops with a first fault -/

theorem forEach_append (first second : List α) :
    forEach body (first ++ second) = (forEach body first >>= fun _ => forEach body second) := by
  induction first with
  | nil => rfl
  | cons a rest ih =>
    funext s
    rw [List.cons_append, forEach, forEach, ih, bind_apply, bind_apply, bind_apply]
    rcases body a s with ⟨_ | ⟨⟩, t⟩ <;> rfl

/-- A loop whose rounds all return, with the state as a function of the elements done. -/
theorem forEach_of_all {list : List α} (state : List α → σ)
    (hbody : ∀ before a after, list = before ++ a :: after →
      body a (state before) = (.ok (), state (before ++ [a]))) :
    forEach body list (state []) = (.ok (), state list) := by
  have hachieves : Achieves True (forEach body list) (state []) () (state list) :=
    Achieves.forEach state fun before a after hlist => achieves_of_eq (hbody before a after hlist)
  exact hachieves.2 trivial

/-- A loop ends with the first round that raises. -/
theorem forEach_of_fault {before after : List α} (state : List α → σ)
    (hbefore : ∀ first b rest, before = first ++ b :: rest →
      body b (state first) = (.ok (), state (first ++ [b])))
    (hfault : body a (state before) = (.error e, t)) :
    forEach body (before ++ a :: after) (state []) = (.error e, t) := by
  rw [forEach_append, bind_of_ok (forEach_of_all state hbefore), forEach, bind_of_error hfault]

/-- All elements of a list pass, or a first one does not. -/
theorem forall_or_first (passes : α → Prop) (list : List α) :
    (∀ a ∈ list, passes a) ∨ ∃ before a after, list = before ++ a :: after ∧
      (∀ b ∈ before, passes b) ∧ ¬passes a := by
  induction list with
  | nil => exact .inl fun _ h => absurd h List.not_mem_nil
  | cons a rest ih =>
    by_cases ha : passes a
    · rcases ih with hall | ⟨before, b, after, rfl, hbefore, hb⟩
      · exact .inl (List.forall_mem_cons.mpr ⟨ha, hall⟩)
      · exact .inr ⟨a :: before, b, after, rfl, List.forall_mem_cons.mpr ⟨ha, hbefore⟩, hb⟩
    · exact .inr ⟨[], a, rest, rfl, fun _ h => absurd h List.not_mem_nil, ha⟩

/-- The first item that does not pass is unique. -/
theorem first_unique {passes : α → Prop} {before before' after after' : List α} {a' : α}
    (h : before ++ a :: after = before' ++ a' :: after') (hbefore : ∀ b ∈ before, passes b)
    (ha : ¬passes a) (hbefore' : ∀ b ∈ before', passes b) (ha' : ¬passes a') :
    before = before' := by
  induction before generalizing before' with
  | nil =>
    cases before' with
    | nil => rfl
    | cons b rest =>
      obtain ⟨rfl, -⟩ := List.cons.inj h
      exact absurd (hbefore' a List.mem_cons_self) ha
  | cons b rest ih =>
    cases before' with
    | nil =>
      obtain ⟨rfl, -⟩ := List.cons.inj h
      exact absurd (hbefore b List.mem_cons_self) ha'
    | cons b' rest' =>
      obtain ⟨rfl, hrest⟩ := List.cons.inj h
      rw [ih hrest (fun c hc => hbefore c (List.mem_cons_of_mem _ hc))
        fun c hc => hbefore' c (List.mem_cons_of_mem _ hc)]

/-! ## Programs in either order -/

/-- Two programs give the same results and leave the same state in either order. -/
def Independent (p : Effect σ ε α) (q : Effect σ ε β) : Prop :=
  ∀ s, (do let a ← p; let b ← q; return (a, b)) s = (do let b ← q; let a ← p; return (a, b)) s

/-- Programs that always return, neither of which changes what the other returns or does. -/
theorem independent_of_total {p : Effect σ ε α} {q : Effect σ ε β} {value : σ → α} {value' : σ → β}
    {next next' : σ → σ} (hp : ∀ s, p s = (.ok (value s), next s))
    (hq : ∀ s, q s = (.ok (value' s), next' s)) (hvalue : ∀ s, value (next' s) = value s)
    (hvalue' : ∀ s, value' (next s) = value' s) (hnext : ∀ s, next' (next s) = next (next' s)) :
    Independent p q := by
  intro s
  rw [bind_of_ok (hp s), bind_of_ok (hq _), bind_of_ok (hq s), bind_of_ok (hp _), pure_apply,
    pure_apply, hvalue, hvalue', hnext]

/-! ## What holds on either way out -/

/-- The program leaves a state and a value of `Q` when it returns, and a state and an
exception of `E` when it raises. -/
def Meets (m : Effect σ ε α) (s : σ) (Q : α → σ → Prop) (E : ε → σ → Prop) : Prop :=
  match m s with
  | (.ok a, t) => Q a t
  | (.error e, t) => E e t

section Meets

variable {Q : α → σ → Prop} {R : β → σ → Prop} {E : ε → σ → Prop}

/-- The rule for sequences: what the first part leaves is what the second one needs. -/
theorem Meets.bind (h : Meets m s (fun a t => Meets (f a) t R E) E) : Meets (m >>= f) s R E := by
  rw [Meets] at h
  rw [Meets, bind_apply]
  generalize m s = result at h ⊢
  obtain ⟨e | a, t⟩ := result
  · exact h
  · exact h

/-- A program that meets its specification returns or raises. -/
theorem Meets.cases (h : Meets m s Q E) :
    (∃ a t, m s = (.ok a, t) ∧ Q a t) ∨ ∃ e t, m s = (.error e, t) ∧ E e t := by
  rw [Meets] at h
  generalize m s = result at h ⊢
  obtain ⟨e | a, t⟩ := result
  · exact Or.inr ⟨e, t, rfl, h⟩
  · exact Or.inl ⟨a, t, rfl, h⟩

theorem Meets.mono {Q' : α → σ → Prop} {E' : ε → σ → Prop} (h : Meets m s Q E)
    (hQ : ∀ a t, Q a t → Q' a t) (hE : ∀ e t, E e t → E' e t) : Meets m s Q' E' := by
  rw [Meets] at h ⊢
  generalize m s = result at h ⊢
  obtain ⟨e | a, t⟩ := result
  · exact hE e t h
  · exact hQ a t h

theorem meets_raiseIf {p : Prop} [Decidable p] {Q : Unit → σ → Prop} (hraise : p → E e s)
    (hpass : ¬ p → Q () s) : Meets (raiseIf p e) s Q E := by
  by_cases hp : p
  · rw [Meets, raiseIf_of hp]
    exact hraise hp
  · rw [Meets, raiseIf_of_not hp]
    exact hpass hp

theorem meets_modify {g : σ → σ} {Q : Unit → σ → Prop} (h : Q () (g s)) :
    Meets (modify g) s Q E := h

/-- Checks one after the other, none of which changes the state. -/
theorem meets_forEach_raiseIf {p : α → Prop} [DecidablePred p] {list : List α} {Q : Unit → σ → Prop}
    (hraise : ∀ a ∈ list, p a → E e s) (hpass : (∀ a ∈ list, ¬ p a) → Q () s) :
    Meets (forEach (fun a => raiseIf (p a) e) list) s Q E := by
  induction list with
  | nil => exact hpass fun a ha => absurd ha List.not_mem_nil
  | cons a list ih =>
    refine Meets.bind (meets_raiseIf (hraise a List.mem_cons_self) fun ha => ?_)
    refine ih (fun b hb => hraise b (List.mem_cons_of_mem _ hb)) fun hlist => hpass ?_
    exact List.forall_mem_cons.mpr ⟨ha, hlist⟩

end Meets

end Effect

end RpcProject.Foundations
