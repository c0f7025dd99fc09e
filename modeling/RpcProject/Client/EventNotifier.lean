/-
# Notifying the listeners of an event

An `EventNotifier` keeps a set of callbacks for each event. `register_once` registers a
wrapper, which invokes the callback and then unregisters itself. `notify` copies the set of
an event under the lock and invokes the copy's callbacks one after the other, outside the
lock. A callback may call any of these methods, and notifications of several threads
overlap.

A wrapper is registered until its callback has ended. A notification that begins while a
wrapper of its event waits or runs in another one takes a second copy of it.
-/

import Mathlib.Data.Finset.Image
import RpcProject.Foundations.Machine

namespace RpcProject.Client.EventNotifier

open Foundations

/-- What is registered for an event: a callback, or the wrapper of one registration of a
callback that is to be invoked at most once. -/
inductive Listener (E C : Type)
  | callback (c : C)
  | wrapper (event : E) (c : C) (registration : ℕ)
  deriving DecidableEq, Repr

variable {T E C : Type}

/-! ## The sets of listeners -/

/-- The listeners of each event. An event without any has no key in the dictionary. -/
abbrev Data (E C : Type) := E → Finset (Listener E C)

variable {data : Data E C} {event other : E} {listener w : Listener E C}

section Sets

variable [DecidableEq E]

/-- `register` -/
def register [DecidableEq C] (event : E) (listener : Listener E C) (data : Data E C) : Data E C :=
  Function.update data event (insert listener (data event))

/-- Remove a listener, and tell whether it was there. -/
def unregister [DecidableEq C] (event : E) (listener : Listener E C) (data : Data E C) :
    Bool × Data E C :=
  (listener ∈ data event, Function.update data event ((data event).erase listener))

/-- Remove all listeners, or those of one event. -/
def clear (event : Option E) (data : Data E C) : Data E C :=
  match event with
  | none => fun _ => ∅
  | some event => Function.update data event ∅

/-- Which listeners there are after one is registered. -/
theorem mem_register [DecidableEq C] :
    w ∈ register event listener data other ↔ (other = event ∧ w = listener) ∨ w ∈ data other := by
  by_cases h : other = event
  · rw [h, register, Function.update_self, Finset.mem_insert]
    exact ⟨Or.imp_left fun hw => ⟨rfl, hw⟩, Or.imp_left And.right⟩
  · rw [register, Function.update_of_ne h]
    exact ⟨.inr, fun hw => hw.resolve_left fun hw => h hw.1⟩

theorem mem_unregister [DecidableEq C] :
    w ∈ (unregister event listener data).2 other ↔
      ¬ (other = event ∧ w = listener) ∧ w ∈ data other := by
  by_cases h : other = event
  · rw [h, unregister]
    dsimp only
    rw [Function.update_self, Finset.mem_erase]
    exact ⟨fun hw => ⟨fun heq => hw.1 heq.2, hw.2⟩, fun hw => ⟨fun heq => hw.1 ⟨rfl, heq⟩, hw.2⟩⟩
  · rw [unregister]
    dsimp only
    rw [Function.update_of_ne h]
    exact ⟨fun hw => ⟨fun heq => h heq.1, hw⟩, And.right⟩

theorem mem_of_clear {cleared : Option E} (h : w ∈ clear cleared data other) : w ∈ data other := by
  cases cleared with
  | none => exact absurd h (Finset.notMem_empty w)
  | some event =>
    rw [clear, Function.update_apply] at h
    split at h
    next => exact absurd h (Finset.notMem_empty w)
    next => exact h

end Sets

/-! ## Notifications under way -/

/-- A call of `notify` by a thread: the listeners of its copy that are still to be invoked,
and the one that runs. -/
structure Notification (T E C : Type) where
  thread : T
  event : E
  pending : List (Listener E C)
  running : Option (Listener E C)
  deriving DecidableEq, Repr

/-- The notifier with the number of registrations made by `register_once`, the
notifications under way, each after those it is nested in were begun, and the listeners
invoked so far. -/
structure State (T E C : Type) where
  data : Data E C
  registrations : ℕ
  underWay : List (Notification T E C)
  invoked : List (Listener E C)

/-- What a thread does next. -/
inductive Act (E C : Type)
  | register (event : E) (c : C)
  | registerOnce (event : E) (c : C)
  | unregister (event : E) (c : C)
  | clear (event : Option E)
  /-- Begin a notification, whose copy of the set lists its members in some order. -/
  | notify (event : E) (copy : List (Listener E C))
  /-- Invoke the next listener of the innermost notification. -/
  | invoke
  /-- The callback that runs ends: it returns, or raises what `notify` logs. -/
  | ends
  /-- The callback raises what `notify` does not catch, which ends the notification. -/
  | aborts
  /-- The innermost notification has invoked all its listeners. -/
  | finish
  deriving DecidableEq, Repr

/-- The innermost notification of a thread, with those on both sides of it. -/
def innermost [DecidableEq T] (t : T) : List (Notification T E C) →
    Option (List (Notification T E C) × Notification T E C × List (Notification T E C))
  | [] => none
  | n :: rest =>
      if n.thread = t then some ([], n, rest)
      else (innermost t rest).map fun (before, m, after) => (n :: before, m, after)

/-- Whether a thread is in its own code or in a callback's, and not inside `notify`. -/
def inCode [DecidableEq T] (t : T) (underWay : List (Notification T E C)) : Bool :=
  match innermost t underWay with
  | none => true
  | some (_, n, _) => n.running.isSome

/-- What a listener does when its callback has ended: a wrapper unregisters itself. -/
def Listener.afterwards [DecidableEq E] [DecidableEq C] : Listener E C → Data E C → Data E C
  | callback _, data => data
  | wrapper event c registration, data => (unregister event (wrapper event c registration) data).2

/-- What each thread may do next. -/
def step [DecidableEq T] [DecidableEq E] [DecidableEq C] (s : State T E C) :
    T × Act E C → Option (State T E C)
  | (t, .register event c) =>
      if inCode t s.underWay then some { s with data := register event (.callback c) s.data }
      else none
  | (t, .registerOnce event c) =>
      if inCode t s.underWay then
        some { s with
          data := register event (.wrapper event c s.registrations) s.data
          registrations := s.registrations + 1 }
      else none
  | (t, .unregister event c) =>
      if inCode t s.underWay then
        some { s with data := (unregister event (.callback c) s.data).2 }
      else none
  | (t, .clear event) =>
      if inCode t s.underWay then some { s with data := clear event s.data } else none
  | (t, .notify event copy) =>
      -- the copy is a tuple of the set, made under the lock and called outside of it
      if inCode t s.underWay ∧ copy.Nodup ∧ copy.toFinset = s.data event then
        some { s with underWay := ⟨t, event, copy, none⟩ :: s.underWay }
      else none
  | (t, .invoke) =>
      match innermost t s.underWay with
      | some (before, ⟨_, event, listener :: pending, none⟩, after) =>
          some { s with
            underWay := before ++ ⟨t, event, pending, some listener⟩ :: after
            invoked := listener :: s.invoked }
      | _ => none
  | (t, .ends) =>
      match innermost t s.underWay with
      | some (before, ⟨_, event, pending, some listener⟩, after) =>
          some { s with
            data := listener.afterwards s.data
            underWay := before ++ ⟨t, event, pending, none⟩ :: after }
      | _ => none
  | (t, .aborts) =>
      match innermost t s.underWay with
      | some (before, ⟨_, _, _, some listener⟩, after) =>
          -- the wrapper's `finally` runs, and what is left of the copy is not called
          some { s with data := listener.afterwards s.data, underWay := before ++ after }
      | _ => none
  | (t, .finish) =>
      match innermost t s.underWay with
      | some (before, ⟨_, _, [], none⟩, after) => some { s with underWay := before ++ after }
      | _ => none

/-- The notifier from its construction on. -/
def machine (T E C : Type) [DecidableEq T] [DecidableEq E] [DecidableEq C] :
    Machine (State T E C) (T × Act E C) where
  start s := s = ⟨fun _ => ∅, 0, [], []⟩
  step := step

/-! ## What is expected of wrappers -/

/-- The listeners that notifications under way have still to invoke. -/
def waiting (underWay : List (Notification T E C)) : List (Listener E C) :=
  underWay.flatMap Notification.pending

/-- The listener is being invoked. -/
def Runs (underWay : List (Notification T E C)) (w : Listener E C) : Prop :=
  ∃ n ∈ underWay, n.running = some w

instance [DecidableEq E] [DecidableEq C] (underWay : List (Notification T E C)) (w : Listener E C) :
    Decidable (Runs underWay w) :=
  inferInstanceAs (Decidable (∃ n ∈ underWay, n.running = some w))

/-- The callback of a registration by `register_once` has been invoked at most once, and is
not registered when it has been invoked and does not run any more. -/
def AtMostOnce [DecidableEq E] [DecidableEq C] (s : State T E C) : Prop :=
  ∀ event c registration,
    s.invoked.count (.wrapper event c registration) ≤ 1 ∧
      (.wrapper event c registration ∈ s.invoked →
        ¬ Runs s.underWay (.wrapper event c registration) →
          ∀ other, .wrapper event c registration ∉ s.data other)

/-- A notification begins only if no wrapper of its event waits or runs in another. -/
def Apart (s : State T E C) : T × Act E C → Prop
  | (_, .notify event _) =>
      ∀ w ∈ s.data event, match w with
        | .callback _ => True
        | .wrapper .. => w ∉ waiting s.underWay ∧ ¬ Runs s.underWay w
  | _ => True

/-! ## What a step can do -/

variable {t : T} {a : Act E C} {s s' : State T E C} {n : Notification T E C}
  {underWay before after : List (Notification T E C)}

/-- The innermost notification of a thread is one of those under way. -/
theorem eq_of_innermost [DecidableEq T] (h : innermost t underWay = some (before, n, after)) :
    underWay = before ++ n :: after ∧ n.thread = t := by
  induction underWay generalizing before n after with
  | nil => cases h
  | cons m rest ih =>
    rw [innermost] at h
    split at h
    next hthread =>
      cases h
      exact ⟨rfl, hthread⟩
    next =>
      obtain ⟨⟨before', n', after'⟩, hrest, heq⟩ := Option.map_eq_some_iff.mp h
      cases heq
      obtain ⟨rfl, hthread⟩ := ih hrest
      exact ⟨rfl, hthread⟩

/-- What the steps of all threads come to, if notifications begin apart. -/
inductive Change [DecidableEq E] [DecidableEq C] (s : State T E C) : State T E C → Prop
  | callback (event : E) (c : C) :
      Change s { s with data := register event (.callback c) s.data }
  | once (event : E) (c : C) :
      Change s { s with
        data := register event (.wrapper event c s.registrations) s.data
        registrations := s.registrations + 1 }
  | removed (data : Data E C) (hdata : ∀ event w, w ∈ data event → w ∈ s.data event) :
      Change s { s with data }
  | begun (t : T) (event : E) (copy : List (Listener E C)) (hnodup : copy.Nodup)
      (hcopy : copy.toFinset = s.data event) (hapart : Apart s (t, .notify event copy)) :
      Change s { s with underWay := ⟨t, event, copy, none⟩ :: s.underWay }
  | invoked (t : T) (event : E) (listener : Listener E C) (pending : List (Listener E C))
      (before after : List (Notification T E C))
      (hway : s.underWay = before ++ ⟨t, event, listener :: pending, none⟩ :: after) :
      Change s { s with
        underWay := before ++ ⟨t, event, pending, some listener⟩ :: after
        invoked := listener :: s.invoked }
  | ended (t : T) (event : E) (listener : Listener E C) (pending : List (Listener E C))
      (before rest after : List (Notification T E C))
      (hway : s.underWay = before ++ ⟨t, event, pending, some listener⟩ :: after)
      (hrest : rest = [⟨t, event, pending, none⟩] ∨ rest = []) :
      Change s { s with
        data := listener.afterwards s.data
        underWay := before ++ (rest ++ after) }
  | finished (t : T) (event : E) (before after : List (Notification T E C))
      (hway : s.underWay = before ++ ⟨t, event, [], none⟩ :: after) :
      Change s { s with underWay := before ++ after }

/-- Every step that keeps notifications apart is one of the changes. -/
theorem change_of_step [DecidableEq T] [DecidableEq E] [DecidableEq C] (hapart : Apart s (t, a))
    (h : step s (t, a) = some s') :
    Change s s' := by
  cases a with
  | register event c =>
    obtain ⟨-, h⟩ := Option.ite_none_right_eq_some.mp h
    cases h
    exact .callback event c
  | registerOnce event c =>
    obtain ⟨-, h⟩ := Option.ite_none_right_eq_some.mp h
    cases h
    exact .once event c
  | unregister event c =>
    obtain ⟨-, h⟩ := Option.ite_none_right_eq_some.mp h
    cases h
    exact .removed _ fun event w hw => (mem_unregister.mp hw).2
  | clear event =>
    obtain ⟨-, h⟩ := Option.ite_none_right_eq_some.mp h
    cases h
    exact .removed _ fun event w hw => mem_of_clear hw
  | notify event copy =>
    obtain ⟨⟨-, hnodup, hcopy⟩, h⟩ := Option.ite_none_right_eq_some.mp h
    cases h
    exact .begun t event copy hnodup hcopy hapart
  | invoke =>
    rw [step] at h
    split at h
    next hinner =>
      cases h
      obtain ⟨hway, rfl⟩ := eq_of_innermost hinner
      exact .invoked _ _ _ _ _ _ hway
    next => cases h
  | ends =>
    rw [step] at h
    split at h
    next hinner =>
      cases h
      obtain ⟨hway, rfl⟩ := eq_of_innermost hinner
      exact .ended _ _ _ _ _ _ _ hway (.inl rfl)
    next => cases h
  | aborts =>
    rw [step] at h
    split at h
    next hinner =>
      cases h
      -- the whole notification goes, and its other listeners with it
      exact .ended _ _ _ _ _ [] _ (eq_of_innermost hinner).1 (.inr rfl)
    next => cases h
  | finish =>
    rw [step] at h
    split at h
    next hinner =>
      cases h
      exact .finished _ _ _ _ (eq_of_innermost hinner).1
    next => cases h

/-! ## The invariant -/

@[simp] theorem waiting_cons : waiting (n :: underWay) = n.pending ++ waiting underWay := rfl

@[simp] theorem waiting_append : waiting (before ++ after) = waiting before ++ waiting after :=
  List.flatMap_append

@[simp] theorem runs_cons : Runs (n :: underWay) w ↔ n.running = some w ∨ Runs underWay w := by
  simp only [Runs, List.mem_cons, exists_eq_or_imp]

@[simp] theorem runs_append : Runs (before ++ after) w ↔ Runs before w ∨ Runs after w := by
  simp only [Runs, List.mem_append, or_and_right, exists_or]

/-- A wrapper is of a registration that has been made. -/
def Listener.Made (registrations : ℕ) : Listener E C → Prop
  | callback _ => True
  | wrapper _ _ registration => registration < registrations

theorem Listener.Made.succ {registrations : ℕ} (h : w.Made registrations) :
    w.Made (registrations + 1) := by
  cases w with
  | callback c => trivial
  | wrapper event c registration => exact Nat.lt_succ_of_lt h

variable [DecidableEq E] [DecidableEq C]

/-- What holds of the wrappers along a run: each is invoked or waits at most once, and one
that was invoked and is registered runs. -/
structure Tracked (s : State T E C) : Prop where
  once : ∀ event c registration,
    s.invoked.count (.wrapper event c registration) +
      (waiting s.underWay).count (.wrapper event c registration) ≤ 1
  runs : ∀ event c registration other, .wrapper event c registration ∈ s.invoked →
    .wrapper event c registration ∈ s.data other →
      Runs s.underWay (.wrapper event c registration)
  own : ∀ event c registration other, .wrapper event c registration ∈ s.data other → other = event
  made_data : ∀ event, ∀ w ∈ s.data event, w.Made s.registrations
  made_invoked : ∀ w ∈ s.invoked, w.Made s.registrations
  made_waiting : ∀ w ∈ waiting s.underWay, w.Made s.registrations

/-- The invariant says that no one-time listener runs twice. -/
theorem Tracked.atMostOnce (h : Tracked s) : AtMostOnce s := by
  intro event c registration
  refine ⟨?_, fun hinvoked hruns other hmem => hruns (h.runs _ _ _ other hinvoked hmem)⟩
  have honce := h.once event c registration
  omega

theorem tracked_start : Tracked (⟨fun _ => ∅, 0, [], []⟩ : State T E C) where
  once _ _ _ := Nat.zero_le 1
  runs _ _ _ _ h := absurd h List.not_mem_nil
  own _ _ _ _ h := absurd h (Finset.notMem_empty _)
  made_data _ _ h := absurd h (Finset.notMem_empty _)
  made_invoked _ h := absurd h List.not_mem_nil
  made_waiting _ h := absurd h List.not_mem_nil

/-- A callback that is registered makes no difference to it. -/
theorem Tracked.callback (h : Tracked s) (event : E) (c : C) :
    Tracked { s with data := register event (.callback c) s.data } where
  once := h.once
  runs event' c' registration other hinvoked hmem := by
    rcases mem_register.mp hmem with ⟨-, hw⟩ | hmem
    · cases hw
    · exact h.runs _ _ _ other hinvoked hmem
  own event' c' registration other hmem := by
    rcases mem_register.mp hmem with ⟨-, hw⟩ | hmem
    · cases hw
    · exact h.own _ _ _ other hmem
  made_data other w hmem := by
    rcases mem_register.mp hmem with ⟨-, rfl⟩ | hmem
    · trivial
    · exact h.made_data other w hmem
  made_invoked := h.made_invoked
  made_waiting := h.made_waiting

/-- The wrapper of a new registration was neither registered nor invoked before. -/
theorem Tracked.registerOnce (h : Tracked s) (event : E) (c : C) :
    Tracked { s with
      data := register event (.wrapper event c s.registrations) s.data
      registrations := s.registrations + 1 } where
  once := h.once
  runs event' c' registration other hinvoked hmem := by
    rcases mem_register.mp hmem with ⟨-, hw⟩ | hmem
    · cases hw
      exact absurd (h.made_invoked _ hinvoked) (Nat.lt_irrefl _)
    · exact h.runs _ _ _ other hinvoked hmem
  own event' c' registration other hmem := by
    rcases mem_register.mp hmem with ⟨rfl, hw⟩ | hmem
    · cases hw
      rfl
    · exact h.own _ _ _ other hmem
  made_data other w hmem := by
    rcases mem_register.mp hmem with ⟨-, rfl⟩ | hmem
    · exact Nat.lt_succ_self _
    · exact (h.made_data other w hmem).succ
  made_invoked w hmem := (h.made_invoked w hmem).succ
  made_waiting w hmem := (h.made_waiting w hmem).succ

theorem Tracked.removed (h : Tracked s) {data : Data E C}
    (hdata : ∀ event w, w ∈ data event → w ∈ s.data event) : Tracked { s with data } where
  once := h.once
  runs _ _ _ other hinvoked hmem := h.runs _ _ _ other hinvoked (hdata other _ hmem)
  own _ _ _ other hmem := h.own _ _ _ other (hdata other _ hmem)
  made_data other w hmem := h.made_data other w (hdata other w hmem)
  made_invoked := h.made_invoked
  made_waiting := h.made_waiting

/-- A wrapper in the copy of a new notification was never invoked, as it does not run. -/
theorem Tracked.begun (h : Tracked s) (t : T) {event : E} {copy : List (Listener E C)}
    (hnodup : copy.Nodup) (hcopy : copy.toFinset = s.data event)
    (hapart : Apart s (t, .notify event copy)) :
    Tracked { s with underWay := ⟨t, event, copy, none⟩ :: s.underWay } where
  once event' c registration := by
    have honce := h.once event' c registration
    rw [waiting_cons, List.count_append]
    dsimp only
    by_cases hmem : Listener.wrapper event' c registration ∈ s.data event
    · obtain ⟨hwaiting, hruns⟩ := hapart _ hmem
      -- a wrapper of the set that was invoked would still run, which `Apart` excludes
      have hinvoked : Listener.wrapper event' c registration ∉ s.invoked :=
        fun hinvoked => hruns (h.runs _ _ _ event hinvoked hmem)
      rw [List.count_eq_zero_of_not_mem hinvoked, List.count_eq_zero_of_not_mem hwaiting]
      have hcount := List.nodup_iff_count_le_one.mp hnodup (.wrapper event' c registration)
      omega
    · rw [← hcopy, List.mem_toFinset] at hmem
      rw [List.count_eq_zero_of_not_mem hmem]
      omega
  runs _ _ _ other hinvoked hmem := runs_cons.mpr (.inr (h.runs _ _ _ other hinvoked hmem))
  own := h.own
  made_data := h.made_data
  made_invoked := h.made_invoked
  made_waiting w hmem := by
    rcases List.mem_append.mp hmem with hmem | hmem
    · rw [← List.mem_toFinset, hcopy] at hmem
      exact h.made_data event w hmem
    · exact h.made_waiting w hmem

/-- The listener that is invoked does not wait any more, and runs. -/
theorem Tracked.invoked (h : Tracked s) {event : E} {listener : Listener E C}
    {pending : List (Listener E C)}
    (hway : s.underWay = before ++ ⟨t, event, listener :: pending, none⟩ :: after) :
    Tracked { s with
      underWay := before ++ ⟨t, event, pending, some listener⟩ :: after
      invoked := listener :: s.invoked } where
  once event' c registration := by
    have honce := h.once event' c registration
    simp only [hway, waiting_append, waiting_cons, List.count_append, List.count_cons] at honce ⊢
    omega
  runs event' c registration other hinvoked hmem := by
    rw [runs_append, runs_cons]
    rcases List.mem_cons.mp hinvoked with rfl | hinvoked
    · exact .inr (.inl rfl)
    · have hruns := h.runs _ _ _ other hinvoked hmem
      rw [hway, runs_append, runs_cons] at hruns
      exact hruns.imp_right fun hruns => .inr (hruns.resolve_left nofun)
  own := h.own
  made_data := h.made_data
  made_invoked w hmem := by
    rcases List.mem_cons.mp hmem with rfl | hmem
    · apply h.made_waiting w
      rw [hway, waiting_append, waiting_cons]
      simp
    · exact h.made_invoked w hmem
  made_waiting w hmem := by
    apply h.made_waiting w
    rw [hway]
    simp only [waiting_append, waiting_cons, List.mem_append, List.mem_cons] at hmem ⊢
    tauto

/-- The wrapper whose callback has ended is not registered any more. -/
theorem Tracked.ended (h : Tracked s) {event : E} {listener : Listener E C}
    {pending : List (Listener E C)} {rest : List (Notification T E C)}
    (hway : s.underWay = before ++ ⟨t, event, pending, some listener⟩ :: after)
    (hrest : rest = [⟨t, event, pending, none⟩] ∨ rest = []) :
    Tracked { s with
      data := listener.afterwards s.data
      underWay := before ++ (rest ++ after) } := by
  have hcount : ∀ w, (waiting rest).count w ≤ pending.count w := by
    rcases hrest with rfl | rfl
    · simp [waiting]
    · simp [waiting]
  have hdata : ∀ other w, w ∈ listener.afterwards s.data other → w ∈ s.data other := by
    cases listener with
    | callback c => exact fun _ _ hmem => hmem
    | wrapper e c registration => exact fun other w hmem => (mem_unregister.mp hmem).2
  exact {
    once event' c registration := by
      have honce := h.once event' c registration
      simp only [hway, waiting_append, waiting_cons, List.count_append] at honce ⊢
      have hle := hcount (.wrapper event' c registration)
      omega
    runs event' c registration other hinvoked hmem := by
      have hruns := h.runs _ _ _ other hinvoked (hdata other _ hmem)
      rw [hway, runs_append, runs_cons] at hruns
      rw [runs_append, runs_append]
      rcases hruns with hruns | hruns | hruns
      · exact .inl hruns
      · -- it was the wrapper that has unregistered itself
        obtain rfl := Option.some.inj hruns
        obtain ⟨hne, hmem⟩ := mem_unregister.mp hmem
        exact absurd ⟨h.own _ _ _ other hmem, rfl⟩ hne
      · exact .inr (.inr hruns)
    own event' c registration other hmem := h.own _ _ _ other (hdata other _ hmem)
    made_data other w hmem := h.made_data other w (hdata other w hmem)
    made_invoked := h.made_invoked
    made_waiting w hmem := by
      apply h.made_waiting w
      rw [← List.count_pos_iff, hway, waiting_append, waiting_cons]
      rw [← List.count_pos_iff, waiting_append, waiting_append] at hmem
      simp only [List.count_append] at hmem ⊢
      have hle := hcount w
      omega }

theorem Tracked.finished (h : Tracked s) {event : E}
    (hway : s.underWay = before ++ ⟨t, event, [], none⟩ :: after) :
    Tracked { s with underWay := before ++ after } := by
  have hwaiting : waiting (before ++ after) = waiting s.underWay := by
    rw [hway, waiting_append, waiting_append, waiting_cons]
    rfl
  exact {
    once event' c registration := by
      rw [hwaiting]
      exact h.once event' c registration
    runs event' c registration other hinvoked hmem := by
      have hruns := h.runs _ _ _ other hinvoked hmem
      rw [hway, runs_append, runs_cons] at hruns
      rw [runs_append]
      exact hruns.imp_right fun hruns => hruns.resolve_left nofun
    own := h.own
    made_data := h.made_data
    made_invoked := h.made_invoked
    made_waiting w hmem := h.made_waiting w (hwaiting ▸ hmem) }

theorem Tracked.change (h : Tracked s) (hchange : Change s s') : Tracked s' := by
  cases hchange with
  | callback event c => exact h.callback event c
  | once event c => exact h.registerOnce event c
  | removed data hdata => exact h.removed hdata
  | begun t event copy hnodup hcopy hapart => exact h.begun t hnodup hcopy hapart
  | invoked t event listener pending before after hway => exact h.invoked hway
  | ended t event listener pending before rest after hway hrest => exact h.ended hway hrest
  | finished t event before after hway => exact h.finished hway

/-- If notifications begin apart, a callback given to `register_once` is invoked at most
once and is not registered afterwards. -/
theorem atMostOnce_of_apart [DecidableEq T] (h : (machine T E C).Reaches Apart s) :
    AtMostOnce s := by
  refine Tracked.atMostOnce (h.invariant ?_ ?_)
  · rintro s rfl
    exact tracked_start
  · rintro s ⟨t, a⟩ s' htracked hapart hstep
    exact htracked.change (change_of_step hapart hstep)

instance (s : State T E C) (act : T × Act E C) : Decidable (Apart s act) :=
  match act with
  | (_, .notify _ _) =>
      @Finset.decidableDforallFinset _ _ _ fun w _ =>
        match w with
        | .callback _ => .isTrue trivial
        | .wrapper .. => inferInstanceAs (Decidable (_ ∧ _))
  | (_, .register ..) | (_, .registerOnce ..) | (_, .unregister ..) | (_, .clear _) | (_, .invoke)
  | (_, .ends) | (_, .aborts) | (_, .finish) => .isTrue trivial

/-- Two notifications, one after the other. -/
def oneByOne : List (ℕ × Act ℕ ℕ) :=
  [(0, .registerOnce 5 7), (0, .notify 5 [.wrapper 5 7 0]), (0, .invoke), (0, .ends), (0, .finish),
    (0, .notify 5 []), (0, .finish)]

/-- The wrapper is invoked by the first of two notifications and not by the second. -/
theorem atMostOnce_oneByOne :
    ∃ s, (machine ℕ ℕ ℕ).run ⟨fun _ => ∅, 0, [], []⟩ oneByOne = some s ∧
      s.invoked = [.wrapper 5 7 0] ∧ AtMostOnce s := by
  refine ⟨_, rfl, rfl, atMostOnce_of_apart ?_⟩
  have hpasses : (machine ℕ ℕ ℕ).passes (fun s act => decide (Apart s act))
      ⟨fun _ => ∅, 0, [], []⟩ oneByOne = true := by decide
  exact Machine.Reaches.of_passes (fun _ _ => of_decide_eq_true) (.start rfl) hpasses rfl

/-- A callback given to `register_once` notifies of its own event. -/
theorem not_atMostOnce_nested :
    ∃ s, (machine ℕ ℕ ℕ).run ⟨fun _ => ∅, 0, [], []⟩
        [(0, .registerOnce 5 7), (0, .notify 5 [.wrapper 5 7 0]), (0, .invoke),
          (0, .notify 5 [.wrapper 5 7 0]), (0, .invoke)] = some s ∧ ¬ AtMostOnce s := by
  refine ⟨_, rfl, fun honce => ?_⟩
  exact absurd (honce 5 7 0).1 (by decide)

end RpcProject.Client.EventNotifier
