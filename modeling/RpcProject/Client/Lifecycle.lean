/-
# The lifecycle of clients

The client manager keeps a registry of clients by their id and tells listeners what
it registers and unregisters. A client that `create` has built tells the manager when
it terminates: when one of its calls finds the connection lost, and at the end of
`close`. The manager then takes the entry under the client's id out of the registry,
as `remove` does. Either way the listeners are told, with or without an entry.

The log of a state holds what the listeners have been told. An entry of the registry
remembers its client and its registration, and an event of the log what was taken out
and at whose request, so that the law can be stated: an id is unregistered only when
there was an entry, no registration is taken out twice, and a client that terminates
takes out no other client. It holds as long as each `remove` names an id that is
registered, a client terminates while it is itself registered under its id, and no
`close` finds the connection lost.
-/

import Mathlib.Data.List.Sort
import Mathlib.Logic.Function.Basic
import RpcProject.Foundations.DictWrites
import RpcProject.Foundations.Machine

namespace RpcProject.Client

open Foundations

/-! ## The machine -/

/-- An entry of the registry. Clients are numbered as they are built, registrations as
they are made. -/
structure RegistryEntry where
  client : ℕ
  registration : ℕ
  deriving DecidableEq, Repr

/-- Who has an id unregistered. -/
inductive Cause
  | removal
  | termination (client : ℕ)
  deriving DecidableEq, Repr

/-- What the listeners of the manager are told. -/
inductive ManagerNotice
  | registered (cid client : ℕ) (internal : Bool)
  /-- `removed` is what was taken out of the registry -/
  | unregistered (cid : ℕ) (removed : Option RegistryEntry) (cause : Cause)
  | cleared
  deriving DecidableEq, Repr

/-- The manager, and how far its `clear` has got in each task. -/
structure LifecycleState where
  clients : Dict ℕ RegistryEntry
  /-- the ids of the clients built so far -/
  ids : List ℕ
  /-- the clients whose termination the manager is told -/
  observed : List ℕ
  registrations : ℕ
  /-- the clients that each `close_all` under way has still to close -/
  closing : ℕ → Option (List ℕ)
  log : List ManagerNotice

/-- What happens to a manager and its clients. -/
inductive LifecycleEvent
  | build (cid : ℕ)
  /-- the end of `create` -/
  | manage (client : ℕ) (internal : Bool)
  | add (client : ℕ) (internal : Bool)
  | remove (cid : ℕ)
  | clear
  /-- a call of the client raises `ConnectionError` -/
  | callFails (client : ℕ)
  | close (client : ℕ) (lost : Bool)
  | closeAll (task : ℕ)
  | closeNext (task : ℕ) (lost : Bool)
  | closeAllEnds (task : ℕ)
  deriving DecidableEq, Repr

namespace LifecycleState

/-- A manager without clients. -/
def init : LifecycleState := ⟨∅, [], [], 0, fun _ => none, []⟩

/-- `Registry.register`, which raises if there is an entry under the id. -/
def register (s : LifecycleState) (cid client : ℕ) (internal : Bool) : LifecycleState :=
  if cid ∈ s.clients then s
  else
    { s with
      clients := s.clients.insert cid ⟨client, s.registrations⟩
      registrations := s.registrations + 1
      log := s.log ++ [.registered cid client internal] }

/-- `Registry.unregister`. -/
def unregister (s : LifecycleState) (cid : ℕ) (cause : Cause) : LifecycleState :=
  { s with
    clients := s.clients.erase cid
    log := s.log ++ [.unregistered cid (s.clients.lookup cid) cause] }

/-- `Registry.clear`. -/
def clear (s : LifecycleState) : LifecycleState :=
  { s with clients := ∅, log := s.log ++ [.cleared] }

/-- A client notifies `TERMINATED`. -/
def terminate (s : LifecycleState) (client cid : ℕ) : LifecycleState :=
  if client ∈ s.observed then s.unregister cid (.termination client) else s

/-- `CoreClient.close`, where the last call may find the connection lost. -/
def close (s : LifecycleState) (client cid : ℕ) (lost : Bool) : LifecycleState :=
  -- a call that finds the connection lost notifies, and `close` does so at its end
  if lost then (s.terminate client cid).terminate client cid else s.terminate client cid

/-- The clients of the registry, by their ids. -/
def listClients (s : LifecycleState) : List ℕ :=
  (s.clients.entries.insertionSort fun a b => a.1 ≤ b.1).map fun entry => entry.2.client

/-- The `clear` of one task goes on. -/
def setClosing (s : LifecycleState) (task : ℕ) (clients : Option (List ℕ)) : LifecycleState :=
  { s with closing := Function.update s.closing task clients }

end LifecycleState

/-- What each event does. -/
def lifecycleStep (s : LifecycleState) : LifecycleEvent → Option LifecycleState
  | .build cid => some { s with ids := s.ids ++ [cid] }
  | .manage client internal =>
      s.ids[client]?.map fun cid =>
        { s with observed := client :: s.observed }.register cid client internal
  | .add client internal => s.ids[client]?.map fun cid => s.register cid client internal
  | .remove cid => some (s.unregister cid .removal)
  | .clear => some s.clear
  | .callFails client => s.ids[client]?.map fun cid => s.terminate client cid
  | .close client lost => s.ids[client]?.map fun cid => s.close client cid lost
  | .closeAll task =>
      match s.closing task with
      | some _ => none
      -- the clients are listed once, before the first of them is closed
      | none => some (s.setClosing task (some s.listClients))
  | .closeNext task lost =>
      match s.closing task with
      | some (client :: rest) =>
          s.ids[client]?.map fun cid => (s.setClosing task (some rest)).close client cid lost
      | _ => none
  | .closeAllEnds task =>
      match s.closing task with
      | some [] => some (s.setClosing task none).clear
      | _ => none

/-- The runs of a manager. -/
def lifecycle : Machine LifecycleState LifecycleEvent where
  start s := s = .init
  step := lifecycleStep

variable {s t : LifecycleState} {event : LifecycleEvent} {cid client task : ℕ}
  {entry : RegistryEntry}
  {cause : Cause} {internal lost : Bool}

/-! ## The law -/

/-- The registration that a notice says to have been taken out. -/
def ManagerNotice.taken : ManagerNotice → Option ℕ
  | unregistered _ (some entry) _ => some entry.registration
  | _ => none

/-- All registrations that have been taken out. -/
def LifecycleState.taken (s : LifecycleState) : List ℕ := s.log.filterMap ManagerNotice.taken

/-- An id is unregistered only when an entry has been taken out, each registration at
most once, and a client that terminates takes out its own. -/
structure NoticesMatch (s : LifecycleState) : Prop where
  removed : ∀ cid cause, .unregistered cid none cause ∉ s.log
  once : s.taken.Nodup
  own : ∀ cid entry client,
    .unregistered cid (some entry) (.termination client) ∈ s.log → entry.client = client

/-- A client that the manager observes terminates only while it is registered. -/
def Registered (s : LifecycleState) (client : ℕ) : Prop :=
  ∀ cid ∈ s.ids[client]?, client ∈ s.observed →
    ∃ entry ∈ s.clients.lookup cid, entry.client = client

instance (s : LifecycleState) (client : ℕ) : Decidable (Registered s client) :=
  inferInstanceAs (Decidable (∀ _ ∈ _, _))

/-- The same for a client that is closed, and it does not find the connection lost. -/
def ClosedInOrder (s : LifecycleState) (client : ℕ) (lost : Bool) : Prop :=
  Registered s client ∧ (client ∈ s.observed → lost = false)

instance (s : LifecycleState) (client : ℕ) (lost : Bool) :
    Decidable (ClosedInOrder s client lost) :=
  inferInstanceAs (Decidable (_ ∧ _))

/-- The discipline of a step. -/
def InOrder (s : LifecycleState) : LifecycleEvent → Prop
  | .remove cid => cid ∈ s.clients
  | .callFails client => Registered s client
  | .close client lost => ClosedInOrder s client lost
  | .closeNext task lost => ∀ clients ∈ s.closing task, ∀ client ∈ clients.head?,
      ClosedInOrder s client lost
  | _ => True

instance (s : LifecycleState) : (event : LifecycleEvent) → Decidable (InOrder s event)
  | .remove cid => inferInstanceAs (Decidable (cid ∈ s.clients))
  | .callFails client => inferInstanceAs (Decidable (Registered s client))
  | .close client lost => inferInstanceAs (Decidable (ClosedInOrder s client lost))
  | .closeNext task lost => inferInstanceAs
      (Decidable (∀ clients ∈ s.closing task, ∀ client ∈ clients.head?,
        ClosedInOrder s client lost))
  | .build _ | .manage _ _ | .add _ _ | .clear | .closeAll _ | .closeAllEnds _ =>
      inferInstanceAs (Decidable True)

/-- The registrations in the registry are different, and none of them has been taken out. -/
structure Accounted (s : LifecycleState) : Prop where
  notices : NoticesMatch s
  entries : ∀ cid entry, s.clients.lookup cid = some entry →
    entry.registration < s.registrations ∧ entry.registration ∉ s.taken
  distinct : ∀ cid cid' entry entry', s.clients.lookup cid = some entry →
    s.clients.lookup cid' = some entry' → entry.registration = entry'.registration → cid = cid'
  taken : ∀ registration ∈ s.taken, registration < s.registrations

theorem accounted_init : Accounted .init where
  notices := ⟨fun _ _ => List.not_mem_nil, List.nodup_nil, fun _ _ _ h => absurd h List.not_mem_nil⟩
  entries cid entry h := by rw [LifecycleState.init, AList.lookup_empty] at h; cases h
  distinct cid _ entry _ h := by rw [LifecycleState.init, AList.lookup_empty] at h; cases h
  taken _ h := absurd h List.not_mem_nil

/-- What else changes in a state does not matter. -/
theorem Accounted.congr (h : Accounted s) (hclients : t.clients = s.clients)
    (hregistrations : t.registrations = s.registrations) (hlog : t.log = s.log) : Accounted t := by
  have htaken : t.taken = s.taken := by rw [LifecycleState.taken, LifecycleState.taken, hlog]
  refine ⟨⟨?_, ?_, ?_⟩, ?_, ?_, ?_⟩
  · rw [hlog]; exact h.notices.removed
  · rw [htaken]; exact h.notices.once
  · rw [hlog]; exact h.notices.own
  · rw [hclients, hregistrations, htaken]; exact h.entries
  · rw [hclients]; exact h.distinct
  · rw [hregistrations, htaken]; exact h.taken

/-- A client that is registered is accounted for. -/
theorem Accounted.register (h : Accounted s) (cid client : ℕ) (internal : Bool) :
    Accounted (s.register cid client internal) := by
  rw [LifecycleState.register]
  split
  · exact h
  · have htaken : LifecycleState.taken { s with
        clients := s.clients.insert cid ⟨client, s.registrations⟩
        registrations := s.registrations + 1
        log := s.log ++ [.registered cid client internal] } = s.taken := by
      simp [LifecycleState.taken, ManagerNotice.taken]
    refine ⟨⟨?_, ?_, ?_⟩, ?_, ?_, ?_⟩
    · intro cid' cause hmem
      exact h.notices.removed cid' cause (by simpa using hmem)
    · rw [htaken]; exact h.notices.once
    · intro cid' entry client' hmem
      exact h.notices.own cid' entry client' (by simpa using hmem)
    · intro cid' entry hlookup
      rw [htaken]
      by_cases hcid : cid' = cid
      · -- the new entry has the next number, which no notice and no entry has
        subst hcid
        rw [AList.lookup_insert] at hlookup
        obtain rfl := Option.some.inj hlookup
        exact ⟨Nat.lt_succ_self _, fun hmem => (h.taken _ hmem).false⟩
      · rw [AList.lookup_insert_ne hcid] at hlookup
        exact ⟨Nat.lt_succ_of_lt (h.entries cid' entry hlookup).1, (h.entries cid' entry hlookup).2⟩
    · intro cid₁ cid₂ entry₁ entry₂ h₁ h₂ heq
      by_cases hcid₁ : cid₁ = cid <;> by_cases hcid₂ : cid₂ = cid
      · rw [hcid₁, hcid₂]
      · -- the new entry and an old one differ in their numbers
        rw [hcid₁, AList.lookup_insert] at h₁
        rw [AList.lookup_insert_ne hcid₂] at h₂
        have hlt := (h.entries cid₂ entry₂ h₂).1
        rw [← heq, ← Option.some.inj h₁] at hlt
        exact absurd hlt (lt_irrefl _)
      · rw [AList.lookup_insert_ne hcid₁] at h₁
        rw [hcid₂, AList.lookup_insert] at h₂
        have hlt := (h.entries cid₁ entry₁ h₁).1
        rw [heq, ← Option.some.inj h₂] at hlt
        exact absurd hlt (lt_irrefl _)
      · rw [AList.lookup_insert_ne hcid₁] at h₁
        rw [AList.lookup_insert_ne hcid₂] at h₂
        exact h.distinct cid₁ cid₂ entry₁ entry₂ h₁ h₂ heq
    · intro registration hmem
      rw [htaken] at hmem
      exact Nat.lt_succ_of_lt (h.taken registration hmem)

/-- An entry is taken out, by its own client if that has terminated. -/
theorem Accounted.unregister (h : Accounted s) (hlookup : s.clients.lookup cid = some entry)
    (hcause : ∀ client, cause = .termination client → entry.client = client) :
    Accounted (s.unregister cid cause) := by
  have htaken : (s.unregister cid cause).taken = s.taken ++ [entry.registration] := by
    simp [LifecycleState.taken, LifecycleState.unregister, hlookup, ManagerNotice.taken]
  have hentry := h.entries cid entry hlookup
  have hold : ∀ cid' entry', (s.unregister cid cause).clients.lookup cid' = some entry' →
      cid' ≠ cid ∧ s.clients.lookup cid' = some entry' :=
    fun _ _ hentry' => Dict.lookup_of_erase hentry'
  refine ⟨⟨?_, ?_, ?_⟩, ?_, ?_, ?_⟩
  · intro cid' cause' hmem
    exact h.notices.removed cid' cause' (by simpa [LifecycleState.unregister, hlookup] using hmem)
  · rw [htaken]
    exact List.nodup_append'.mpr ⟨h.notices.once, List.nodup_singleton _,
      List.disjoint_singleton.mpr hentry.2⟩
  · intro cid' entry' client' hmem
    rcases List.mem_append.mp hmem with hmem | hmem
    · exact h.notices.own cid' entry' client' hmem
    · rw [List.mem_singleton, hlookup] at hmem
      injection hmem with _ hremoved hcause'
      obtain rfl := Option.some.inj hremoved
      exact hcause client' hcause'.symm
  · intro cid' entry' hentry'
    obtain ⟨hne, hentry'⟩ := hold cid' entry' hentry'
    refine ⟨(h.entries cid' entry' hentry').1, ?_⟩
    rw [htaken, List.mem_append, List.mem_singleton, not_or]
    -- another entry with the same registration would be under the same id
    exact ⟨(h.entries cid' entry' hentry').2, fun heq =>
      hne (h.distinct cid' cid entry' entry hentry' hlookup heq)⟩
  · intro cid₁ cid₂ entry₁ entry₂ h₁ h₂ heq
    exact h.distinct cid₁ cid₂ entry₁ entry₂ (hold _ _ h₁).2 (hold _ _ h₂).2 heq
  · intro registration hmem
    rw [htaken, List.mem_append, List.mem_singleton] at hmem
    rcases hmem with hmem | rfl
    · exact h.taken registration hmem
    · exact hentry.1

theorem Accounted.clear (h : Accounted s) : Accounted s.clear := by
  have htaken : s.clear.taken = s.taken := by
    simp [LifecycleState.taken, LifecycleState.clear, ManagerNotice.taken]
  refine ⟨⟨?_, ?_, ?_⟩, ?_, ?_, ?_⟩
  · intro cid cause hmem
    exact h.notices.removed cid cause (by simpa [LifecycleState.clear] using hmem)
  · rw [htaken]; exact h.notices.once
  · intro cid entry client hmem
    exact h.notices.own cid entry client (by simpa [LifecycleState.clear] using hmem)
  · intro cid entry hlookup
    rw [LifecycleState.clear, AList.lookup_empty] at hlookup
    cases hlookup
  · intro cid _ entry _ hlookup
    rw [LifecycleState.clear, AList.lookup_empty] at hlookup
    cases hlookup
  · rw [htaken]; exact h.taken

theorem Accounted.terminate (h : Accounted s) (hid : s.ids[client]? = some cid)
    (hregistered : Registered s client) : Accounted (s.terminate client cid) := by
  rw [LifecycleState.terminate]
  split
  · next hobserved =>
    obtain ⟨entry, hlookup, hclient⟩ := hregistered cid hid hobserved
    exact h.unregister hlookup fun _ hcause => by cases hcause; exact hclient
  · exact h

theorem Accounted.close (h : Accounted s) (hid : s.ids[client]? = some cid)
    (hclosed : ClosedInOrder s client lost) : Accounted (s.close client cid lost) := by
  rw [LifecycleState.close]
  by_cases hobserved : client ∈ s.observed
  · rw [hclosed.2 hobserved, if_neg Bool.false_ne_true]
    exact h.terminate hid hclosed.1
  · -- nobody is told
    have hsame : s.terminate client cid = s := if_neg hobserved
    rw [hsame, hsame, ite_self]
    exact h

/-- Every event in order keeps the account. -/
theorem Accounted.step (h : Accounted s) (horder : InOrder s event)
    (hstep : lifecycleStep s event = some t) : Accounted t := by
  cases event with
  | build cid =>
    obtain rfl := Option.some.inj hstep
    exact h.congr rfl rfl rfl
  | manage client internal =>
    obtain ⟨cid, -, rfl⟩ := Option.map_eq_some_iff.mp hstep
    have hobserved : Accounted { s with observed := client :: s.observed } := h.congr rfl rfl rfl
    exact hobserved.register cid client internal
  | add client internal =>
    obtain ⟨cid, -, rfl⟩ := Option.map_eq_some_iff.mp hstep
    exact h.register cid client internal
  | remove cid =>
    obtain rfl := Option.some.inj hstep
    obtain ⟨entry, hlookup⟩ := Dict.exists_lookup horder
    exact h.unregister hlookup fun _ hcause => by cases hcause
  | clear =>
    obtain rfl := Option.some.inj hstep
    exact h.clear
  | callFails client =>
    obtain ⟨cid, hid, rfl⟩ := Option.map_eq_some_iff.mp hstep
    exact h.terminate hid horder
  | close client lost =>
    obtain ⟨cid, hid, rfl⟩ := Option.map_eq_some_iff.mp hstep
    exact h.close hid horder
  | closeAll task =>
    rw [lifecycleStep] at hstep
    split at hstep
    · cases hstep
    · obtain rfl := Option.some.inj hstep
      exact h.congr rfl rfl rfl
  | closeNext task lost =>
    rw [lifecycleStep] at hstep
    split at hstep
    · next client rest hclosing =>
      obtain ⟨cid, hid, rfl⟩ := Option.map_eq_some_iff.mp hstep
      have hrest : Accounted (s.setClosing task (some rest)) := h.congr rfl rfl rfl
      exact hrest.close hid (horder _ hclosing client rfl)
    · cases hstep
  | closeAllEnds task =>
    rw [lifecycleStep] at hstep
    split at hstep
    · obtain rfl := Option.some.inj hstep
      have hrest : Accounted (s.setClosing task none) := h.congr rfl rfl rfl
      exact hrest.clear
    · cases hstep

/-- **Lifecycle events.** In every run in which each `remove` names an id that is
registered, each observed client terminates while it is registered under its id, and no
`close` finds the connection lost, the notices match the registry. -/
theorem noticesMatch_of_inOrder (h : lifecycle.Reaches InOrder s) : NoticesMatch s := by
  have haccounted : Accounted s :=
    h.invariant (fun s hs => by cases hs; exact accounted_init)
      fun s event t hs horder hstep => hs.step horder hstep
  exact haccounted.notices

/-- A client is built, registered and lost, and one that is registered later under its
id is closed with all others. -/
theorem noticesMatch_of_inOrder_reused :
    ∃ s, lifecycle.run .init [.build 5, .manage 0 false, .callFails 0, .build 5, .manage 1 true,
        .closeAll 0, .closeNext 0 false, .closeAllEnds 0] = some s ∧ NoticesMatch s := by
  obtain ⟨s, hs⟩ : ∃ s, lifecycle.run .init [.build 5, .manage 0 false, .callFails 0, .build 5,
      .manage 1 true, .closeAll 0, .closeNext 0 false, .closeAllEnds 0] = some s := ⟨_, rfl⟩
  have hstart : lifecycle.Reaches InOrder .init := .start rfl
  have hpasses : lifecycle.passes (fun s event => decide (InOrder s event)) .init [.build 5,
      .manage 0 false, .callFails 0, .build 5, .manage 1 true, .closeAll 0, .closeNext 0 false,
      .closeAllEnds 0] = true := by decide
  exact ⟨s, hs, noticesMatch_of_inOrder
    (hstart.of_passes (fun _ _ => of_decide_eq_true) hpasses hs)⟩

/-- A client is closed after its connection was lost, so it terminates twice. And a client
that was removed terminates when another one is registered under its id. -/
theorem not_noticesMatch_terminated :
    (∃ s, lifecycle.run .init [.build 5, .manage 0 false, .close 0 true] = some s ∧
      .unregistered 5 none (.termination 0) ∈ s.log ∧ ¬NoticesMatch s) ∧
    ∃ s, lifecycle.run .init [.build 5, .manage 0 false, .remove 5, .build 5, .manage 1 false,
        .callFails 0] = some s ∧
      .unregistered 5 (some ⟨1, 1⟩) (.termination 0) ∈ s.log ∧ ¬NoticesMatch s := by
  refine ⟨⟨_, rfl, by decide, fun h => ?_⟩, ⟨_, rfl, by decide, fun h => ?_⟩⟩
  · exact h.removed 5 (.termination 0) (by decide)
  · exact absurd (h.own 5 ⟨1, 1⟩ 0 (by decide)) (by decide)

end RpcProject.Client
