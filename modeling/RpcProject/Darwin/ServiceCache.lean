/-
# The connections to XPC services

`Xpc._connect_to_mach_service` keeps the connection to each service. It looks for the
service once, and then awaits four times (the new connection, a dummy block, the call that
installs the block as the event handler, and the call that resumes the connection) before
it keeps what it has made. Calls for one service that overlap in that time make a
connection each, and the last of them to end keeps its own.

From which moment on do all calls agree? When a connection is kept and no call for its
service is under way, and at no earlier moment.
-/

import Mathlib.Data.Fintype.EquivFin
import RpcProject.Foundations.Memo

namespace RpcProject.Darwin

open Foundations

/-- Where a call of `_connect_to_mach_service` stands: what it awaits, and how it ended.
Getting the dummy block is several calls of the server, none of which touches what the
client keeps. -/
inductive Connecting
  | creating (service : String)
  | fetchingBlock (service : String) (conn : ℕ)
  | installing (service : String) (conn : ℕ)
  | resuming (service : String) (conn : ℕ)
  | returned (service : String) (conn : ℕ)
  | raised (service : String)
  deriving DecidableEq

namespace Connecting

/-- The service that a call is for. -/
def service : Connecting → String
  | creating service | fetchingBlock service _ | installing service _ | resuming service _
  | returned service _ | raised service => service

/-- The call has neither returned nor raised. -/
def UnderWay : Connecting → Prop
  | creating _ | fetchingBlock _ _ | installing _ _ | resuming _ _ => True
  | returned _ _ | raised _ => False

instance : DecidablePred UnderWay := fun call => by
  cases call <;> simp only [UnderWay] <;> infer_instance

/-- The connection that a call under way has made. -/
def held : Connecting → Option ℕ
  | fetchingBlock _ conn | installing _ conn | resuming _ conn => some conn
  | creating _ | returned _ _ | raised _ => none

/-- A call, as a call for a cell. -/
def computation : Connecting → Computation String ℕ
  | creating service | fetchingBlock service _ | installing service _ | resuming service _ =>
      .computing service
  | returned service conn => .returned service conn
  | raised service => .raised service

end Connecting

/-- The connections at the host. -/
structure XpcHost where
  made : List (ℕ × String)
  /-- the connections with an event handler -/
  handled : List ℕ
  resumed : List ℕ

namespace XpcHost

/-- Connections that have not been released have different addresses. -/
def Fresh (host : XpcHost) (conn : ℕ) : Prop := conn ∉ host.made.map Prod.fst

instance (host : XpcHost) (conn : ℕ) : Decidable (host.Fresh conn) := by
  unfold Fresh
  infer_instance

/-- A connection is made, -/
def make (conn : ℕ) (service : String) (host : XpcHost) : XpcHost :=
  { host with made := (conn, service) :: host.made }

/-- gets its handler -/
def setEventHandler (conn : ℕ) (host : XpcHost) : XpcHost :=
  { host with handled := conn :: host.handled }

/-- and is resumed. -/
def resume (conn : ℕ) (host : XpcHost) : XpcHost :=
  { host with resumed := conn :: host.resumed }

end XpcHost

/-- The kept connections, every call so far, and the host. -/
structure Xpc where
  serviceCache : String → Option ℕ
  calls : List Connecting
  host : XpcHost

/-- What the calls do, and what else happens to the host. -/
inductive XpcEvent
  | call (service : String)
  /-- `xpc_connection_create_mach_service` returns to the call -/
  | created (i : ℕ) (conn : ℕ)
  /-- what the call awaits, other than its connection, returns -/
  | answered (i : ℕ)
  /-- what the call awaits raises, or the call is cancelled -/
  | fails (i : ℕ)
  /-- a connection is made that no call learns of -/
  | madeElsewhere (conn : ℕ) (service : String)

namespace Xpc

/-- What each event does. -/
def step (s : Xpc) : XpcEvent → Option Xpc
  | .call service =>
      match s.serviceCache service with
      | some conn => some { s with calls := s.calls ++ [.returned service conn] }
      | none => some { s with calls := s.calls ++ [.creating service] }
  | .created i conn =>
      match s.calls[i]? with
      | some (.creating service) =>
          if conn = 0 then
            -- `BadReturnValueError`
            some { s with calls := s.calls.set i (.raised service) }
          else if s.host.Fresh conn then
            some { s with
              host := s.host.make conn service
              calls := s.calls.set i (.fetchingBlock service conn) }
          else none
      | _ => none
  | .answered i =>
      match s.calls[i]? with
      | some (.fetchingBlock service conn) =>
          some { s with calls := s.calls.set i (.installing service conn) }
      | some (.installing service conn) =>
          some { s with
            host := s.host.setEventHandler conn
            calls := s.calls.set i (.resuming service conn) }
      | some (.resuming service conn) =>
          some { s with
            host := s.host.resume conn
            serviceCache := Function.update s.serviceCache service (some conn)
            calls := s.calls.set i (.returned service conn) }
      | _ => none
  | .fails i =>
      match s.calls[i]? with
      | some call =>
          if call.UnderWay then some { s with calls := s.calls.set i (.raised call.service) }
          else none
      | none => none
  | .madeElsewhere conn service =>
      if s.host.Fresh conn then some { s with host := s.host.make conn service } else none

end Xpc

/-- The runs of the calls of a client. -/
def xpc : Machine Xpc XpcEvent where
  start s := s = ⟨fun _ => none, [], ⟨[], [], []⟩⟩
  step := Xpc.step

namespace Xpc

variable {s t : Xpc} {event : XpcEvent} {service : String} {conn i : ℕ}

/-- What a step can do. -/
inductive Moves (s : Xpc) : Xpc → Prop
  | kept {service : String} {conn : ℕ} (hcache : s.serviceCache service = some conn) :
      Moves s { s with calls := s.calls ++ [.returned service conn] }
  | starts {service : String} (hcache : s.serviceCache service = none) :
      Moves s { s with calls := s.calls ++ [.creating service] }
  | made {i conn : ℕ} {service : String} (hi : s.calls[i]? = some (.creating service))
      (hnull : conn ≠ 0) (hfresh : s.host.Fresh conn) :
      Moves s { s with
        host := s.host.make conn service
        calls := s.calls.set i (.fetchingBlock service conn) }
  | fetched {i conn : ℕ} {service : String}
      (hi : s.calls[i]? = some (.fetchingBlock service conn)) :
      Moves s { s with calls := s.calls.set i (.installing service conn) }
  | installed {i conn : ℕ} {service : String} (hi : s.calls[i]? = some (.installing service conn)) :
      Moves s { s with
        host := s.host.setEventHandler conn
        calls := s.calls.set i (.resuming service conn) }
  | keeps {i conn : ℕ} {service : String} (hi : s.calls[i]? = some (.resuming service conn)) :
      Moves s { s with
        host := s.host.resume conn
        serviceCache := Function.update s.serviceCache service (some conn)
        calls := s.calls.set i (.returned service conn) }
  | fails {i : ℕ} {call : Connecting} (hi : s.calls[i]? = some call) (hway : call.UnderWay) :
      Moves s { s with calls := s.calls.set i (.raised call.service) }
  | elsewhere {conn : ℕ} {service : String} (hfresh : s.host.Fresh conn) :
      Moves s { s with host := s.host.make conn service }

theorem step_moves (h : s.step event = some t) : s.Moves t := by
  cases event with
  | call service =>
    simp only [step] at h
    cases hcache : s.serviceCache service with
    | some conn =>
      rw [hcache] at h
      exact Option.some.inj h ▸ .kept hcache
    | none =>
      rw [hcache] at h
      exact Option.some.inj h ▸ .starts hcache
  | created i conn =>
    simp only [step] at h
    split at h
    · next service hi =>
      split_ifs at h with hnull hfresh
      · exact Option.some.inj h ▸ .fails hi trivial
      · exact Option.some.inj h ▸ .made hi hnull hfresh
    · cases h
  | answered i =>
    simp only [step] at h
    split at h
    · next service conn hi => exact Option.some.inj h ▸ .fetched hi
    · next service conn hi => exact Option.some.inj h ▸ .installed hi
    · next service conn hi => exact Option.some.inj h ▸ .keeps hi
    · cases h
  | fails i =>
    simp only [step] at h
    split at h
    · next call hi =>
      split_ifs at h with hway
      exact Option.some.inj h ▸ .fails hi hway
    · cases h
  | madeElsewhere conn service =>
    simp only [step] at h
    split_ifs at h with hfresh
    exact Option.some.inj h ▸ .elsewhere hfresh

/-! ## The cells of the cache -/

/-- The calls as computations of a memoised function. -/
def memo (s : Xpc) : Memo String ℕ := ⟨s.serviceCache, s.calls.map Connecting.computation⟩

/-- A call is computed as its state tells. -/
theorem memo_calls_of {call : Connecting} (h : s.calls[i]? = some call) :
    s.memo.calls[i]? = some call.computation := by
  rw [memo, List.getElem?_map, h, Option.map_some]

/-- A call under way that stays under way does nothing to the cells. -/
theorem memo_calls_set {call call' : Connecting} (h : s.calls[i]? = some call)
    (heq : call'.computation = call.computation) :
    (s.calls.set i call').map Connecting.computation = s.calls.map Connecting.computation := by
  obtain ⟨hlt, hget⟩ := List.getElem?_eq_some_iff.mp (memo_calls_of h)
  rw [List.map_set, heq, ← hget]
  exact List.set_getElem_self hlt

/-- The connections are cells that calls fill: a step is a step of the cells, or none. -/
theorem step_memo (h : s.step event = some t) :
    t.memo = s.memo ∨ ∃ action, Memo.machine.step s.memo action = some t.memo := by
  cases step_moves h with
  | @kept service conn hcache =>
    refine Or.inr ⟨.ask service, ?_⟩
    simp [Memo.machine, Memo.step, memo, hcache, Connecting.computation]
  | @starts service hcache =>
    refine Or.inr ⟨.ask service, ?_⟩
    simp [Memo.machine, Memo.step, memo, hcache, Connecting.computation]
  | made hi => exact Or.inl (congrArg (Memo.mk _) (memo_calls_set hi rfl))
  | fetched hi => exact Or.inl (congrArg (Memo.mk _) (memo_calls_set hi rfl))
  | installed hi => exact Or.inl (congrArg (Memo.mk _) (memo_calls_set hi rfl))
  | @keeps i conn service hi =>
    refine Or.inr ⟨.fill i conn, ?_⟩
    simp [Memo.machine, Memo.step, memo, hi, Connecting.computation, List.map_set]
  | @fails i call hi hway =>
    refine Or.inr ⟨.fail i, ?_⟩
    cases call <;>
      simp_all [Memo.machine, Memo.step, memo, Connecting.computation, List.map_set,
        Connecting.UnderWay, Connecting.service]
  | elsewhere => exact Or.inl rfl

/-- No call for the service is under way. -/
def Quiet (s : Xpc) (service : String) : Prop :=
  ∀ call ∈ s.calls, call.service = service → ¬call.UnderWay

instance (s : Xpc) (service : String) : Decidable (s.Quiet service) := by
  unfold Quiet
  infer_instance

/-- What is being computed is under way. -/
theorem computation_eq_computing {call : Connecting} (h : call.computation = .computing service) :
    call.UnderWay ∧ call.service = service := by
  cases call <;> cases h <;> exact ⟨trivial, rfl⟩

/-- No computation for a service is under way when its calls are quiet. -/
theorem memo_idle (h : s.Quiet service) : s.memo.Idle service := by
  intro i hi
  rw [memo, List.getElem?_map] at hi
  obtain ⟨call, hcall, hcomputing⟩ := Option.map_eq_some_iff.mp hi
  obtain ⟨hway, hservice⟩ := computation_eq_computing hcomputing
  exact h call (List.mem_of_getElem? hcall) hservice hway

/-- Whatever happens from here on, the calls for the service that have not returned yet,
and all later ones, return the connection if they return one. -/
def Settled (s : Xpc) (service : String) (conn : ℕ) : Prop :=
  ∀ events t, xpc.run s events = some t →
    ∀ (i : ℕ) conn', t.calls[i]? = some (.returned service conn') →
      s.calls[i]? = some (.returned service conn') ∨ conn' = conn

/-- What the computation has returned the call has. -/
theorem calls_of_memo {conn' : ℕ} (h : s.memo.calls[i]? = some (.returned service conn')) :
    s.calls[i]? = some (.returned service conn') := by
  rw [memo, List.getElem?_map] at h
  obtain ⟨call, hcall, hreturned⟩ := Option.map_eq_some_iff.mp h
  cases call <;> cases hreturned
  exact hcall

/-- What is kept while the calls are quiet is settled. -/
theorem settled_of_quiet (hcache : s.serviceCache service = some conn) (hquiet : s.Quiet service) :
    s.Settled service conn := by
  intro events t hrun i conn' hi
  obtain ⟨actions, hmemo⟩ :=
    Machine.run_matched (N := Memo.machine) memo (fun _ _ _ => step_memo) hrun
  have hfixed : s.memo.Fixed service conn := ⟨hcache, memo_idle hquiet⟩
  exact (hfixed.run hmemo (memo_calls_of hi)).imp_left calls_of_memo

/-! ## What has been done to a connection -/

end Xpc

namespace XpcHost

variable {host host' : XpcHost} {service : String} {conn : ℕ}

/-- The connection was made for the service, has a handler and has been resumed. -/
structure Ready (host : XpcHost) (service : String) (conn : ℕ) : Prop where
  ne_zero : conn ≠ 0
  made : (conn, service) ∈ host.made
  handled : conn ∈ host.handled
  resumed : conn ∈ host.resumed

/-- What a call has done to the connection that it holds or returns. -/
def Treated (host : XpcHost) : Connecting → Prop
  | .creating _ | .raised _ => True
  | .fetchingBlock service conn | .installing service conn => conn ≠ 0 ∧ (conn, service) ∈ host.made
  | .resuming service conn => conn ≠ 0 ∧ (conn, service) ∈ host.made ∧ conn ∈ host.handled
  | .returned service conn => host.Ready service conn

/-- Nothing done to a connection is undone. -/
structure Grows (host host' : XpcHost) : Prop where
  made : host.made ⊆ host'.made
  handled : host.handled ⊆ host'.handled
  resumed : host.resumed ⊆ host'.resumed

theorem grows_refl (host : XpcHost) : host.Grows host :=
  ⟨List.Subset.refl _, List.Subset.refl _, List.Subset.refl _⟩

theorem grows_make (host : XpcHost) (conn : ℕ) (service : String) :
    host.Grows (host.make conn service) :=
  ⟨List.subset_cons_self _ _, List.Subset.refl _, List.Subset.refl _⟩

theorem grows_setEventHandler (host : XpcHost) (conn : ℕ) :
    host.Grows (host.setEventHandler conn) :=
  ⟨List.Subset.refl _, List.subset_cons_self _ _, List.Subset.refl _⟩

theorem grows_resume (host : XpcHost) (conn : ℕ) : host.Grows (host.resume conn) :=
  ⟨List.Subset.refl _, List.Subset.refl _, List.subset_cons_self _ _⟩

/-- A connection that is ready stays ready. -/
theorem Ready.mono (h : host.Ready service conn) (hgrows : host.Grows host') :
    host'.Ready service conn :=
  ⟨h.ne_zero, hgrows.made h.made, hgrows.handled h.handled, hgrows.resumed h.resumed⟩

/-- What has been done for a call stays done. -/
theorem Treated.mono {call : Connecting} (h : host.Treated call) (hgrows : host.Grows host') :
    host'.Treated call := by
  cases call with
  | creating service => trivial
  | raised service => trivial
  | fetchingBlock service conn => exact ⟨h.1, hgrows.made h.2⟩
  | installing service conn => exact ⟨h.1, hgrows.made h.2⟩
  | resuming service conn => exact ⟨h.1, hgrows.made h.2.1, hgrows.handled h.2.2⟩
  | returned service conn => exact Ready.mono h hgrows

end XpcHost

namespace Xpc

variable {s t : Xpc} {event : XpcEvent} {service : String} {conn i : ℕ}

/-- Kept connections are ready, and calls do in order what they have to do. -/
structure Orderly (s : Xpc) : Prop where
  calls : ∀ call ∈ s.calls, s.host.Treated call
  kept : ∀ service conn, s.serviceCache service = some conn → s.host.Ready service conn

/-- Only what is new has to be looked at. -/
theorem Orderly.of_new (hs : s.Orderly) (hgrows : s.host.Grows t.host)
    (hcalls : ∀ call ∈ t.calls, call ∈ s.calls ∨ t.host.Treated call)
    (hkept : ∀ service conn, t.serviceCache service = some conn →
      s.serviceCache service = some conn ∨ t.host.Ready service conn) : t.Orderly where
  calls call hcall := (hcalls call hcall).elim (fun h => (hs.calls call h).mono hgrows) id
  kept service conn h :=
    (hkept service conn h).elim (fun h => (hs.kept service conn h).mono hgrows) id

theorem new_of_mem_append {call call' : Connecting} {P : Connecting → Prop} (hP : P call)
    (h : call' ∈ s.calls ++ [call]) : call' ∈ s.calls ∨ P call' :=
  (List.mem_append.mp h).imp_right fun h => by rwa [List.mem_singleton.mp h]

theorem new_of_mem_set {call call' : Connecting} {P : Connecting → Prop} (hP : P call)
    (h : call' ∈ s.calls.set i call) : call' ∈ s.calls ∨ P call' :=
  (List.mem_or_eq_of_mem_set h).imp_right fun h => by rwa [h]

/-- Every move keeps the order of a call's steps. -/
theorem Orderly.moves (hs : s.Orderly) (h : s.Moves t) : t.Orderly := by
  have htreated {i : ℕ} {call : Connecting} (hi : s.calls[i]? = some call) : s.host.Treated call :=
    hs.calls call (List.mem_of_getElem? hi)
  cases h with
  | @kept service conn hcache =>
    exact hs.of_new (XpcHost.grows_refl _)
      (fun _ => new_of_mem_append (P := s.host.Treated) (hs.kept service conn hcache))
      fun _ _ => Or.inl
  | starts hcache =>
    exact hs.of_new (XpcHost.grows_refl _)
      (fun _ => new_of_mem_append (P := s.host.Treated) trivial) fun _ _ => Or.inl
  | @made i conn service hi hnull hfresh =>
    exact hs.of_new (XpcHost.grows_make _ _ _)
      (fun _ => new_of_mem_set (P := (s.host.make conn service).Treated)
        ⟨hnull, List.mem_cons_self⟩) fun _ _ => Or.inl
  | @fetched i conn service hi =>
    have hmade : conn ≠ 0 ∧ (conn, service) ∈ s.host.made := htreated hi
    exact hs.of_new (XpcHost.grows_refl _)
      (fun _ => new_of_mem_set (P := s.host.Treated) hmade) fun _ _ => Or.inl
  | @installed i conn service hi =>
    obtain ⟨hnull, hmade⟩ := htreated hi
    exact hs.of_new (XpcHost.grows_setEventHandler _ _)
      (fun _ => new_of_mem_set (P := (s.host.setEventHandler conn).Treated)
        ⟨hnull, hmade, List.mem_cons_self⟩) fun _ _ => Or.inl
  | @keeps i conn service hi =>
    obtain ⟨hnull, hmade, hhandled⟩ := htreated hi
    have hready : (s.host.resume conn).Ready service conn :=
      ⟨hnull, hmade, hhandled, List.mem_cons_self⟩
    refine hs.of_new (XpcHost.grows_resume _ _)
      (fun _ => new_of_mem_set (P := (s.host.resume conn).Treated) hready)
      fun service' conn' hkept => ?_
    rcases eq_or_ne service' service with rfl | hne
    · have heq : conn = conn' := by simpa using hkept
      exact Or.inr (heq ▸ hready)
    · exact Or.inl ((Function.update_of_ne hne _ _).symm.trans hkept)
  | fails hi hway =>
    exact hs.of_new (XpcHost.grows_refl _)
      (fun _ => new_of_mem_set (P := s.host.Treated) trivial) fun _ _ => Or.inl
  | elsewhere hfresh =>
    exact hs.of_new (XpcHost.grows_make _ _ _) (fun _ => Or.inl) fun _ _ => Or.inl

/-! ## Whose a connection is -/

/-- The connection that a call holds. -/
def heldBy (s : Xpc) (i : ℕ) : Option ℕ := s.calls[i]?.bind Connecting.held

/-- No two calls hold one connection, and none holds a kept one. -/
structure Apart (s : Xpc) : Prop where
  one : ∀ i j conn, s.heldBy i = some conn → s.heldBy j = some conn → i = j
  unkept : ∀ i conn service, s.heldBy i = some conn → s.serviceCache service ≠ some conn

/-- A new call that holds nothing changes no holder. -/
theorem heldBy_append {call : Connecting} (hcall : call.held = none) {conn' : ℕ}
    (h : { s with calls := s.calls ++ [call] }.heldBy i = some conn') :
    s.heldBy i = some conn' := by
  obtain ⟨call', hi, hheld⟩ := Option.bind_eq_some_iff.mp h
  rcases Memo.getElem?_append_singleton hi with hi | heq
  · exact Option.bind_eq_some_iff.mpr ⟨call', hi, hheld⟩
  · rw [heq, hcall] at hheld
    cases hheld

/-- When a call goes on, the others hold what they held. -/
theorem heldBy_set {call : Connecting} {cache : String → Option ℕ} {host : XpcHost} {j conn' : ℕ}
    (h : Xpc.heldBy ⟨cache, s.calls.set i call, host⟩ j = some conn') :
    (i = j ∧ call.held = some conn') ∨ (i ≠ j ∧ s.heldBy j = some conn') := by
  obtain ⟨call', hj, hheld⟩ := Option.bind_eq_some_iff.mp h
  rcases eq_or_ne i j with rfl | hij
  · rw [List.getElem?_set_self'] at hj
    obtain ⟨_, _, rfl⟩ := Option.map_eq_some_iff.mp hj
    exact Or.inl ⟨rfl, hheld⟩
  · rw [List.getElem?_set_ne hij] at hj
    exact Or.inr ⟨hij, Option.bind_eq_some_iff.mpr ⟨call', hj, hheld⟩⟩

/-- A call that stays under way holds what it held. -/
theorem heldBy_set_of_eq {call call' : Connecting} {cache : String → Option ℕ} {host : XpcHost}
    {j conn' : ℕ} (hi : s.calls[i]? = some call)
    (hcall : ∀ conn, call'.held = some conn → call.held = some conn)
    (h : Xpc.heldBy ⟨cache, s.calls.set i call', host⟩ j = some conn') :
    s.heldBy j = some conn' := by
  rcases heldBy_set h with ⟨rfl, hheld⟩ | ⟨-, hheld⟩
  · exact Option.bind_eq_some_iff.mpr ⟨call, hi, hcall conn' hheld⟩
  · exact hheld

theorem Apart.of_subset (hs : s.Apart) (hcache : t.serviceCache = s.serviceCache)
    (hheld : ∀ i conn, t.heldBy i = some conn → s.heldBy i = some conn) : t.Apart where
  one i j conn hi hj := hs.one i j conn (hheld i conn hi) (hheld j conn hj)
  unkept i conn service hi := hcache ▸ hs.unkept i conn service (hheld i conn hi)

/-- A connection that is held has been made. -/
theorem Orderly.not_fresh_of_heldBy (hs : s.Orderly) (h : s.heldBy i = some conn) :
    ¬s.host.Fresh conn := by
  obtain ⟨call, hi, hheld⟩ := Option.bind_eq_some_iff.mp h
  have htreated : s.host.Treated call := hs.calls call (List.mem_of_getElem? hi)
  refine not_not_intro (List.mem_map.mpr ⟨(conn, call.service), ?_, rfl⟩)
  cases call <;> cases hheld
  · exact htreated.2
  · exact htreated.2
  · exact htreated.2.1

/-- Every move keeps the connections of calls apart. -/
theorem Apart.moves (hs : s.Apart) (horder : s.Orderly) (h : s.Moves t) : t.Apart := by
  cases h with
  | kept hcache => exact hs.of_subset rfl fun _ _ => heldBy_append rfl
  | starts hcache => exact hs.of_subset rfl fun _ _ => heldBy_append rfl
  | @made i conn service hi hnull hfresh =>
    refine ⟨fun j j' conn' hj hj' => ?_, fun j conn' service' hj hkept => ?_⟩
    · rcases heldBy_set hj with ⟨rfl, hheld⟩ | ⟨-, hold⟩ <;>
        rcases heldBy_set hj' with ⟨rfl, hheld'⟩ | ⟨-, hold'⟩
      · rfl
      · exact absurd (Option.some.inj hheld ▸ hfresh) (horder.not_fresh_of_heldBy hold')
      · exact absurd (Option.some.inj hheld' ▸ hfresh) (horder.not_fresh_of_heldBy hold)
      · exact hs.one j j' conn' hold hold'
    · rcases heldBy_set hj with ⟨rfl, hheld⟩ | ⟨-, hold⟩
      · have hmade := (horder.kept service' conn' hkept).made
        exact hfresh (Option.some.inj hheld ▸ List.mem_map.mpr ⟨_, hmade, rfl⟩)
      · exact hs.unkept j conn' service' hold hkept
  | fetched hi => exact hs.of_subset rfl fun _ _ => heldBy_set_of_eq hi fun _ => id
  | installed hi => exact hs.of_subset rfl fun _ _ => heldBy_set_of_eq hi fun _ => id
  | @keeps i conn service hi =>
    have hheldi : s.heldBy i = some conn := Option.bind_eq_some_iff.mpr ⟨_, hi, rfl⟩
    refine ⟨fun j j' conn' hj hj' => ?_, fun j conn' service' hj hkept => ?_⟩
    · exact hs.one j j' conn' (heldBy_set_of_eq hi (by nofun) hj)
        (heldBy_set_of_eq hi (by nofun) hj')
    · rcases heldBy_set hj with ⟨-, hheld⟩ | ⟨hne, hold⟩
      · cases hheld
      · rcases eq_or_ne service' service with rfl | hservice
        · have heq : conn = conn' := by simpa using hkept
          exact hne (hs.one i j conn hheldi (heq ▸ hold))
        · exact hs.unkept j conn' service' hold
            ((Function.update_of_ne hservice _ _).symm.trans hkept)
  | fails hi hway => exact hs.of_subset rfl fun _ _ => heldBy_set_of_eq hi (by nofun)
  | elsewhere hfresh => exact hs.of_subset rfl fun _ _ => id

theorem apart_of_reachable (h : xpc.Reachable s) : s.Orderly ∧ s.Apart := by
  refine h.invariant (P := fun s => s.Orderly ∧ s.Apart)
    (fun s hs => ?_) fun s event t hs _ hstep => ?_
  · rw [show s = _ from hs]
    exact ⟨⟨by nofun, by nofun⟩, ⟨by nofun, by nofun⟩⟩
  · exact ⟨hs.1.moves (step_moves hstep), hs.2.moves hs.1 (step_moves hstep)⟩

/-! ## From when on all calls agree -/

theorem getElem?_set_of_some {call call' : Connecting} (hi : s.calls[i]? = some call) :
    (s.calls.set i call')[i]? = some call' :=
  List.getElem?_set_self (List.getElem?_eq_some_iff.mp hi).1

/-- A call that holds a connection can go on to return it. -/
theorem exists_run_of_held {call : Connecting} (hi : s.calls[i]? = some call)
    (hheld : call.held = some conn) :
    ∃ events t, xpc.run s events = some t ∧ t.calls[i]? = some (.returned call.service conn) := by
  have hresume {s : Xpc} {service : String} (hi : s.calls[i]? = some (.resuming service conn)) :
      ∃ t, xpc.run s [.answered i] = some t ∧ t.calls[i]? = some (.returned service conn) := by
    refine ⟨⟨Function.update s.serviceCache service (some conn),
      s.calls.set i (.returned service conn), s.host.resume conn⟩, ?_, getElem?_set_of_some hi⟩
    simp only [Machine.run, xpc, step, hi]
  have hinstall {s : Xpc} {service : String} (hi : s.calls[i]? = some (.installing service conn)) :
      ∃ t, xpc.run s [.answered i, .answered i] = some t ∧
        t.calls[i]? = some (.returned service conn) := by
    obtain ⟨t, hrun, ht⟩ := hresume (s := ⟨s.serviceCache, s.calls.set i (.resuming service conn),
      s.host.setEventHandler conn⟩) (getElem?_set_of_some hi)
    refine ⟨t, ?_, ht⟩
    rw [← hrun]
    simp only [Machine.run, xpc, step, hi]
  cases call with
  | creating service => cases hheld
  | returned service conn' => cases hheld
  | raised service => cases hheld
  | resuming service conn' =>
    cases hheld
    obtain ⟨t, hrun, ht⟩ := hresume hi
    exact ⟨_, t, hrun, ht⟩
  | installing service conn' =>
    cases hheld
    obtain ⟨t, hrun, ht⟩ := hinstall hi
    exact ⟨_, t, hrun, ht⟩
  | fetchingBlock service conn' =>
    cases hheld
    obtain ⟨t, hrun, ht⟩ :=
        hinstall (s := { s with calls := s.calls.set i (.installing service conn) })
      (getElem?_set_of_some hi)
    refine ⟨.answered i :: [.answered i, .answered i], t, ?_, ht⟩
    rw [← hrun, Machine.run_cons]
    simp only [xpc, step, hi, Option.bind_some]

/-- There is always another connection to be made. -/
theorem exists_fresh (host : XpcHost) (conn : ℕ) :
    ∃ conn', conn' ≠ 0 ∧ host.Fresh conn' ∧ conn' ≠ conn := by
  obtain ⟨conn', h⟩ := Infinite.exists_notMem_finset ((host.made.map Prod.fst).toFinset ∪ {0, conn})
  simp only [Finset.mem_union, List.mem_toFinset, Finset.mem_insert, Finset.mem_singleton,
    not_or] at h
  exact ⟨conn', h.2.1, h.1, h.2.2⟩

/-- A call that starts to make a connection can return another one than a given one. -/
theorem exists_run_of_creating (hi : s.calls[i]? = some (.creating service)) (conn : ℕ) :
    ∃ events t conn', xpc.run s events = some t ∧ t.calls[i]? = some (.returned service conn') ∧
      conn' ≠ conn := by
  obtain ⟨conn', hnull, hfresh, hne⟩ := exists_fresh s.host conn
  obtain ⟨events, t, hrun, ht⟩ := exists_run_of_held
    (s := { s with
      host := s.host.make conn' service
      calls := s.calls.set i (.fetchingBlock service conn') })
    (getElem?_set_of_some hi) rfl
  refine ⟨.created i conn' :: events, t, conn', ?_, ht, hne⟩
  rw [← hrun, Machine.run_cons]
  simp only [xpc, step, hi, if_neg hnull, if_pos hfresh, Option.bind_some]

/-- All later calls agree on a connection only if it is kept already. -/
theorem Settled.kept (h : s.Settled service conn) : s.serviceCache service = some conn := by
  have hnew (call : Connecting) : (s.calls ++ [call])[s.calls.length]? = some call := by simp
  have hnone (call : Connecting) : s.calls[s.calls.length]? ≠ some call := by simp
  cases hcache : s.serviceCache service with
  | some conn' =>
    have hrun : xpc.run s [.call service] =
        some { s with calls := s.calls ++ [.returned service conn'] } := by
      simp [Machine.run, xpc, step, hcache]
    rcases h _ _ hrun s.calls.length conn' (hnew _) with hold | heq
    · exact absurd hold (hnone _)
    · exact congrArg some heq
  | none =>
    obtain ⟨events, t, conn', hrun, ht, hne⟩ := exists_run_of_creating
      (s := { s with calls := s.calls ++ [.creating service] }) (hnew _) conn
    have hcall : xpc.run s (.call service :: events) = some t := by
      rw [Machine.run_cons, ← hrun]
      simp [xpc, step, hcache]
    rcases h _ _ hcall s.calls.length conn' ht with hold | heq
    · exact absurd hold (hnone _)
    · exact absurd heq hne

/-- When a connection is settled its calls are quiet. -/
theorem Settled.quiet (hs : s.Apart) (h : s.Settled service conn) : s.Quiet service := by
  intro call hmem hservice hway
  obtain ⟨i, hi⟩ := List.getElem?_of_mem hmem
  -- a call under way has not returned
  have hold {conn' : ℕ} : s.calls[i]? ≠ some (.returned service conn') := by
    rw [hi]
    rintro ⟨⟩
    exact hway
  cases hheld : call.held with
  | some conn' =>
    obtain ⟨events, t, hrun, ht⟩ := exists_run_of_held hi hheld
    have heq : conn' = conn := (h events t hrun i conn' (hservice ▸ ht)).resolve_left hold
    exact hs.unkept i conn' service (Option.bind_eq_some_iff.mpr ⟨call, hi, hheld⟩) (heq ▸ h.kept)
  | none =>
    have hcreating : call = .creating service := by
      cases call <;> first | exact hway.elim | cases hheld
      exact congrArg Connecting.creating hservice
    obtain ⟨events, t, conn', hrun, ht, hne⟩ := exists_run_of_creating (hcreating ▸ hi) conn
    exact hne ((h events t hrun i conn' ht).resolve_left hold)

/-- **Connections to services.** However calls overlap, a call returns a connection that
was made for its service, has a handler and has been resumed. All calls that return from
some moment on agree on a connection exactly when it is kept at that moment and no call
for the service is under way. -/
theorem settled_iff (h : xpc.Reachable s) :
    (∀ service conn, .returned service conn ∈ s.calls → s.host.Ready service conn) ∧
      ∀ service conn, s.Settled service conn ↔
        s.serviceCache service = some conn ∧ s.Quiet service := by
  obtain ⟨horder, hapart⟩ := apart_of_reachable h
  refine ⟨fun service conn hmem => horder.calls _ hmem, fun service conn => ?_⟩
  constructor
  · exact fun hsettled => ⟨hsettled.kept, hsettled.quiet hapart⟩
  · exact fun ⟨hcache, hquiet⟩ => settled_of_quiet hcache hquiet

/-- Of two calls that overlap the first has ended. -/
def overlapping : List XpcEvent :=
  [.call "tccd", .call "tccd", .created 0 1, .created 1 2, .answered 0, .answered 0, .answered 0]

/-- The connection of the first is kept, and the calls do not agree yet. -/
theorem settled_iff_overlapping :
    ∃ s, xpc.run ⟨fun _ => none, [], ⟨[], [], []⟩⟩ overlapping = some s ∧
      s.serviceCache "tccd" = some 1 ∧ ¬s.Settled "tccd" 1 := by
  have hrun : xpc.run ⟨fun _ => none, [], ⟨[], [], []⟩⟩ overlapping = some _ := rfl
  refine ⟨_, hrun, rfl, fun hsettled => ?_⟩
  have hquiet := (((settled_iff (Machine.reachable_of_run rfl hrun)).2 "tccd" 1).mp hsettled).2
  exact hquiet (.fetchingBlock "tccd" 2) (by decide) rfl trivial

end Xpc

end RpcProject.Darwin
