/-
# The client manager

`ClientManager.create` opens a connection, looks for a client registered under
the id that the server has sent in its handshake, and returns that client if
there is one. Otherwise it builds a client on the connection, which takes calls
to the server, and registers it. A client that closes or loses its connection
takes the entry under its id out of the registry.

The id is the process id of the server, so servers on different hosts may send
the same one. Several calls of `create` may be under way: a step of the machine
is what one of them does up to its next wait, or an event of a client.

As long as no new connection brings the id of one that is still open, and every
connection brings a known platform and a server that answers, the clients
returned are those of the connections just made.
-/

import Mathlib.Data.List.Nodup
import Mathlib.Logic.Function.Basic
import RpcProject.Foundations.Machine

namespace RpcProject.Client

open Foundations

/-! ## The machine -/

/-- The end of a call of `create`: the connection it has made and that of the
client it returns, or an exception. Connections are numbered as they are made. -/
inductive CreateResult
  | returned (connection client : ℕ)
  | raised (connection : Option ℕ)
  deriving DecidableEq, Repr

/-- The manager, with the connections it has made and what became of each `create`. -/
structure ManagerState where
  /-- the registry: the connection of the client under an id -/
  clients : ℕ → Option ℕ
  /-- how many connections have been made -/
  connections : ℕ
  clientId : ℕ → ℕ
  /-- the connections that are neither closed nor found lost -/
  isOpen : ℕ → Bool
  /-- the connections on which a client is being built -/
  building : List ℕ
  results : List CreateResult

/-- What happens to a manager, in one task after the other. -/
inductive ManagerEvent
  /-- the mode is unknown or the transport makes no connection -/
  | unavailable
  /-- a connection is made, and its handshake is refused -/
  | rejected
  /-- a connection is made; the handshake brings an id and a platform -/
  | connected (clientId : ℕ) (knownPlatform : Bool)
  /-- building the client on a connection ends -/
  | built (connection : ℕ) (ok : Bool)
  /-- the client on a connection finds the connection lost -/
  | terminated (connection : ℕ)
  /-- the client on a connection is closed -/
  | closed (connection : ℕ)
  deriving DecidableEq, Repr

namespace ManagerState

/-- A manager without clients. -/
def init : ManagerState := ⟨fun _ => none, 0, fun _ => 0, fun _ => false, [], []⟩

/-- A connection is made, and the handshake brings an id. -/
def connect (s : ManagerState) (clientId : ℕ) : ManagerState :=
  { s with
    connections := s.connections + 1
    clientId := Function.update s.clientId s.connections clientId
    isOpen := Function.update s.isOpen s.connections true }

/-- A `create` returns or raises. -/
def finish (s : ManagerState) (result : CreateResult) : ManagerState :=
  { s with results := s.results ++ [result] }

/-- `Registry.unregister`, under the id of a connection's server. -/
def remove (s : ManagerState) (connection : ℕ) : ManagerState :=
  { s with clients := Function.update s.clients (s.clientId connection) none }

/-- A client takes its leave with its connection. It takes away the entry under its id,
which may be that of a later client by then. -/
def leave (s : ManagerState) (connection : ℕ) : ManagerState :=
  { s.remove connection with isOpen := Function.update s.isOpen connection false }

/-- `ClientManager.add`, which raises if there is a client under the id. -/
def add (s : ManagerState) (connection : ℕ) : ManagerState :=
  match s.clients (s.clientId connection) with
  | some _ => s.finish (.raised (some connection))
  | none =>
      { s with
        clients := Function.update s.clients (s.clientId connection) (some connection) }.finish
          (.returned connection connection)

/-- Behind the transport: a registered client is returned, an unknown platform
raises, and otherwise the client is built. -/
def afterTransport (s : ManagerState) (connection : ℕ) (knownPlatform : Bool) : ManagerState :=
  match s.clients (s.clientId connection) with
  | some cached => s.finish (.returned connection cached)
  | none =>
      if knownPlatform then { s with building := connection :: s.building }
      else s.finish (.raised (some connection))

end ManagerState

/-- What each event does. -/
def managerStep (s : ManagerState) : ManagerEvent → Option ManagerState
  | .unavailable => some (s.finish (.raised none))
  | .rejected => some ((s.connect 0).finish (.raised (some s.connections)))
  | .connected clientId knownPlatform =>
      some ((s.connect clientId).afterTransport s.connections knownPlatform)
  | .built connection ok =>
      if connection ∈ s.building then
        let s := { s with building := s.building.erase connection }
        if ok then some (s.add connection) else some (s.finish (.raised (some connection)))
      else none
  | .terminated connection =>
      if .returned connection connection ∈ s.results then some (s.leave connection) else none
  | .closed connection =>
      if .returned connection connection ∈ s.results then some (s.leave connection) else none

/-- The runs of a manager. -/
def clientManager : Machine ManagerState ManagerEvent where
  start s := s = .init
  step := managerStep

/-! ## The identity of clients -/

/-- The client returned by a call is that of the connection the call has made,
no two open connections have an entry under one id, and an open connection
belongs to a call under way or has been returned. -/
structure ClientIdentity (s : ManagerState) : Prop where
  own : ∀ c d, .returned c d ∈ s.results → d = c
  apart : ∀ c d, s.isOpen c = true → s.isOpen d = true → s.clientId c = s.clientId d →
    s.clients (s.clientId c) ≠ none → c = d
  closed : ∀ c, s.isOpen c = true → c ∈ s.building ∨ .returned c c ∈ s.results

/-- A new connection brings an id that no open connection has and a known
platform, and the server answers while its client is built. -/
def FreshId (s : ManagerState) : ManagerEvent → Prop
  | .rejected => False
  | .connected clientId knownPlatform =>
      knownPlatform = true ∧ ∀ c < s.connections, s.isOpen c = true → s.clientId c ≠ clientId
  | .built _ ok => ok = true
  | _ => True

instance (s : ManagerState) : DecidablePred (FreshId s)
  | .unavailable => inferInstanceAs (Decidable True)
  | .rejected => inferInstanceAs (Decidable False)
  | .connected _ _ => inferInstanceAs (Decidable (_ ∧ _))
  | .built _ _ => inferInstanceAs (Decidable (_ = true))
  | .terminated _ => inferInstanceAs (Decidable True)
  | .closed _ => inferInstanceAs (Decidable True)

/-- What holds along runs with fresh ids. -/
structure Sound (s : ManagerState) : Prop where
  lt : ∀ c, s.isOpen c = true → c < s.connections
  distinct : ∀ c d, s.isOpen c = true → s.isOpen d = true → s.clientId c = s.clientId d → c = d
  building : ∀ c ∈ s.building, s.isOpen c = true
  nodup : s.building.Nodup
  own : ∀ c d, .returned c d ∈ s.results → d = c ∧ c < s.connections ∧ c ∉ s.building
  registered : ∀ i c, s.clients i = some c →
    s.clientId c = i ∧ s.isOpen c = true ∧ .returned c c ∈ s.results
  closed : ∀ c, s.isOpen c = true → c ∈ s.building ∨ .returned c c ∈ s.results

variable {s t : ManagerState} {event : ManagerEvent}

/-- The invariant gives the identity of clients. -/
theorem Sound.clientIdentity (h : Sound s) : ClientIdentity s :=
  ⟨fun c d hmem => (h.own c d hmem).1, fun c d hc hd hid _ => h.distinct c d hc hd hid, h.closed⟩

theorem sound_init : Sound .init := by
  constructor <;> simp [ManagerState.init]

/-- A `create` that connects to nothing keeps it. -/
theorem Sound.unavailable (h : Sound s) : Sound (s.finish (.raised none)) where
  lt := h.lt
  distinct := h.distinct
  building := h.building
  nodup := h.nodup
  own c d hmem := h.own c d (by simpa [ManagerState.finish] using hmem)
  registered i c hget := by
    obtain ⟨hid, hopen, hmem⟩ := h.registered i c hget
    exact ⟨hid, hopen, List.mem_append_left _ hmem⟩
  closed c hopen := (h.closed c hopen).imp_right (List.mem_append_left _)

/-- A connection with a fresh id finds no client and waits for its own. -/
theorem Sound.connected {clientId : ℕ} (h : Sound s)
    (fresh : ∀ c < s.connections, s.isOpen c = true → s.clientId c ≠ clientId) :
    Sound ((s.connect clientId).afterTransport s.connections true) := by
  have hold : ∀ c, s.isOpen c = true → c ≠ s.connections :=
    fun c hopen => Nat.ne_of_lt (h.lt c hopen)
  have hnone : s.clients clientId = none := by
    by_contra hsome
    obtain ⟨c, hget⟩ := Option.ne_none_iff_exists'.mp hsome
    obtain ⟨hid, hopen, -⟩ := h.registered _ c hget
    exact fresh c (h.lt c hopen) hopen hid
  have hstate : (s.connect clientId).afterTransport s.connections true =
      { s.connect clientId with building := s.connections :: s.building } := by
    simp [ManagerState.afterTransport, ManagerState.connect, hnone]
  rw [hstate]
  -- an open connection is the new one, or was open before
  have hopen_cases : ∀ c, Function.update s.isOpen s.connections true c = true →
      c = s.connections ∨ (c ≠ s.connections ∧ s.isOpen c = true) := by
    intro c hopen
    by_cases hc : c = s.connections
    · exact Or.inl hc
    · exact Or.inr ⟨hc, by rwa [Function.update_of_ne hc] at hopen⟩
  refine ⟨fun c hopen => ?_, fun c d hc hd hid => ?_, fun c hmem => ?_, ?_, fun c d hmem => ?_,
    fun i c hget => ?_, fun c hopen => ?_⟩
  · rcases hopen_cases c hopen with rfl | ⟨-, hopen⟩
    · exact Nat.lt_succ_self _
    · exact Nat.lt_succ_of_lt (h.lt c hopen)
  · simp only [ManagerState.connect] at hid
    rcases hopen_cases c hc with rfl | ⟨hcne, hc⟩ <;> rcases hopen_cases d hd with rfl | ⟨hdne, hd⟩
    · rfl
    · rw [Function.update_self, Function.update_of_ne hdne] at hid
      exact absurd hid.symm (fresh d (h.lt d hd) hd)
    · rw [Function.update_self, Function.update_of_ne hcne] at hid
      exact absurd hid (fresh c (h.lt c hc) hc)
    · rw [Function.update_of_ne hcne, Function.update_of_ne hdne] at hid
      exact h.distinct c d hc hd hid
  · rcases List.mem_cons.mp hmem with rfl | hmem
    · exact Function.update_self _ _ _
    · have hopen := h.building c hmem
      exact (Function.update_of_ne (hold c hopen) _ _).trans hopen
  · exact List.nodup_cons.mpr ⟨fun hmem => hold _ (h.building _ hmem) rfl, h.nodup⟩
  · obtain ⟨hd, hlt, hnot⟩ := h.own c d hmem
    exact ⟨hd, Nat.lt_succ_of_lt hlt, List.not_mem_cons_of_ne_of_not_mem (Nat.ne_of_lt hlt) hnot⟩
  · obtain ⟨hid, hopen, hmem⟩ := h.registered i c hget
    exact ⟨(Function.update_of_ne (hold c hopen) _ _).trans hid,
      (Function.update_of_ne (hold c hopen) _ _).trans hopen, hmem⟩
  · rcases hopen_cases c hopen with rfl | ⟨-, hopen⟩
    · exact Or.inl List.mem_cons_self
    · exact (h.closed c hopen).imp_left (List.mem_cons_of_mem _)

/-- A client that is built finds no other under its id and is returned. -/
theorem Sound.built {c : ℕ} (h : Sound s) (hc : c ∈ s.building) :
    Sound (ManagerState.add { s with building := s.building.erase c } c) := by
  have hopen := h.building c hc
  have hnone : s.clients (s.clientId c) = none := by
    by_contra hsome
    obtain ⟨d, hget⟩ := Option.ne_none_iff_exists'.mp hsome
    obtain ⟨hid, hdopen, hmem⟩ := h.registered _ d hget
    obtain rfl := h.distinct d c hdopen hopen hid
    exact (h.own d d hmem).2.2 hc
  have hstate : ManagerState.add { s with building := s.building.erase c } c =
      { s with
        building := s.building.erase c
        clients := Function.update s.clients (s.clientId c) (some c)
        results := s.results ++ [.returned c c] } := by
    simp [ManagerState.add, ManagerState.finish, hnone]
  rw [hstate]
  refine ⟨h.lt, h.distinct, fun d hmem => h.building d (List.mem_of_mem_erase hmem),
    h.nodup.erase c, fun d e hmem => ?_, fun i d hget => ?_, fun d hdopen => ?_⟩
  · rcases List.mem_append.mp hmem with hmem | hmem
    · obtain ⟨he, hlt, hnot⟩ := h.own d e hmem
      exact ⟨he, hlt, fun hin => hnot (List.mem_of_mem_erase hin)⟩
    · rw [List.mem_singleton, CreateResult.returned.injEq] at hmem
      obtain ⟨rfl, rfl⟩ := hmem
      exact ⟨rfl, h.lt _ hopen, h.nodup.not_mem_erase⟩
  · have hget : Function.update s.clients (s.clientId c) (some c) i = some d := hget
    by_cases hi : i = s.clientId c
    · subst hi
      rw [Function.update_self, Option.some.injEq] at hget
      subst hget
      exact ⟨rfl, hopen, by simp⟩
    · rw [Function.update_of_ne hi] at hget
      obtain ⟨hid, hdopen, hmem⟩ := h.registered i d hget
      exact ⟨hid, hdopen, List.mem_append_left _ hmem⟩
  · rcases h.closed d hdopen with hmem | hmem
    · by_cases hd : d = c
      · exact Or.inr (by simp [hd])
      · exact Or.inl ((List.mem_erase_of_ne hd).mpr hmem)
    · exact Or.inr (List.mem_append_left _ hmem)

theorem Sound.remove (h : Sound s) (c : ℕ) : Sound (s.remove c) where
  lt := h.lt
  distinct := h.distinct
  building := h.building
  nodup := h.nodup
  own := h.own
  registered i d hget := by
    have hget : Function.update s.clients (s.clientId c) none i = some d := hget
    by_cases hi : i = s.clientId c
    · rw [hi, Function.update_self] at hget
      cases hget
    · rw [Function.update_of_ne hi] at hget
      exact h.registered i d hget
  closed := h.closed

/-- The entry is taken away first, so none is left for a connection that has ended. -/
theorem Sound.leave {c : ℕ} (h : Sound s) (hc : .returned c c ∈ s.results) :
    Sound (s.leave c) := by
  have hstays : ∀ d, Function.update s.isOpen c false d = true → s.isOpen d = true := by
    intro d hopen
    by_cases hd : d = c
    · rw [hd, Function.update_self] at hopen
      cases hopen
    · rwa [Function.update_of_ne hd] at hopen
  have hr := h.remove c
  refine ⟨fun d hd => h.lt d (hstays d hd),
    fun d e hd he => h.distinct d e (hstays d hd) (hstays e he), fun d hmem => ?_, h.nodup, h.own,
    fun i d hget => ?_, fun d hd => h.closed d (hstays d hd)⟩
  · have hne : d ≠ c := by
      rintro rfl
      exact (h.own d d hc).2.2 hmem
    exact (Function.update_of_ne hne _ _).trans (h.building d hmem)
  · obtain ⟨hid, hopen, hmem⟩ := hr.registered i d hget
    have hne : d ≠ c := by
      rintro rfl
      have hgone : (s.remove d).clients (s.clientId d) = none := Function.update_self _ _ _
      have hget' : (s.remove d).clients i = some d := hget
      rw [← hid] at hget'
      exact Option.some_ne_none d (hget'.symm.trans hgone)
    exact ⟨hid, (Function.update_of_ne hne _ _).trans hopen, hmem⟩

/-- Every event with a fresh id keeps the invariant. -/
theorem Sound.step (h : Sound s) (hfresh : FreshId s event) (hstep : managerStep s event = some t) :
    Sound t := by
  cases event with
  | unavailable =>
    cases hstep
    exact h.unavailable
  | rejected => exact hfresh.elim
  | connected clientId knownPlatform =>
    obtain ⟨rfl, hids⟩ := hfresh
    cases hstep
    exact h.connected hids
  | built c ok =>
    obtain rfl : ok = true := hfresh
    rw [managerStep] at hstep
    split at hstep
    · next hc =>
      cases hstep
      exact h.built hc
    · cases hstep
  | terminated c =>
    rw [managerStep] at hstep
    split at hstep
    · next hc =>
      cases hstep
      exact h.leave hc
    · cases hstep
  | closed c =>
    rw [managerStep] at hstep
    split at hstep
    · next hc =>
      cases hstep
      exact h.leave hc
    · cases hstep

/-- **Client identity.** In every run whose connections bring fresh ids and known
platforms, `create` returns the client of the connection it has just made, and no
two open connections meet in the registry. -/
theorem clientIdentity_of_freshId (h : clientManager.Reaches FreshId s) : ClientIdentity s := by
  have hsound : Sound s :=
    h.invariant (fun s hs => by cases hs; exact sound_init)
      fun s event t hs hfresh hstep => hs.step hfresh hstep
  exact hsound.clientIdentity

/-- A client is made and closed while another is built, which is then lost and made again
from a new server process with the same id. -/
def reconnected : List ManagerEvent :=
  [.connected 5 true, .built 0 true, .connected 7 true, .closed 0, .built 1 true, .terminated 1,
    .connected 7 true, .built 2 true]

/-- A client that has left comes back under its id, while another has kept its own. -/
theorem clientIdentity_of_freshId_reconnected :
    ∃ s, clientManager.run .init reconnected = some s ∧ ClientIdentity s := by
  obtain ⟨s, hs⟩ : ∃ s, clientManager.run .init reconnected = some s := ⟨_, rfl⟩
  have hstart : clientManager.Reaches FreshId .init := .start rfl
  have hpasses : clientManager.passes (fun s event => decide (FreshId s event)) .init
      reconnected = true := by
    decide
  exact ⟨s, hs, clientIdentity_of_freshId
    (hstart.of_passes (fun _ _ => of_decide_eq_true) hpasses hs)⟩

/-- Two servers on different hosts with one process id: the second call returns
the client of the first server, and its own connection stays open. -/
theorem not_clientIdentity_equal_ids :
    ∃ s, clientManager.run .init [.connected 5 true, .built 0 true, .connected 5 true] = some s ∧
      .returned 1 0 ∈ s.results ∧ s.isOpen 1 = true ∧ ¬ ClientIdentity s := by
  refine ⟨_, rfl, by decide, by decide, fun h => ?_⟩
  exact absurd (h.own 1 0 (by decide)) (by decide)

end RpcProject.Client
