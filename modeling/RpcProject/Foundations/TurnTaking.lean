/-
# Taking turns with a service

Clients put one request each to a sequential service, one client at a time. A
request takes the turn when it is asked. It is served, and its reply collected;
then the turn is free again, unless the exchange opens a session, which keeps
the turn until it is closed. A client may withdraw while its request has not
been served; the service then serves nobody any more.

Whatever the order of these steps, requests are served in the order in which
they were asked, each at most once; replies are collected in the order in which
they were made, each at most once and by the client that asked for it; and the
replies are those of the service on the same requests alone.
-/

import Mathlib.Data.List.Nodup
import RpcProject.Foundations.Machine

namespace RpcProject.Foundations

variable {κ π ρ β : Type*}

/-! ## The service -/

/-- A sequential service: its process after a request, the reply to a request,
and whether an exchange opens a session. -/
structure Service (π ρ β : Type*) where
  next : π → ρ → π
  reply : π → ρ → β
  opens : ρ → β → Bool

namespace Service

/-- The process after some requests, one after the other. -/
def after (S : Service π ρ β) (process : π) (requests : List ρ) : π := requests.foldl S.next process

/-- The replies to some requests, one after the other. -/
def replies (S : Service π ρ β) : π → List ρ → List β
  | _, [] => []
  | process, request :: rest =>
      S.reply process request :: S.replies (S.next process request) rest

variable (S : Service π ρ β)

theorem after_append_singleton (process : π) (requests : List ρ) (request : ρ) :
    S.after process (requests ++ [request]) = S.next (S.after process requests) request := by
  simp [after]

theorem replies_append_singleton (process : π) (requests : List ρ) (request : ρ) :
    S.replies process (requests ++ [request]) =
      S.replies process requests ++ [S.reply (S.after process requests) request] := by
  induction requests generalizing process with
  | nil => rfl
  | cons first rest ih =>
    rw [List.cons_append, replies, replies, ih, List.cons_append]
    rfl

end Service

/-! ## Turns -/

/-- A request of a client and the reply that was made to it. -/
structure Exchange (κ ρ β : Type*) where
  client : κ
  request : ρ
  reply : β
  deriving DecidableEq, Repr

/-- Who has the turn, and how far the exchange is. -/
inductive Turn (κ ρ β : Type*)
  | free
  | asked (client : κ) (request : ρ)
  | answered (exchange : Exchange κ ρ β)
  | session (client : κ)

namespace Turn

/-- The client that has asked and was not served. -/
def pending : Turn κ ρ β → List κ
  | asked client _ => [client]
  | _ => []

/-- The exchange whose reply was made and not collected. -/
def uncollected : Turn κ ρ β → List (Exchange κ ρ β)
  | answered exchange => [exchange]
  | _ => []

end Turn

/-- A service of one process at a time, with a record of who asked, and of what was served
and delivered. -/
structure TurnState (π κ ρ β : Type*) where
  process : π
  turn : Turn κ ρ β
  /-- the clients that asked, in order -/
  asked : List κ
  withdrawn : List κ
  served : List (Exchange κ ρ β)
  collected : List (Exchange κ ρ β)

/-- What the clients and the service do. -/
inductive TurnAction (κ ρ : Type*)
  | ask (client : κ) (request : ρ)
  | serve
  | collect
  | close
  | withdraw
  deriving DecidableEq, Repr

namespace TurnState

/-- A client asks when the turn is free, and only once. -/
def ask [DecidableEq κ] (u : TurnState π κ ρ β) (client : κ) (request : ρ) :
    Option (TurnState π κ ρ β) :=
  match u.turn with
  | .free =>
      if client ∈ u.asked then none
      else some { u with turn := .asked client request, asked := u.asked ++ [client] }
  | _ => none

/-- The service replies, as long as no request has been withdrawn. -/
def serve (S : Service π ρ β) (u : TurnState π κ ρ β) : Option (TurnState π κ ρ β) :=
  match u.turn with
  | .asked client request =>
      if u.withdrawn.isEmpty then
        let exchange : Exchange κ ρ β := ⟨client, request, S.reply u.process request⟩
        some { u with
          process := S.next u.process request
          turn := .answered exchange
          served := u.served ++ [exchange] }
      else none
  | _ => none

/-- The client gets its reply, and a session may begin. -/
def collect (S : Service π ρ β) (u : TurnState π κ ρ β) : Option (TurnState π κ ρ β) :=
  match u.turn with
  | .answered exchange =>
      some { u with
        turn := if S.opens exchange.request exchange.reply then .session exchange.client else .free
        collected := u.collected ++ [exchange] }
  | _ => none

/-- The session ends. -/
def close (u : TurnState π κ ρ β) : Option (TurnState π κ ρ β) :=
  match u.turn with
  | .session _ => some { u with turn := .free }
  | _ => none

/-- A client gives up before it is served. -/
def withdraw (u : TurnState π κ ρ β) : Option (TurnState π κ ρ β) :=
  match u.turn with
  | .asked client _ => some { u with turn := .free, withdrawn := u.withdrawn ++ [client] }
  | _ => none

/-- What each action does. -/
def step [DecidableEq κ] (S : Service π ρ β) (u : TurnState π κ ρ β) :
    TurnAction κ ρ → Option (TurnState π κ ρ β)
  | .ask client request => u.ask client request
  | .serve => u.serve S
  | .collect => u.collect S
  | .close => u.close
  | .withdraw => u.withdraw

/-- Before anybody has asked. -/
def initial (process : π) : TurnState π κ ρ β where
  process := process
  turn := .free
  asked := []
  withdrawn := []
  served := []
  collected := []

end TurnState

/-- The service and its clients as a machine. -/
def Service.turnTaking [DecidableEq κ] (S : Service π ρ β) :
    Machine (TurnState π κ ρ β) (TurnAction κ ρ) where
  start u := ∃ process, u = TurnState.initial process
  step := TurnState.step S

namespace TurnState

/-! ## The ledger -/

/-- What the records of the machine say about one another. -/
structure Ledger (S : Service π ρ β) (u : TurnState π κ ρ β) : Prop where
  /-- Served are the clients that asked first, and of the others one at most still waits. -/
  asked : u.asked = u.served.map Exchange.client ++ (u.withdrawn ++ u.turn.pending)
  nodup : u.asked.Nodup
  /-- One reply at most is not collected. -/
  served : u.served = u.collected ++ u.turn.uncollected
  /-- The replies are those of the service alone. -/
  replies : ∃ first, u.process = S.after first (u.served.map Exchange.request) ∧
    u.served.map Exchange.reply = S.replies first (u.served.map Exchange.request)

variable {S : Service π ρ β} {u v : TurnState π κ ρ β}

/-- The books are in order at the start. -/
theorem ledger_initial (process : π) : Ledger S (initial process : TurnState π κ ρ β) where
  asked := rfl
  nodup := List.nodup_nil
  served := rfl
  replies := ⟨process, rfl, rfl⟩

theorem ledger_ask [DecidableEq κ] {client : κ} {request : ρ} (h : Ledger S u)
    (hstep : u.ask client request = some v) : Ledger S v := by
  unfold ask at hstep
  split at hstep
  · next hturn =>
    split at hstep
    · cases hstep
    · next hnew =>
      obtain rfl := Option.some.inj hstep
      have hasked := h.asked
      have hserved := h.served
      rw [hturn] at hasked hserved
      -- the turn is free, so nobody else is pending
      refine ⟨?_, ?_, hserved, h.replies⟩
      · simp only [hasked, Turn.pending, List.append_nil, List.append_assoc]
      · simp only [List.nodup_append, h.nodup, List.nodup_singleton, true_and]
        rintro asker hmem _ hclient rfl
        exact hnew (List.mem_singleton.mp hclient ▸ hmem)
  · cases hstep

theorem ledger_serve (h : Ledger S u) (hstep : u.serve S = some v) : Ledger S v := by
  unfold serve at hstep
  split at hstep
  · next client request hturn =>
    split at hstep
    · next hnone =>
      obtain rfl := Option.some.inj hstep
      have hasked := h.asked
      have hserved := h.served
      obtain ⟨first, hprocess, hreplies⟩ := h.replies
      rw [hturn] at hasked hserved
      rw [List.isEmpty_iff] at hnone
      -- the pending client becomes the last one served
      refine ⟨?_, h.nodup, ?_, first, ?_, ?_⟩
      · simpa [hnone, Turn.pending] using hasked
      · simpa [Turn.uncollected] using hserved
      · rw [List.map_append, List.map_singleton, S.after_append_singleton, ← hprocess]
      · rw [List.map_append, List.map_append, List.map_singleton, List.map_singleton,
          S.replies_append_singleton, ← hprocess, hreplies]
    · cases hstep
  · cases hstep

theorem ledger_collect (h : Ledger S u) (hstep : u.collect S = some v) : Ledger S v := by
  unfold collect at hstep
  split at hstep
  · next exchange hturn =>
    obtain rfl := Option.some.inj hstep
    have hasked := h.asked
    have hserved := h.served
    rw [hturn] at hasked hserved
    -- nobody is pending, whether a session opens or not
    refine ⟨?_, h.nodup, ?_, h.replies⟩
    · simp only
      split <;> exact hasked
    · simp only
      split <;> simpa [Turn.uncollected] using hserved
  · cases hstep

theorem ledger_close (h : Ledger S u) (hstep : u.close = some v) : Ledger S v := by
  unfold close at hstep
  split at hstep
  · next client hturn =>
    obtain rfl := Option.some.inj hstep
    have hasked := h.asked
    have hserved := h.served
    rw [hturn] at hasked hserved
    exact ⟨hasked, h.nodup, hserved, h.replies⟩
  · cases hstep

theorem ledger_withdraw (h : Ledger S u) (hstep : u.withdraw = some v) : Ledger S v := by
  unfold withdraw at hstep
  split at hstep
  · next client request hturn =>
    obtain rfl := Option.some.inj hstep
    have hasked := h.asked
    have hserved := h.served
    rw [hturn] at hasked hserved
    refine ⟨?_, h.nodup, hserved, h.replies⟩
    simpa [Turn.pending] using hasked
  · cases hstep

/-- **Run lemma.** The records agree in every reachable state. -/
theorem ledger_of_reachable [DecidableEq κ] (h : (S.turnTaking (κ := κ)).Reachable u) :
    Ledger S u := by
  refine h.invariant (P := Ledger S) ?_ ?_
  · rintro u ⟨process, rfl⟩
    exact ledger_initial process
  · intro u a v hledger _ hstep
    cases a with
    | ask client request => exact ledger_ask hledger hstep
    | serve => exact ledger_serve hledger hstep
    | collect => exact ledger_collect hledger hstep
    | close => exact ledger_close hledger hstep
    | withdraw => exact ledger_withdraw hledger hstep

namespace Ledger

/-- No client is served twice. -/
theorem served_nodup (h : Ledger S u) : (u.served.map Exchange.client).Nodup :=
  (h.asked ▸ h.nodup).of_append_left

/-- What is collected was served. -/
theorem mem_served (h : Ledger S u) {exchange : Exchange κ ρ β} (hmem : exchange ∈ u.collected) :
    exchange ∈ u.served := by
  rw [h.served]
  exact List.mem_append_left _ hmem

/-- No reply is collected twice. -/
theorem collected_nodup (h : Ledger S u) : (u.collected.map Exchange.client).Nodup := by
  have hserved := h.served_nodup
  rw [h.served, List.map_append] at hserved
  exact hserved.of_append_left

/-- A client that asked was served, withdrew or has the turn. -/
theorem served_or_of_mem_asked (h : Ledger S u) {client : κ} (hmem : client ∈ u.asked) :
    (∃ exchange ∈ u.served, exchange.client = client) ∨ client ∈ u.withdrawn ∨
      client ∈ u.turn.pending := by
  rw [h.asked, List.mem_append, List.mem_append, List.mem_map] at hmem
  exact hmem

end Ledger

end TurnState

end RpcProject.Foundations
