/-
# The server's request loop

`handle_client` receives a request, dispatches it, sends the reply and releases
the request. It then enters terminal mode if a terminal is pending, and leaves the
loop when the message id of the request is that of a close. At that
point the request's storage has been given back, and the id read there may be
any value. Behind the loop, and after any call that fails, the socket is closed.

One step of the machine is one turn of the loop. No terminal is pending when the loop
begins: a worker is fresh, and a server with `-d` that begins otherwise is the subject
of `Server.Daemon`. The session law says that every
request gets one reply, in order, and that the loop ends behind the reply to a
close and behind no other. A run obeys it exactly when every id that is read
back tells a close from other requests, as the id that was received does.
-/

import RpcProject.Foundations.Machine
import RpcProject.Protocol.Api
import RpcProject.Server.Dispatch

namespace RpcProject.Server

open Foundations Protocol

/-! ## The loop -/

/-- Whether the connection is served. -/
inductive ClientPhase
  | serving
  | closed
  deriving DecidableEq, Repr

/-- A message to the client: a reply, or a message of terminal mode. -/
inductive ServerMessage
  | reply (message : RpcMessage)
  | pty (message : RpcPtyMessage)
  deriving DecidableEq, Repr

/-- A connection, with all that went over it. -/
structure ClientState where
  phase : ClientPhase
  /-- all requests received, in order -/
  received : List RpcMessage
  /-- all messages sent, in order -/
  sent : List ServerMessage
  /-- `g_pending_pty.valid` -/
  pending : Bool
  deriving DecidableEq, Repr

/-- What happens on the connection. -/
inductive ClientEvent
  /-- a turn in which the calls succeed, with whether a child comes of a request for a
  foreground process, what terminal mode sends, and the message id that is read back -/
  | serve (request : RpcMessage) (spawned : Bool) (pty : List RpcPtyMessage) (readBack : UInt32)
  | recvFails
  | sendFails (request : RpcMessage)
  deriving DecidableEq, Repr

/-- The message id of a close. -/
def closeClient : UInt32 := MsgId.reqCloseClient.toUInt32

/-- The connection ends. -/
def ClientState.close (s : ClientState) : ClientState := { s with phase := .closed }

/-- A request is received. -/
def ClientState.receive (s : ClientState) (request : RpcMessage) : ClientState :=
  { s with received := s.received ++ [request] }

/-- Messages are sent. -/
def ClientState.send (s : ClientState) (messages : List ServerMessage) : ClientState :=
  { s with sent := s.sent ++ messages }

/-- Whether a request is for a foreground process. -/
def asksForPty (p : Platform) (request : RpcMessage) : Bool :=
  match routineLookup p request.msgId with
  | .error _ => false
  | .ok entry =>
      entry.routine = .reqExec &&
        (entry.requestDescriptor.unpack request.payload).any fun fields =>
          !(Api.RequestExec.codec.read fields).background

/-- The terminal mode sends its messages. -/
def ClientState.enterPtyMode (s : ClientState) (pty : List RpcPtyMessage) : ClientState :=
  { s.send (pty.map .pty) with pending := false }

/-- The rest of a turn once the reply is sent and the request released. -/
def ClientState.afterReply (s : ClientState) (pty : List RpcPtyMessage) (readBack : UInt32) :
    ClientState :=
  let s := if s.pending = true then s.enterPtyMode pty else s
  if readBack = closeClient then s.close else s

/-- What each event does. -/
def clientStep (p : Platform) (routines : Routines) (s : ClientState) :
    ClientEvent → Option ClientState
  | .serve request spawned pty readBack =>
      if s.phase = .serving then
        let s := s.receive request
        if request.magic = messageMagic then
          let s := { s with pending := s.pending || (asksForPty p request && spawned) }
          some ((s.send [.reply (rpcDispatch p routines request)]).afterReply pty readBack)
        else some s.close
      else none
  | .recvFails => if s.phase = .serving then some s.close else none
  | .sendFails request => if s.phase = .serving then some (s.receive request).close else none

/-- The loop, started behind the handshake. -/
def handleClient (p : Platform) (routines : Routines) : Machine ClientState ClientEvent where
  start s := s = ⟨.serving, [], [], false⟩
  step := clientStep p routines

/-! ## The session law -/

/-- One reply for each request, in order, and a closed socket exactly behind the
reply to a close. -/
structure SessionLaw (p : Platform) (routines : Routines) (s : ClientState) : Prop where
  replies : s.sent = s.received.map fun request => .reply (rpcDispatch p routines request)
  closed : s.phase = .closed ↔
    ∃ request, s.received.getLast? = some request ∧ request.msgId = closeClient

/-- Turns on well-formed requests that ask for no terminal, with calls that succeed. -/
def WellServed (p : Platform) : ClientEvent → Prop
  | .serve request _ _ _ => request.magic = messageMagic ∧ asksForPty p request = false
  | _ => False

/-- The id that is read back says whether the request was a close. -/
def ReadsClose : ClientEvent → Prop
  | .serve request _ _ readBack => readBack = closeClient ↔ request.msgId = closeClient
  | _ => True

instance (p : Platform) : DecidablePred (WellServed p)
  | .serve _ _ _ _ => inferInstanceAs (Decidable (_ ∧ _))
  | .recvFails => inferInstanceAs (Decidable False)
  | .sendFails _ => inferInstanceAs (Decidable False)

variable {p : Platform} {routines : Routines} {s t : ClientState} {event : ClientEvent}
  {events : List ClientEvent}

/-- What a turn on a well-formed request does while no terminal is pending. -/
theorem clientStep_wellServed (hpending : s.pending = false) (hserved : WellServed p event)
    (h : clientStep p routines s event = some t) :
    ∃ request spawned pty readBack, event = .serve request spawned pty readBack ∧
      s.phase = .serving ∧ t.pending = false ∧ t.received = s.received ++ [request] ∧
      t.sent = s.sent ++ [.reply (rpcDispatch p routines request)] ∧
      (t.phase = .closed ↔ readBack = closeClient) := by
  cases event with
  | serve request spawned pty readBack =>
    obtain ⟨hmagic, hasks⟩ := hserved
    rw [clientStep] at h
    split at h
    · next hphase =>
      simp only [Option.some.injEq] at h
      subst h
      refine ⟨request, spawned, pty, readBack, rfl, hphase, ?_⟩
      by_cases hclose : readBack = closeClient <;>
        simp [ClientState.afterReply, ClientState.send, ClientState.receive, ClientState.close,
          hclose, hphase, hpending, hasks]
    · cases h
  | recvFails => cases hserved
  | sendFails request => cases hserved

/-- After a turn that is served well no terminal is pending. -/
theorem pending_step (hpending : s.pending = false) (hserved : WellServed p event)
    (h : clientStep p routines s event = some t) : t.pending = false := by
  obtain ⟨_, _, _, _, -, -, ht, -⟩ := clientStep_wellServed hpending hserved h
  exact ht

/-- No terminal becomes pending. -/
theorem pending_run (hserved : ∀ event ∈ events, WellServed p event)
    (h : (handleClient p routines).run ⟨.serving, [], [], false⟩ events = some t) :
    t.pending = false := by
  revert hserved
  refine Machine.run_invariant (P := fun events t =>
    (∀ event ∈ events, WellServed p event) → t.pending = false) (fun _ => rfl) ?_ h
  intro turns s event t ih hstep hserved
  obtain ⟨hfront, hlast⟩ := List.forall_mem_append.mp hserved
  exact pending_step (ih hfront) (hlast event (List.mem_singleton_self event)) hstep

/-- A turn whose read gives the right answer keeps the law. -/
theorem SessionLaw.step (hs : SessionLaw p routines s) (hpending : s.pending = false)
    (hserved : WellServed p event) (hreads : ReadsClose event)
    (h : clientStep p routines s event = some t) : SessionLaw p routines t := by
  obtain ⟨request, _, _, readBack, rfl, -, -, hreceived, hsent, hphase⟩ :=
    clientStep_wellServed hpending hserved h
  constructor
  · rw [hsent, hreceived, hs.replies, List.map_append, List.map_singleton]
  · rw [hphase, hreceived, List.getLast?_append_of_ne_nil _ (List.cons_ne_nil _ _)]
    have hreads : readBack = closeClient ↔ request.msgId = closeClient := hreads
    simpa using hreads

/-- A turn behind which the law holds has read the right answer. -/
theorem SessionLaw.readsClose (ht : SessionLaw p routines t) (hpending : s.pending = false)
    (hserved : WellServed p event) (h : clientStep p routines s event = some t) :
    ReadsClose event := by
  obtain ⟨request, _, _, readBack, rfl, -, -, hreceived, -, hphase⟩ :=
    clientStep_wellServed hpending hserved h
  have hclosed := ht.closed
  rw [hphase, hreceived, List.getLast?_append_of_ne_nil _ (List.cons_ne_nil _ _)] at hclosed
  show readBack = closeClient ↔ request.msgId = closeClient
  simpa using hclosed

/-- The law holds behind every run whose reads all give the right answer. -/
theorem sessionLaw_of_readsClose
    (hevents : ∀ event ∈ events, WellServed p event ∧ ReadsClose event)
    (h : (handleClient p routines).run ⟨.serving, [], [], false⟩ events = some t) :
    SessionLaw p routines t := by
  suffices hboth : t.pending = false ∧ SessionLaw p routines t from hboth.2
  revert hevents
  refine Machine.run_invariant (P := fun events t =>
    (∀ event ∈ events, WellServed p event ∧ ReadsClose event) →
      t.pending = false ∧ SessionLaw p routines t)
    (fun _ => ⟨rfl, rfl, by simp⟩) ?_ h
  intro turns s event t ih hstep hevents
  obtain ⟨hserved, hreads⟩ := hevents event (by simp)
  obtain ⟨hpending, hlaw⟩ := ih fun event' hmem => hevents event' (List.mem_append_left _ hmem)
  exact ⟨pending_step hpending hserved hstep, hlaw.step hpending hserved hreads hstep⟩

/-- **Session law.** A run on well-formed requests obeys the law throughout
exactly when every id read back says whether its request was a close. -/
theorem sessionLaw_iff (hserved : ∀ event ∈ events, WellServed p event)
    (h : (handleClient p routines).run ⟨.serving, [], [], false⟩ events = some t) :
    (∀ turns s, turns <+: events →
        (handleClient p routines).run ⟨.serving, [], [], false⟩ turns = some s →
        SessionLaw p routines s) ↔
      ∀ event ∈ events, ReadsClose event := by
  constructor
  · intro hlaw event hmem
    -- the law behind the turn of this event
    obtain ⟨front, rest, rfl⟩ := List.append_of_mem hmem
    rw [Machine.run_append] at h
    obtain ⟨s, hfront, htail⟩ := Option.bind_eq_some_iff.mp h
    rw [Machine.run_cons] at htail
    obtain ⟨u, hstep, -⟩ := Option.bind_eq_some_iff.mp htail
    have hrun : (handleClient p routines).run ⟨.serving, [], [], false⟩ (front ++ [event]) =
        some u := by
      rw [Machine.run_append, hfront, Option.bind_some, Machine.run_cons, hstep]
      rfl
    have hprefix : front ++ [event] <+: front ++ event :: rest := ⟨rest, by simp⟩
    have hpending := pending_run (fun event hfront => hserved event (by simp [hfront])) hfront
    exact (hlaw _ u hprefix hrun).readsClose hpending (hserved event hmem) hstep
  · intro hreads turns s hprefix hrun
    refine sessionLaw_of_readsClose (fun event hmem => ?_) hrun
    have hevents := hprefix.subset hmem
    exact ⟨hserved event hevents, hreads event hevents⟩

/-- A peek and a close, both read back as they were received. -/
theorem sessionLaw_iff_peek_close :
    (∀ turns s, turns <+: [
          .serve ⟨messageMagic, 1, MsgId.reqPeek.toUInt32, []⟩ false [] MsgId.reqPeek.toUInt32,
          .serve ⟨messageMagic, 1, closeClient, []⟩ false [] closeClient] →
        (handleClient .linux fun _ _ => .success []).run ⟨.serving, [], [], false⟩ turns = some s →
        SessionLaw .linux (fun _ _ => .success []) s) ↔
      ∀ event ∈ [
        ClientEvent.serve ⟨messageMagic, 1, MsgId.reqPeek.toUInt32, []⟩ false
          [] MsgId.reqPeek.toUInt32,
        .serve ⟨messageMagic, 1, closeClient, []⟩ false [] closeClient], ReadsClose event :=
  sessionLaw_iff (by decide) rfl

/-- A close whose storage reads as zero once it is released: the server answers
it and goes on serving. -/
theorem not_sessionLaw_released_close :
    ∃ s, (handleClient .linux fun _ _ => .success []).run ⟨.serving, [], [], false⟩
        [.serve ⟨messageMagic, 1, closeClient, []⟩ false [] 0] = some s ∧
      s.phase = .serving ∧ s.received.getLast? = some ⟨messageMagic, 1, closeClient, []⟩ ∧
      ¬ SessionLaw .linux (fun _ _ => .success []) s := by
  refine ⟨_, rfl, rfl, rfl, fun law => ?_⟩
  have hclosed := law.closed.mpr ⟨_, rfl, rfl⟩
  exact absurd hclosed (by decide)

end RpcProject.Server
