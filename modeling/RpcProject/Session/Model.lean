/-
# One connection

Any number of calls share one socket to one server. The state holds both ends
and the two byte streams between them, and one step is what one party does
between two await points or system calls.

On the client, `rpc_call` takes the socket's protocol lock, sends its request
and receives a reply; `spawn` takes the lock of its `CoreClient` around a call of
`REQ_EXEC`, and goes on with `enter_pty_mode` when the call succeeded and the
child runs in the foreground. A call may leave by an exception wherever it
waits. Bridges cloned from one another share the socket, so a call is the same
whichever of them it is made through.

On the server, `handle_client` reads a request, dispatches it and sends the
reply; after a foreground `REQ_EXEC` it enters its terminal mode, in which all
that the client sends goes to the child.

Bytes on the streams carry marks that say who put them there. No step looks at a
mark; they let the states be judged.
-/

import Mathlib.Logic.Function.Basic
import RpcProject.Client.RpcBridge
import RpcProject.Client.RpcSocket
import RpcProject.Foundations.FairLock
import RpcProject.Foundations.Machine
import RpcProject.Protocol.Protobuf
import RpcProject.Server.Dispatch
import RpcProject.Server.Terminal

namespace RpcProject.Session

open Foundations Foundations.Wire Protocol Client Server

/-! ## Marked bytes -/

abbrev CallId := ℕ

/-- A `CoreClient`, by its lock. -/
abbrev ClientId := ℕ

/-- Who sent a byte to the server: a call as part of its request, or a call as
terminal input. -/
inductive Origin
  | request (call : CallId)
  | input (call : CallId)
  deriving DecidableEq, Repr

/-- Why the server sent a byte: as part of the reply to a request that one call
sent (or that several calls sent together), or in its terminal mode. -/
inductive Source
  | reply (author : Option CallId)
  | terminal
  deriving DecidableEq, Repr

abbrev UpByte := UInt8 × Origin

abbrev DownByte := UInt8 × Source

/-- Put one mark on all bytes. -/
def marked {τ : Type} (mark : τ) (bytes : Bytes) : List (UInt8 × τ) := bytes.map fun b => (b, mark)

def unmarked {τ : Type} (bytes : List (UInt8 × τ)) : Bytes := bytes.map Prod.fst

/-- The call that sent all of these bytes as part of its request. -/
def author : List UpByte → Option CallId
  | (_, .request call) :: rest =>
      if rest.all fun b => b.2 = .request call then some call else none
  | _ => none

/-! ## The server process -/

/-- The two ends of a connection. On one end is the parser of the client. On the other is
the process behind the server: its routines in each state, and the state after a request.
A packed reply stays within the size limit of its format. -/
structure Peers (σ : Type) where
  parser : EnvelopeParser
  platform : Platform
  routines : σ → Routines
  next : σ → RpcMessage → σ
  fits : ∀ s id fields packed, routines s id fields = .success packed →
    packed.length ≤ maxDelimited

/-- The reply to a request in a state. -/
def Peers.reply {σ : Type} (P : Peers σ) (s : σ) (request : RpcMessage) : RpcMessage :=
  rpcDispatch P.platform (P.routines s) request

/-- Whether a request asks for a child in the foreground. -/
def foreground (request : RpcMessage) : Bool :=
  request.msgId = MsgId.reqExec.toUInt32 &&
    match scan request.payload with
    | none => false
    | some fields => !lastBool 1 fields

/-- Whether an exchange ends with a child in the foreground: the server has set
`g_pending_pty`, and `spawn` goes on with `enter_pty_mode`. -/
def opensTerminal (request reply : RpcMessage) : Bool :=
  foreground request && reply.msgId = MsgId.reqExec.reply

/-! ## The state -/

/-- One `rpc_call`, with the client whose `spawn` makes it, if one does. -/
structure Call where
  request : RpcMessage
  client : Option ClientId
  deriving DecidableEq, Repr

/-- Where a call is. It receives its reply, and in terminal mode the messages of
the server, into `got`. -/
inductive Phase
  | idle
  | awaitClient (call : Call)
  | awaitSocket (call : Call)
  | sending (call : Call) (rest : Bytes)
  | receiving (call : Call) (got : List DownByte)
  | terminal (call : Call) (got : List DownByte)
  | returned
  | raised
  deriving DecidableEq, Repr

/-- Where the server is: reading a request, in terminal mode, or gone. -/
inductive ServerMode
  | serving (got : List UpByte)
  | terminal
  | closed
  deriving DecidableEq, Repr

/-- A request that was dispatched. -/
structure Served where
  author : Option CallId
  request : RpcMessage
  reply : RpcMessage
  deriving DecidableEq, Repr

/-- A reply that a call received, with its marked bytes. -/
structure Delivered where
  call : CallId
  request : RpcMessage
  bytes : List DownByte
  reply : RpcMessage
  deriving DecidableEq, Repr

structure State (σ : Type) where
  process : σ
  mode : ServerMode
  /-- the stream to the server -/
  up : List UpByte
  /-- the stream to the client -/
  down : List DownByte
  lock : FairLock CallId
  clientLock : ClientId → FairLock CallId
  phase : CallId → Phase
  served : List Served
  delivered : List Delivered
  /-- all bytes that `handle_client` has read -/
  consumed : List UpByte
  /-- all bytes that calls have sent as terminal input -/
  forwarded : List UpByte
  /-- all bytes that `enter_pty_mode` of the server has read -/
  childInput : List UpByte

inductive Action
  | rpcCall (c : CallId) (request : RpcMessage)
  | spawn (c : CallId) (client : ClientId) (request : RpcMessage)
  | clientLockGranted (c : CallId)
  | socketLockGranted (c : CallId)
  | sockSendall (c : CallId) (count : ℕ)
  | sockRecv (c : CallId) (count : ℕ)
  | raise (c : CallId)
  | forwardStdin (c : CallId) (buf : Bytes)
  | serverRecv (count : ℕ) (readBack : Bool)
  | childOutput (buf : Bytes)
  | childInput (count : ℕ)
  | childRefuses (count : ℕ) (readBack : Bool)
  | childExit (status : UInt32) (readBack : Bool)
  | serverDies
  deriving DecidableEq, Repr

namespace State

variable {σ : Type}

def setPhase (s : State σ) (c : CallId) (phase : Phase) : State σ :=
  { s with phase := Function.update s.phase c phase }

def setClientLock (s : State σ) (client : ClientId) (lock : FairLock CallId) : State σ :=
  { s with clientLock := Function.update s.clientLock client lock }

def releaseSocket (s : State σ) : State σ := { s with lock := s.lock.release }

/-- The client locks after a call is over: `spawn` releases the lock of its client. -/
def releaseClient (s : State σ) (call : Call) : ClientId → FairLock CallId :=
  match call.client with
  | none => s.clientLock
  | some client => Function.update s.clientLock client (s.clientLock client).release

/-- A call is over. -/
def leave (s : State σ) (c : CallId) (call : Call) (phase : Phase) : State σ :=
  { s with clientLock := s.releaseClient call }.setPhase c phase

/-! ## Steps of the client -/

/-- Requests as `rpc_msg_send` packs them: with the magic, and below the size
limit of the format. -/
def Admissible (request : RpcMessage) : Prop :=
  request.magic = messageMagic ∧ request.payload.length ≤ maxDelimited

instance (request : RpcMessage) : Decidable (Admissible request) :=
  inferInstanceAs (Decidable (_ ∧ _))

/-- The requests that a bridge makes, if their payloads fit. -/
theorem admissible_callRequest {messages : RpcMessageRegistry} {clientId msgId : UInt32}
    {payload : Bytes} {request : RpcMessage}
    (h : callRequest messages clientId msgId payload = .ok request)
    (hpayload : payload.length ≤ maxDelimited) : Admissible request := by
  unfold callRequest at h
  split at h
  · cases h
  · obtain rfl := Except.ok.inj h
    exact ⟨rfl, hpayload⟩

/-- The call holds the socket's lock and has its whole frame to send. -/
def startSending (s : State σ) (c : CallId) (call : Call) (lock : FairLock CallId) : State σ :=
  { s with lock := lock }.setPhase c (.sending call (frame sizeHeader call.request.pack))

/-- `rpc_msg_send_recv` up to the socket's lock. -/
def acquireSocket (s : State σ) (c : CallId) (call : Call) : State σ :=
  match s.lock.tryAcquire c with
  | some lock => s.startSending c call lock
  | none => { s with lock := s.lock.enqueue c }.setPhase c (.awaitSocket call)

/-- `rpc_call`. A child in the foreground is started by `spawn` only. -/
def rpcCall (s : State σ) (c : CallId) (request : RpcMessage) : Option (State σ) :=
  if s.phase c = .idle ∧ Admissible request ∧ foreground request = false then
    some (s.acquireSocket c ⟨request, none⟩)
  else none

/-- `spawn` up to the lock of its client, and on if that is free. -/
def spawn (s : State σ) (c : CallId) (client : ClientId) (request : RpcMessage) :
    Option (State σ) :=
  if s.phase c = .idle ∧ Admissible request ∧ request.msgId = MsgId.reqExec.toUInt32 then
    match (s.clientLock client).tryAcquire c with
    | some lock => some ((s.setClientLock client lock).acquireSocket c ⟨request, some client⟩)
    | none =>
        some ((s.setClientLock client ((s.clientLock client).enqueue c)).setPhase c
          (.awaitClient ⟨request, some client⟩))
  else none

def clientLockGranted (s : State σ) (c : CallId) : Option (State σ) :=
  match s.phase c with
  | .awaitClient call =>
      match call.client with
      | none => none
      | some client =>
          ((s.clientLock client).grant c).map fun lock =>
            (s.setClientLock client lock).acquireSocket c call
  | _ => none

def socketLockGranted (s : State σ) (c : CallId) : Option (State σ) :=
  match s.phase c with
  | .awaitSocket call => (s.lock.grant c).map fun lock => s.startSending c call lock
  | _ => none

/-- `sock_sendall` sends some more bytes. -/
def sockSendall (s : State σ) (c : CallId) (count : ℕ) : Option (State σ) :=
  match s.phase c with
  | .sending call rest =>
      if 0 < count ∧ count ≤ rest.length then
        some ({ s with up := s.up ++ marked (Origin.request c) (rest.take count) }.setPhase c
          (if rest.drop count = [] then .receiving call [] else .sending call (rest.drop count)))
      else none
  | _ => none

/-- The reply is there: the socket's lock is free again, and `spawn` goes on
with the terminal if there is one. -/
def replyReceived (s : State σ) (c : CallId) (call : Call) (bytes : List DownByte)
    (reply : RpcMessage) : State σ :=
  let s : State σ := { s.releaseSocket with
    delivered := s.delivered ++ [⟨c, call.request, bytes, reply⟩] }
  if call.client.isSome && opensTerminal call.request reply then s.setPhase c (.terminal call [])
  else s.leave c call .returned

/-- `rpc_msg_recv` with more bytes of the reply. It goes on as `resume` does. -/
def receiveReply (s : State σ) (P : Peers σ) (c : CallId) (call : Call) (bytes : List DownByte) :
    State σ :=
  match receipt (unmarked bytes) with
  | .short => s.releaseSocket.leave c call .raised
  | .open => s.setPhase c (.receiving call bytes)
  | .whole =>
      match P.parser.parse (frameBody sizeHeader (unmarked bytes)) with
      | none => s.releaseSocket.leave c call .raised
      | some reply => s.replyReceived c call bytes reply

/-- `rpc_msg_recv_pty` with more bytes of a message. The exit code ends the call. -/
def receiveTerminal (s : State σ) (P : Peers σ) (c : CallId) (call : Call)
    (bytes : List DownByte) : State σ :=
  match receipt (unmarked bytes) with
  | .short => s.leave c call .raised
  | .open => s.setPhase c (.terminal call bytes)
  | .whole =>
      match P.parser.parsePty (frameBody sizeHeader (unmarked bytes)) with
      | none => s.leave c call .raised
      | some (.exitCode _) => s.leave c call .returned
      | some _ => s.setPhase c (.terminal call [])

/-- `sock_recv` may return `count` bytes to a receiver that has `got`. -/
def Receives (s : State σ) (got : List DownByte) (count : ℕ) : Prop :=
  0 < count ∧ count ≤ frameNeed sizeHeader (unmarked got) ∧ count ≤ s.down.length

instance (s : State σ) (got : List DownByte) (count : ℕ) : Decidable (s.Receives got count) :=
  inferInstanceAs (Decidable (_ ∧ _ ∧ _))

/-- The stream to the client without its first `count` bytes. -/
def takeDown (s : State σ) (count : ℕ) : State σ := { s with down := s.down.drop count }

def sockRecv (s : State σ) (P : Peers σ) (c : CallId) (count : ℕ) : Option (State σ) :=
  match s.phase c with
  | .receiving call got =>
      if s.Receives got count then
        some ((s.takeDown count).receiveReply P c call (got ++ s.down.take count))
      else none
  | .terminal call got =>
      if s.Receives got count then
        some ((s.takeDown count).receiveTerminal P c call (got ++ s.down.take count))
      else none
  | _ => none

/-- The call leaves by an exception where it waits, and gives back what it holds. -/
def raise (s : State σ) (c : CallId) : Option (State σ) :=
  match s.phase c with
  | .awaitClient call =>
      match call.client with
      | none => none
      | some client =>
          some ((s.setClientLock client ((s.clientLock client).withdraw c)).setPhase c .raised)
  -- the `async with` of the client is left, if there is one
  | .awaitSocket call => some ({ s with lock := s.lock.withdraw c }.leave c call .raised)
  -- both locks are given back, and what was sent stays sent
  | .sending call _ => some (s.releaseSocket.leave c call .raised)
  | .receiving call _ => some (s.releaseSocket.leave c call .raised)
  | .terminal call _ => some (s.leave c call .raised)
  | _ => none

/-- `enter_pty_mode` of the client forwards terminal input. -/
def forwardStdin (s : State σ) (c : CallId) (buf : Bytes) : Option (State σ) :=
  match s.phase c with
  | .terminal _ [] =>
      if buf ≠ [] then
        some { s with
          up := s.up ++ marked (.input c) buf
          forwarded := s.forwarded ++ marked (.input c) buf }
      else none
  | _ => none

/-! ## Steps of the server -/

/-- After a request, and after terminal mode, `handle_client` reads the id of a
request it has freed, and stops if that reads as `REQ_CLOSE_CLIENT`. -/
def afterRequest (readBack : Bool) : ServerMode := if readBack then .closed else .serving []

/-- Dispatch a request and send the reply. -/
def dispatchRequest (s : State σ) (P : Peers σ) (author : Option CallId) (request : RpcMessage)
    (readBack : Bool) : State σ :=
  let reply := P.reply s.process request
  { s with
    process := P.next s.process request
    served := s.served ++ [⟨author, request, reply⟩]
    down := s.down ++ marked (.reply author) (frame sizeHeader reply.pack)
    mode := if opensTerminal request reply then .terminal else afterRequest readBack }

/-- A whole request is there: unpack it and check its magic. -/
def handleRequest (s : State σ) (P : Peers σ) (bytes : List UpByte) (readBack : Bool) :
    State σ :=
  match RpcMessage.unpack (frameBody sizeHeader (unmarked bytes)) with
  | none => { s with mode := .closed }
  | some request =>
      if request.magic = messageMagic then s.dispatchRequest P (author bytes) request readBack
      else { s with mode := .closed }

/-- `handle_client` reads `count` bytes of the stream. -/
def consume (s : State σ) (count : ℕ) : State σ :=
  { s with
    up := s.up.drop count
    consumed := s.consumed ++ s.up.take count }

/-- `handle_client` receives some more bytes of a request. -/
def serverRecv (s : State σ) (P : Peers σ) (count : ℕ) (readBack : Bool) : Option (State σ) :=
  match s.mode with
  | .serving got =>
      if 0 < count ∧ count ≤ frameNeed sizeHeader (unmarked got) ∧ count ≤ s.up.length then
        -- `proto_msg_recv` returns when it needs nothing more
        if frameNeed sizeHeader (unmarked (got ++ s.up.take count)) = 0 then
          some ((s.consume count).handleRequest P (got ++ s.up.take count) readBack)
        else some { s.consume count with mode := .serving (got ++ s.up.take count) }
      else none
  | _ => none

/-- The marked frame of a terminal message. -/
def terminalFrame (m : RpcPtyMessage) : List DownByte := marked .terminal (frame sizeHeader m.pack)

def childOutput (s : State σ) (buf : Bytes) : Option (State σ) :=
  if s.mode = .terminal ∧ FitsBuffer buf then
    some { s with down := s.down ++ terminalFrame (.buffer buf) }
  else none

/-- The server's terminal mode reads what the client sent, for the child. -/
def readInput (s : State σ) (count : ℕ) : State σ :=
  { s with
    up := s.up.drop count
    childInput := s.childInput ++ s.up.take count }

def childInputStep (s : State σ) (count : ℕ) : Option (State σ) :=
  if s.mode = .terminal ∧ 0 < count ∧ count ≤ rpcPtyBufferSize ∧ count ≤ s.up.length then
    some (s.readInput count)
  else none

/-- A write to the child fails, and the terminal mode ends without an exit code. -/
def childRefuses (s : State σ) (count : ℕ) (readBack : Bool) : Option (State σ) :=
  if s.mode = .terminal ∧ 0 < count ∧ count ≤ rpcPtyBufferSize ∧ count ≤ s.up.length then
    some { s.readInput count with mode := afterRequest readBack }
  else none

/-- The terminal mode ends with an exit code. -/
def childExit (s : State σ) (status : UInt32) (readBack : Bool) : Option (State σ) :=
  if s.mode = .terminal then
    some { s with
      down := s.down ++ terminalFrame (.exitCode status)
      mode := afterRequest readBack }
  else none

/-! ## The machine -/

def step (P : Peers σ) (s : State σ) : Action → Option (State σ)
  | .rpcCall c request => s.rpcCall c request
  | .spawn c client request => s.spawn c client request
  | .clientLockGranted c => s.clientLockGranted c
  | .socketLockGranted c => s.socketLockGranted c
  | .sockSendall c count => s.sockSendall c count
  | .sockRecv c count => s.sockRecv P c count
  | .raise c => s.raise c
  | .forwardStdin c buf => s.forwardStdin c buf
  | .serverRecv count readBack => s.serverRecv P count readBack
  | .childOutput buf => s.childOutput buf
  | .childInput count => s.childInputStep count
  | .childRefuses count readBack => s.childRefuses count readBack
  | .childExit status readBack => s.childExit status readBack
  | .serverDies => some { s with mode := .closed }

/-- The connection after the handshake. -/
def initial (process : σ) : State σ where
  process := process
  mode := .serving []
  up := []
  down := []
  lock := .free
  clientLock _ := .free
  phase _ := .idle
  served := []
  delivered := []
  consumed := []
  forwarded := []
  childInput := []

/-! ## What a step does

One lemma for each action says when it can happen and what it leaves. -/

section Inversion

variable {P : Peers σ} {s t : State σ} {c : CallId} {client : ClientId} {request : RpcMessage}
  {call : Call} {count : ℕ} {buf : Bytes} {status : UInt32} {readBack : Bool}
    {bytes : List DownByte}

/-- When one call changes its phase, any other is where it was. -/
theorem phase_update {phase : Phase} (hphase : t.phase = Function.update s.phase c phase)
    (v : CallId) : v = c ∧ t.phase v = phase ∨ v ≠ c ∧ t.phase v = s.phase v := by
  rw [hphase]
  by_cases hvc : v = c
  · subst hvc
    exact Or.inl ⟨rfl, Function.update_self _ _ _⟩
  · exact Or.inr ⟨hvc, Function.update_of_ne hvc _ _⟩

theorem acquireSocket_cases (s : State σ) (c : CallId) (call : Call) :
    (∃ lock, s.lock.tryAcquire c = some lock ∧
      s.acquireSocket c call = s.startSending c call lock) ∨
    s.lock.tryAcquire c = none ∧ s.acquireSocket c call =
      { s with lock := s.lock.enqueue c }.setPhase c (.awaitSocket call) := by
  unfold acquireSocket
  cases h : s.lock.tryAcquire c with
  | some lock => exact Or.inl ⟨lock, rfl, rfl⟩
  | none => exact Or.inr ⟨rfl, rfl⟩

theorem rpcCall_eq_some (h : s.rpcCall c request = some t) :
    s.phase c = .idle ∧ Admissible request ∧ foreground request = false ∧
      t = s.acquireSocket c ⟨request, none⟩ := by
  unfold rpcCall at h
  split at h
  · next hguard => exact ⟨hguard.1, hguard.2.1, hguard.2.2, (Option.some.inj h).symm⟩
  · cases h

theorem spawn_eq_some (h : s.spawn c client request = some t) :
    s.phase c = .idle ∧ Admissible request ∧ request.msgId = MsgId.reqExec.toUInt32 ∧
      ((∃ lock, (s.clientLock client).tryAcquire c = some lock ∧
          t = (s.setClientLock client lock).acquireSocket c ⟨request, some client⟩) ∨
        (s.clientLock client).tryAcquire c = none ∧
          t = (s.setClientLock client ((s.clientLock client).enqueue c)).setPhase c
            (.awaitClient ⟨request, some client⟩)) := by
  unfold spawn at h
  split at h
  · next hguard =>
    refine ⟨hguard.1, hguard.2.1, hguard.2.2, ?_⟩
    cases hlock : (s.clientLock client).tryAcquire c with
    | some lock =>
      rw [hlock] at h
      exact Or.inl ⟨lock, rfl, (Option.some.inj h).symm⟩
    | none =>
      rw [hlock] at h
      exact Or.inr ⟨rfl, (Option.some.inj h).symm⟩
  · cases h

theorem clientLockGranted_eq_some (h : s.clientLockGranted c = some t) :
    ∃ call client lock, s.phase c = .awaitClient call ∧ call.client = some client ∧
      (s.clientLock client).grant c = some lock ∧
      t = (s.setClientLock client lock).acquireSocket c call := by
  unfold clientLockGranted at h
  split at h
  · next call hphase =>
    split at h
    · cases h
    · next client hclient =>
      obtain ⟨lock, hlock, rfl⟩ := Option.map_eq_some_iff.mp h
      exact ⟨call, client, lock, hphase, hclient, hlock, rfl⟩
  · cases h

theorem socketLockGranted_eq_some (h : s.socketLockGranted c = some t) :
    ∃ call lock, s.phase c = .awaitSocket call ∧ s.lock.grant c = some lock ∧
      t = s.startSending c call lock := by
  unfold socketLockGranted at h
  split at h
  · next call hphase =>
    obtain ⟨lock, hlock, rfl⟩ := Option.map_eq_some_iff.mp h
    exact ⟨call, lock, hphase, hlock, rfl⟩
  · cases h

theorem sockSendall_eq_some (h : s.sockSendall c count = some t) :
    ∃ call rest, s.phase c = .sending call rest ∧ 0 < count ∧ count ≤ rest.length ∧
      t = { s with up := s.up ++ marked (Origin.request c) (rest.take count) }.setPhase c
        (if rest.drop count = [] then .receiving call [] else .sending call (rest.drop count)) := by
  unfold sockSendall at h
  split at h
  · next call rest hphase =>
    split at h
    · next hcount => exact ⟨call, rest, hphase, hcount.1, hcount.2, (Option.some.inj h).symm⟩
    · cases h
  · cases h

theorem sockRecv_eq_some (h : s.sockRecv P c count = some t) :
    ∃ call got, s.Receives got count ∧
      (s.phase c = .receiving call got ∧
          t = (s.takeDown count).receiveReply P c call (got ++ s.down.take count) ∨
        s.phase c = .terminal call got ∧
          t = (s.takeDown count).receiveTerminal P c call (got ++ s.down.take count)) := by
  unfold sockRecv at h
  split at h
  · next call got hphase =>
    split at h
    · next hreceives =>
      exact ⟨call, got, hreceives, Or.inl ⟨hphase, (Option.some.inj h).symm⟩⟩
    · cases h
  · next call got hphase =>
    split at h
    · next hreceives =>
      exact ⟨call, got, hreceives, Or.inr ⟨hphase, (Option.some.inj h).symm⟩⟩
    · cases h
  · cases h

/-- A receive of the reply ends the call with an exception, goes on, opens the
terminal or ends the call. -/
theorem receiveReply_cases (P : Peers σ) (s : State σ) (c : CallId) (call : Call)
    (bytes : List DownByte) :
    s.receiveReply P c call bytes = s.releaseSocket.leave c call .raised ∨
    s.receiveReply P c call bytes = s.setPhase c (.receiving call bytes) ∨
    ∃ reply, P.parser.parse (frameBody sizeHeader (unmarked bytes)) = some reply ∧
      s.receiveReply P c call bytes = s.replyReceived c call bytes reply := by
  unfold receiveReply
  split
  · exact Or.inl rfl
  · exact Or.inr (Or.inl rfl)
  · cases h : P.parser.parse (frameBody sizeHeader (unmarked bytes)) with
    | none => exact Or.inl rfl
    | some reply => exact Or.inr (Or.inr ⟨reply, rfl, rfl⟩)

/-- A receive in terminal mode ends the call or leaves it in terminal mode. -/
theorem receiveTerminal_cases (P : Peers σ) (s : State σ) (c : CallId) (call : Call)
    (bytes : List DownByte) :
    (∃ phase, (phase = .returned ∨ phase = .raised) ∧
      s.receiveTerminal P c call bytes = s.leave c call phase) ∨
    ∃ got, s.receiveTerminal P c call bytes = s.setPhase c (.terminal call got) := by
  unfold receiveTerminal
  split
  · exact Or.inl ⟨_, Or.inr rfl, rfl⟩
  · exact Or.inr ⟨_, rfl⟩
  · split
    · exact Or.inl ⟨_, Or.inr rfl, rfl⟩
    · exact Or.inl ⟨_, Or.inl rfl, rfl⟩
    · exact Or.inr ⟨_, rfl⟩

/-- An exception leaves the streams and the server alone. -/
theorem raise_eq_some (h : s.raise c = some t) :
    ∃ lock clientLock, t =
      ({ s with lock := lock, clientLock := clientLock } : State σ).setPhase c .raised := by
  unfold raise at h
  split at h
  · split at h
    · cases h
    · exact ⟨_, _, (Option.some.inj h).symm⟩
  · exact ⟨_, _, (Option.some.inj h).symm⟩
  · exact ⟨_, _, (Option.some.inj h).symm⟩
  · exact ⟨_, _, (Option.some.inj h).symm⟩
  · exact ⟨_, _, (Option.some.inj h).symm⟩
  · cases h

theorem forwardStdin_eq_some (h : s.forwardStdin c buf = some t) :
    ∃ call, s.phase c = .terminal call [] ∧ buf ≠ [] ∧
      t = { s with
        up := s.up ++ marked (Origin.input c) buf
        forwarded := s.forwarded ++ marked (Origin.input c) buf } := by
  unfold forwardStdin at h
  split at h
  · next call hphase =>
    split at h
    · next hbuf => exact ⟨call, hphase, hbuf, (Option.some.inj h).symm⟩
    · cases h
  · cases h

theorem serverRecv_eq_some (h : s.serverRecv P count readBack = some t) :
    ∃ got, s.mode = .serving got ∧ 0 < count ∧
      count ≤ frameNeed sizeHeader (unmarked got) ∧ count ≤ s.up.length ∧
      t = if frameNeed sizeHeader (unmarked (got ++ s.up.take count)) = 0 then
          (s.consume count).handleRequest P (got ++ s.up.take count) readBack
        else { s.consume count with mode := .serving (got ++ s.up.take count) } := by
  unfold serverRecv at h
  split at h
  · next got hmode =>
    split at h
    · next hcount =>
      refine ⟨got, hmode, hcount.1, hcount.2.1, hcount.2.2, ?_⟩
      split at h
      · next hwhole => rw [if_pos hwhole, Option.some.inj h]
      · next hopen => rw [if_neg hopen, Option.some.inj h]
    · cases h
  · cases h

/-- A whole request is dispatched, or closes the connection. -/
theorem handleRequest_cases (s : State σ) (P : Peers σ) (frame : List UpByte) (readBack : Bool) :
    s.handleRequest P frame readBack = { s with mode := .closed } ∨
    ∃ request, RpcMessage.unpack (frameBody sizeHeader (unmarked frame)) = some request ∧
      s.handleRequest P frame readBack = s.dispatchRequest P (author frame) request readBack := by
  unfold handleRequest
  cases h : RpcMessage.unpack (frameBody sizeHeader (unmarked frame)) with
  | none => exact Or.inl rfl
  | some request =>
    by_cases hmagic : request.magic = messageMagic
    · exact Or.inr ⟨request, rfl, if_pos hmagic⟩
    · exact Or.inl (if_neg hmagic)

theorem childOutput_eq_some (h : s.childOutput buf = some t) :
    s.mode = .terminal ∧ FitsBuffer buf ∧
      t = { s with down := s.down ++ terminalFrame (.buffer buf) } := by
  unfold childOutput at h
  split at h
  · next hguard => exact ⟨hguard.1, hguard.2, (Option.some.inj h).symm⟩
  · cases h

theorem childInputStep_eq_some (h : s.childInputStep count = some t) :
    s.mode = .terminal ∧ 0 < count ∧ count ≤ s.up.length ∧ t = s.readInput count := by
  unfold childInputStep at h
  split at h
  · next hguard => exact ⟨hguard.1, hguard.2.1, hguard.2.2.2, (Option.some.inj h).symm⟩
  · cases h

theorem childRefuses_eq_some (h : s.childRefuses count readBack = some t) :
    s.mode = .terminal ∧ 0 < count ∧ count ≤ s.up.length ∧
      t = { s.readInput count with mode := afterRequest readBack } := by
  unfold childRefuses at h
  split at h
  · next hguard => exact ⟨hguard.1, hguard.2.1, hguard.2.2.2, (Option.some.inj h).symm⟩
  · cases h

theorem childExit_eq_some (h : s.childExit status readBack = some t) :
    s.mode = .terminal ∧ t = { s with
      down := s.down ++ terminalFrame (.exitCode status)
      mode := afterRequest readBack } := by
  unfold childExit at h
  split at h
  · next hmode => exact ⟨hmode, (Option.some.inj h).symm⟩
  · cases h

/-- Which call makes a step, if a call does. -/
def actor : Action → Option CallId
  | .rpcCall c _ => some c
  | .spawn c _ _ => some c
  | .clientLockGranted c => some c
  | .socketLockGranted c => some c
  | .sockSendall c _ => some c
  | .sockRecv c _ => some c
  | .raise c => some c
  | .forwardStdin c _ => some c
  | _ => none

/-- The steps of the calls one by one, and those of the server and its child together. -/
@[elab_as_elim]
theorem action_cases {motive : Action → Prop} (a : Action)
    (server : ∀ a, actor a = none → motive a)
    (rpcCall : ∀ c request, motive (.rpcCall c request))
    (spawn : ∀ c client request, motive (.spawn c client request))
    (clientLockGranted : ∀ c, motive (.clientLockGranted c))
    (socketLockGranted : ∀ c, motive (.socketLockGranted c))
    (sockSendall : ∀ c count, motive (.sockSendall c count))
    (sockRecv : ∀ c count, motive (.sockRecv c count))
    (raise : ∀ c, motive (.raise c))
    (forwardStdin : ∀ c buf, motive (.forwardStdin c buf)) : motive a := by
  cases a with
  | rpcCall c request => exact rpcCall c request
  | spawn c client request => exact spawn c client request
  | clientLockGranted c => exact clientLockGranted c
  | socketLockGranted c => exact socketLockGranted c
  | sockSendall c count => exact sockSendall c count
  | sockRecv c count => exact sockRecv c count
  | raise c => exact raise c
  | forwardStdin c buf => exact forwardStdin c buf
  | serverRecv count readBack => exact server _ rfl
  | childOutput buf => exact server _ rfl
  | childInput count => exact server _ rfl
  | childRefuses count readBack => exact server _ rfl
  | childExit status readBack => exact server _ rfl
  | serverDies => exact server _ rfl

/-- The steps of the server and its child touch no call and no lock. -/
theorem step_server {a : Action} (h : step P s a = some t) (ha : actor a = none) :
    t.lock = s.lock ∧ t.clientLock = s.clientLock ∧ t.phase = s.phase ∧
      t.delivered = s.delivered ∧ t.forwarded = s.forwarded := by
  cases a with
  | serverRecv count readBack =>
    obtain ⟨got, -, -, -, -, rfl⟩ := serverRecv_eq_some h
    split
    · rcases handleRequest_cases (s.consume count) P (got ++ s.up.take count) readBack with
        heq | ⟨request, -, heq⟩
      · rw [heq]
        exact ⟨rfl, rfl, rfl, rfl, rfl⟩
      · rw [heq]
        exact ⟨rfl, rfl, rfl, rfl, rfl⟩
    · exact ⟨rfl, rfl, rfl, rfl, rfl⟩
  | childOutput buf =>
    obtain ⟨-, -, rfl⟩ := childOutput_eq_some h
    exact ⟨rfl, rfl, rfl, rfl, rfl⟩
  | childInput count =>
    obtain ⟨-, -, -, rfl⟩ := childInputStep_eq_some h
    exact ⟨rfl, rfl, rfl, rfl, rfl⟩
  | childRefuses count readBack =>
    obtain ⟨-, -, -, rfl⟩ := childRefuses_eq_some h
    exact ⟨rfl, rfl, rfl, rfl, rfl⟩
  | childExit status readBack =>
    obtain ⟨-, rfl⟩ := childExit_eq_some h
    exact ⟨rfl, rfl, rfl, rfl, rfl⟩
  | serverDies =>
    obtain rfl := Option.some.inj h
    exact ⟨rfl, rfl, rfl, rfl, rfl⟩
  | rpcCall c request => cases ha
  | spawn c client request => cases ha
  | clientLockGranted c => cases ha
  | socketLockGranted c => cases ha
  | sockSendall c count => cases ha
  | sockRecv c count => cases ha
  | raise c => cases ha
  | forwardStdin c buf => cases ha

end Inversion

end State

/-- The connection as a machine. -/
def machine {σ : Type} (P : Peers σ) : Machine (State σ) Action where
  start s := ∃ process, s = State.initial process
  step := State.step P

/-- A Linux server whose routines succeed with empty replies, and a client that reads as
the server does. -/
def quietPeers : Peers Unit where
  parser := .standard
  platform := .linux
  routines _ _ _ := .success []
  next process _ := process
  fits := by
    rintro _ _ _ _ ⟨⟩
    exact Nat.zero_le _

/-- A request without payload. -/
def bareRequest (id : MsgId) : RpcMessage := ⟨messageMagic, 7, id.toUInt32, []⟩

/-- The way of one call through its request, which the server handles at once. -/
def opening : List Action :=
  [.sockSendall 0 17, .serverRecv 8 false, .serverRecv 9 false, .sockRecv 0 8, .sockRecv 0 8]

/-- A `spawn` of client 0 whose terminal opens. -/
def openTerminal : List Action := .spawn 0 0 (bareRequest .reqExec) :: opening

end RpcProject.Session
