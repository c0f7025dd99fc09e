/-
# What the server forgets to free

`rpc_dispatch` unpacks a request, has a routine build the reply, packs it and cleans it up.
The reply itself is freed by nobody. `handle_client` frees the request and the packed reply
behind each turn of its loop, but not if the turn ends the loop early.

So every reply costs the server memory, for as long as its process serves clients. This
module keeps the accounts of whole runs: which blocks each turn leaves, that they are never
freed later, and that nothing else is touched.
-/

import RpcProject.Server.RoutineBlocks

namespace RpcProject.Server.Leaks

open Foundations Foundations.Effect Protocol
open Protocol.Api (requestCodec)

/-! ## Turns -/

/-- What a receive comes to. -/
inductive Incoming
  /-- not even a size -/
  | closed
  /-- a size, but no message that decodes -/
  | broken
  | message (message : RpcMessage)
  deriving DecidableEq, Repr

/-- What comes with one turn of the loop. -/
structure Turn where
  incoming : Incoming
  /-- how many blocks unpacking the message takes beside the first one -/
  messageParts : ℕ
  /-- and how many its request takes -/
  requestParts : ℕ
  calls : Calls
  sends : Bool
  /-- the messages of terminal mode, and whether they can be sent -/
  pty : List Bool
  /-- the message id that is read from the request behind its release -/
  readBack : UInt32

/-- A connection: its handshake and its turns. -/
structure Connection where
  handshake : Bool
  turns : List Turn

/-- What `rpc_dispatch` fills a message with: the request that it is the reply to, unless
it is an error, and the payload. -/
structure Answer where
  replied : Option MsgId
  payload : Pointer
  deriving DecidableEq, Repr

section Serve

variable (build : Build) (grants : ℕ → Bool)

/-- `protobuf_c_message_unpack` of bytes that decode to `n` blocks, which it takes all or
none of -/
def unpack : ℕ → Part (Option (List Pointer))
  | 0 => return some []
  | n + 1 => do
      let p ← Blocks.malloc grants .request
      if p = .null then return none
      else
        match ← unpack n with
        | some parts => return some (p :: parts)
        | none => do
            Blocks.free p
            return none

/-- `protobuf_c_message_free_unpacked` -/
def freeUnpacked (parts : List Pointer) : Part Unit := forEach Blocks.free parts

/-- `proto_msg_send`, by the number of its successes -/
def protoMsgSend (sends : Bool) : Part Bool := do
  let buffer ← Blocks.malloc grants .buffer
  if buffer = .null then return false
  else
    Blocks.free buffer
    return sends

/-- `rpc_msg_recv` -/
def rpcMsgRecv (turn : Turn) : Part (Option (RpcMessage × List Pointer)) :=
  match turn.incoming with
  | .closed => return none
  | .broken => do
      let buffer ← Blocks.malloc grants .buffer
      Blocks.free buffer
      return none
  | .message message => do
      let buffer ← Blocks.malloc grants .buffer
      if buffer = .null then return none
      else
        let parts ← unpack grants (turn.messageParts + 1)
        Blocks.free buffer
        return parts.map fun parts => (message, parts)

/-- `reply_error`, for which a payload is asked. -/
def replyError : Part Answer := do
  let data ← Blocks.malloc grants .payload
  return ⟨none, data⟩

/-- The `switch` of `rpc_dispatch`. -/
def respond (id : MsgId) : Outcome → Part Answer
  | .serverError => replyError grants
  | .protocolError => replyError grants
  | .success reply => do
      let packed ← Blocks.malloc grants .payload
      -- without memory for the packed reply, the reply is not cleaned up
      if packed = .null then return ⟨some id, .null⟩
      else
        cleanup reply.fields
        return ⟨some id, packed⟩

/-- `rpc_dispatch` -/
def rpcDispatch (turn : Turn) (request : RpcMessage) : Part Answer :=
  match routineLookup build.platform request.msgId with
  | .error _ => replyError grants
  | .ok entry =>
      match entry.requestDescriptor.unpack request.payload with
      | none => return ⟨none, .null⟩
      | some fields => do
          match ← unpack grants (turn.requestParts + 1) with
          | none => return ⟨none, .null⟩
          | some parts => do
              let outcome ← routine build grants turn.calls entry.routine
                ((requestCodec entry.routine).read fields)
              let answer ← respond grants entry.routine outcome
              freeUnpacked parts
              return answer

/-- The sends of terminal mode, up to the first that fails. -/
def enterPtyMode : List Bool → Part Unit
  | [] => pure ()
  | sends :: rest => do
      let sent ← protoMsgSend grants sends
      if sent = true then enterPtyMode rest else pure ()

/-- A turn of the loop of `handle_client`: what is sent, and whether there is a next turn. -/
def takeTurn (turn : Turn) : Part (Option Answer × Bool) := do
  match ← rpcMsgRecv grants turn with
  | none => return (none, false)
  | some (request, parts) =>
      if request.magic ≠ messageMagic then return (none, false)
      else
        let answer ← rpcDispatch build grants turn request
        let sent ← protoMsgSend grants turn.sends
        if sent = false then return (none, false)
        else
          freeUnpacked parts
          Blocks.free answer.payload
          enterPtyMode grants turn.pty
          return (some answer, turn.readBack ≠ closeClient)

/-- The loop of `handle_client`. -/
def takeTurns : List Turn → Part (List Answer)
  | [] => return []
  | turn :: rest => do
      match ← takeTurn build grants turn with
      | (none, _) => return []
      | (some answer, false) => return [answer]
      | (some answer, true) => do
          let answers ← takeTurns rest
          return answer :: answers

/-- `handle_client` -/
def handleClient (client : Connection) : Part (List Answer) := do
  let sent ← protoMsgSend grants client.handshake
  if sent = true then takeTurns build grants client.turns else return []

end Serve

/-! ## What a dispatch leaves -/

/-- What a reply to a request costs for good. -/
def forgotten (build : Build) (calls : Calls) (id : MsgId) : Multiset Block :=
  {.reply} + keptKinds build id + beside calls id

/-- The routine that a request is dispatched to. -/
def Invokes (build : Build) (request : RpcMessage) (id : MsgId) : Prop :=
  ∃ entry, routineLookup build.platform request.msgId = .ok entry ∧ entry.routine = id

/-- What a dispatch leaves beside the payload of its answer. -/
inductive AnswerLeaves (build : Build) (calls : Calls) (request : RpcMessage) :
    Answer → Multiset Block → Prop
  /-- no routine was run -/
  | refused {payload : Pointer} : AnswerLeaves build calls request ⟨none, payload⟩ 0
  | failed {id : MsgId} {payload : Pointer} {left : Multiset Block} (hid : Invokes build request id)
      (hleft : left ≤ strays id) : AnswerLeaves build calls request ⟨none, payload⟩ left
  | replied {id : MsgId} {payload : Pointer} (hid : Invokes build request id)
      (hpayload : payload.Valid) :
      AnswerLeaves build calls request ⟨some id, payload⟩ (forgotten build calls id)
  /-- there was no memory for the packed reply -/
  | unpacked {id : MsgId} {lost : Multiset Block} (hid : Invokes build request id)
      (hlost : Pointed id lost) :
      AnswerLeaves build calls request ⟨some id, .null⟩ (forgotten build calls id + lost)

variable {build : Build} {grants : ℕ → Bool} {calls : Calls} {request : RpcMessage} {id : MsgId}
  {E : Undefined → Prop}

/-- The payload of an answer, and what is left beside it. -/
def Answered (build : Build) (calls : Calls) (request : RpcMessage) (answer : Answer)
    (left : Multiset (ℕ × Block)) : Prop :=
  answer.payload ≠ .wild ∧ ∃ rest, left = answer.payload.owns .payload + rest ∧
    AnswerLeaves build calls request answer (kinds rest)

/-- What a turn leaves that sends an answer, or none. -/
inductive TurnLeaves (build : Build) (turn : Turn) : Option Answer → Multiset Block → Prop
  | unreceived : TurnLeaves build turn none 0
  | foreign {request : RpcMessage} (hincoming : turn.incoming = .message request)
      (hmagic : request.magic ≠ messageMagic) :
      TurnLeaves build turn none ((turn.messageParts + 1) • {.request})
  | unsent {request : RpcMessage} {answer : Answer} {left payload : Multiset Block}
      (hincoming : turn.incoming = .message request)
      (hleft : AnswerLeaves build turn.calls request answer left)
        (hpayload : payload ≤ {.payload}) :
      TurnLeaves build turn none (payload + left + (turn.messageParts + 1) • {.request})
  | sent {request : RpcMessage} {answer : Answer} {left : Multiset Block}
      (hincoming : turn.incoming = .message request)
      (hleft : AnswerLeaves build turn.calls request answer left) :
      TurnLeaves build turn (some answer) left

/-- What the turns for a client leave, by the answers that are sent. -/
inductive TurnsLeave (build : Build) : List Turn → List Answer → Multiset Block → Prop
  | idle {turns : List Turn} : TurnsLeave build turns [] 0
  | stopped {turn : Turn} {rest : List Turn} {left : Multiset Block}
      (hleft : TurnLeaves build turn none left) : TurnsLeave build (turn :: rest) [] left
  | served {turn : Turn} {rest : List Turn} {answer : Answer} {answers : List Answer}
      {left later : Multiset Block} (hleft : TurnLeaves build turn (some answer) left)
      (hlater : TurnsLeave build rest answers later) :
      TurnsLeave build (turn :: rest) (answer :: answers) (left + later)

/-- What a process leaves, by the answers that are sent to its clients. -/
inductive ClientsLeave (build : Build) :
    List Connection → List (List Answer) → Multiset Block → Prop
  | nil : ClientsLeave build [] [] 0
  | cons {client : Connection} {rest : List Connection} {answers : List Answer}
      {others : List (List Answer)} {left later : Multiset Block}
      (hleft : TurnsLeave build client.turns answers left)
        (hlater : ClientsLeave build rest others later) :
      ClientsLeave build (client :: rest) (answers :: others) (left + later)

/-- The answer was made by a routine. -/
def Answer.isReply (answer : Answer) : Bool := answer.replied.isSome

/-- An answer by a routine leaves its record. -/
theorem AnswerLeaves.count_reply {answer : Answer} {left : Multiset Block}
    (h : AnswerLeaves build calls request answer left) (hreply : answer.isReply = true) :
    1 ≤ left.count .reply := by
  have hforgotten : ∀ id, 1 ≤ (forgotten build calls id).count Block.reply := fun id => by
    rw [forgotten, add_assoc, Multiset.count_add, Multiset.count_singleton_self]
    exact Nat.le_add_right 1 _
  cases h with
  | refused => simp [Answer.isReply] at hreply
  | failed hid hleft => simp [Answer.isReply] at hreply
  | replied hid hpayload => exact hforgotten _
  | unpacked hid hlost =>
    rw [Multiset.count_add]
    exact Nat.le_add_right_of_le (hforgotten _)

/-- Turns leave a record for each such answer. -/
theorem TurnsLeave.countP_le {turns : List Turn} {answers : List Answer} {left : Multiset Block}
    (h : TurnsLeave build turns answers left) :
    answers.countP Answer.isReply ≤ left.count .reply := by
  induction h with
  | idle => exact Nat.le_refl _
  | stopped hleft => exact Nat.zero_le _
  | served hleft hlater ih =>
    cases hleft with
    | sent hincoming hleft =>
      rw [List.countP_cons, Multiset.count_add, Nat.add_comm]
      refine Nat.add_le_add ?_ ih
      split
      · exact hleft.count_reply ‹_›
      · exact Nat.zero_le _

theorem ClientsLeave.countP_le {clients : List Connection} {answers : List (List Answer)}
    {left : Multiset Block} (h : ClientsLeave build clients answers left) :
    answers.flatten.countP Answer.isReply ≤ left.count .reply := by
  induction h with
  | nil => exact Nat.le_refl _
  | cons hleft hlater ih =>
    rw [List.flatten_cons, List.countP_append, Multiset.count_add]
    exact Nat.add_le_add hleft.countP_le ih

end RpcProject.Server.Leaks
