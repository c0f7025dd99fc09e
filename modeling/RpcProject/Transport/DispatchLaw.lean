/-
# The reply to every request

The server answers a request with an error reply or with the reply of its
routine, and the client's `rpc_call` makes of it an exception or a reply of the
expected class. Both hold unless the request's payload does not unpack under the
descriptor of its routine: that request gets a reply with message id zero, which
the client does not know. The client's protobuf parser is a parameter, and it
must accept the packed replies of the routine.
-/

import RpcProject.Client.RpcBridge
import RpcProject.Server.Dispatch

namespace RpcProject.Transport

open Foundations Foundations.Wire Protocol Client Server

/-- The law of replies, for one request and its reply. -/
structure ReplyLaw (p : Platform) (routines : Routines) (messages : RpcMessageRegistry)
    (parse : Parser) (request reply : RpcMessage) : Prop where
  /-- The reply is an error reply, or the routine's reply under the reply id. -/
  filled :
    (reply.msgId = repError ∧ ∃ error, ReplyError.unpack reply.payload = some error) ∨
    ∃ entry fields, routineLookup p request.msgId = .ok entry ∧
      entry.requestDescriptor.unpack request.payload = some fields ∧
      routines entry.routine fields = .success reply.payload ∧
      reply.msgId = request.msgId + rpcMaxReqMsgId
  /-- The call raises `ServerResponseError` or returns the request's reply class. -/
  answered :
    (∃ message, callReply messages parse reply = .error (.serverResponseError message)) ∨
    ∃ id : MsgId, id.toUInt32 = request.msgId ∧
      callReply messages parse reply = .ok (.reply id, reply.payload)

/-- The requests that are answered as the law says: no routine is found, or the
payload unpacks and the client can parse the reply if the routine succeeds. -/
def Answerable (p : Platform) (routines : Routines) (parse : Parser) (request : RpcMessage) :
    Prop :=
  (∃ error, routineLookup p request.msgId = .error error) ∨
  ∃ entry fields, routineLookup p request.msgId = .ok entry ∧
    entry.requestDescriptor.unpack request.payload = some fields ∧
    ∀ packed, routines entry.routine fields = .success packed →
      parse.accepts (.reply entry.routine) packed = true

/-- A parser that accepts an error reply in plain text, and reads that text. -/
def ParsesErrors (parse : Parser) : Prop :=
  ∀ text, Ascii text → text.length < maxErrorMsgLen →
    parse.accepts .replyError (ReplyError.pack ⟨text⟩) = true ∧
      parse.message (ReplyError.pack ⟨text⟩) = text

variable {p : Platform} {routines : Routines} {messages : RpcMessageRegistry} {parse : Parser}
  {request : RpcMessage}

/-- An error reply in plain text raises `ServerResponseError`. -/
theorem callReply_replyError (hmessages : messages.Complete) (hparse : ParsesErrors parse)
    (out : RpcMessage) {text : Bytes} (htext : Ascii text) :
    callReply messages parse (replyError out text) =
      .error (.serverResponseError (text.take (maxErrorMsgLen - 1))) := by
  have hget : messages.get (replyError out text).msgId = some .replyError := hmessages.replyError
  have hlength : (text.take (maxErrorMsgLen - 1)).length < maxErrorMsgLen :=
    lt_of_le_of_lt (List.length_take_le _ _) (by decide)
  obtain ⟨haccepts, hmessage⟩ := hparse _ (htext.take _) hlength
  have hpayload : (replyError out text).payload =
    ReplyError.pack ⟨text.take (maxErrorMsgLen - 1)⟩ := rfl
  rw [callReply, hget, hpayload]
  simp only [haccepts, Bool.not_true, Bool.false_eq_true, if_false, hmessage]
  exact if_pos rfl

/-- A reply under the id of a known request is returned if it parses. -/
theorem callReply_reply (hmessages : messages.Complete) {reply : RpcMessage} {id : MsgId}
    (hid : reply.msgId = id.reply) :
    callReply messages parse reply =
      if parse.accepts (.reply id) reply.payload then .ok (.reply id, reply.payload)
      else .error .decodeError := by
  have hget : messages.get reply.msgId = some (.reply id) := hid ▸ hmessages.reply id
  -- the ids of replies lie below that of the error reply
  have hnoError : reply.msgId ≠ repError := by
    rw [hid]
    cases id <;> decide
  rw [callReply, hget]
  cases hparse : parse.accepts (.reply id) reply.payload <;> simp [hparse, hnoError]

/-- An error reply in plain text is a lawful reply to any request. -/
theorem replyLaw_replyError (hmessages : messages.Complete) (hparse : ParsesErrors parse)
    (out : RpcMessage) {text : Bytes} (htext : Ascii text) :
    ReplyLaw p routines messages parse request (replyError out text) where
  filled := Or.inl ⟨rfl, _, unpack_replyError out text⟩
  answered := Or.inl ⟨_, callReply_replyError hmessages hparse out htext⟩

/-- **Dispatch law.** A request is answered by an error or by its routine's
reply, and the client's call ends accordingly, exactly when no routine is found
for it or its payload unpacks and the client can parse what the routine replies. -/
theorem replyLaw_iff_answerable (p : Platform) (routines : Routines) (request : RpcMessage)
    (hmessages : messages.Complete) (hparse : ParsesErrors parse) :
    ReplyLaw p routines messages parse request (rpcDispatch p routines request) ↔
      Answerable p routines parse request := by
  have hdispatched := rpcDispatch_dispatched p routines request
  generalize rpcDispatch p routines request = reply at hdispatched
  cases hdispatched with
  | unknown hlookup htext =>
    exact iff_of_true (replyLaw_replyError hmessages hparse _ htext) (Or.inl ⟨_, hlookup⟩)
  | failed hlookup hunpack hstatus htext =>
    apply iff_of_true (replyLaw_replyError hmessages hparse _ htext)
    exact Or.inr ⟨_, _, hlookup, hunpack, fun packed hpacked => absurd hpacked (hstatus packed)⟩
  | undecodable hlookup hunpack =>
    -- the id stays zero, and the registry does not know it
    have hcall : callReply messages parse { RpcMessage.init with magic := messageMagic } =
        .error (.unknownMsgId 0) := by
      have hget : messages.get (RpcMessage.init).msgId = none := hmessages.zero
      rw [callReply, hget]
      rfl
    apply iff_of_false
    · rintro ⟨-, ⟨message, hanswer⟩ | ⟨id, -, hanswer⟩⟩
      · simp [hcall] at hanswer
      · simp [hcall] at hanswer
    · rintro (⟨error, herror⟩ | ⟨entry, fields, hentry, hfields, -⟩)
      · simp [hlookup] at herror
      · obtain rfl : _ = entry := Except.ok.inj (hlookup.symm.trans hentry)
        simp [hunpack] at hfields
  | @replied entry fields packed hlookup hunpack hstatus =>
    have hid : request.msgId + rpcMaxReqMsgId = entry.routine.reply := by
      rw [MsgId.reply, (routineLookup_ok hlookup).1]
    have hcall := @callReply_reply _ parse hmessages { RpcMessage.init with
      magic := messageMagic, msgId := request.msgId + rpcMaxReqMsgId, payload := packed } _ hid
    constructor
    · rintro ⟨-, hanswer⟩
      refine Or.inr ⟨entry, fields, hlookup, hunpack, fun packed' hpacked => ?_⟩
      obtain rfl : packed = packed' := RoutineResult.success.inj (hstatus.symm.trans hpacked)
      -- a refused payload would have raised a decode error
      by_contra hrefused
      rw [if_neg hrefused] at hcall
      rcases hanswer with ⟨message, hanswer⟩ | ⟨id, -, hanswer⟩
      · simp [hcall] at hanswer
      · simp [hcall] at hanswer
    · rintro (⟨error, herror⟩ | ⟨entry', fields', hentry, hfields, haccepts⟩)
      · simp [hlookup] at herror
      · obtain rfl : entry = entry' := Except.ok.inj (hlookup.symm.trans hentry)
        obtain rfl : fields = fields' := Option.some.inj (hunpack.symm.trans hfields)
        rw [if_pos (haccepts packed hstatus)] at hcall
        exact ⟨Or.inr ⟨entry, fields, hlookup, hunpack, hstatus, rfl⟩,
          Or.inr ⟨entry.routine, (routineLookup_ok hlookup).1, hcall⟩⟩

/-- A parser that accepts everything. -/
def trustingParser : Parser where
  accepts _ _ := true
  message payload := ((ReplyError.unpack payload).map ReplyError.message).getD []

theorem parsesErrors_trustingParser : ParsesErrors trustingParser := fun text _ hlength => by
  have hunpack : ReplyError.unpack (ReplyError.pack ⟨text⟩) = some ⟨text⟩ :=
    ReplyError.unpack_pack (le_trans (Nat.le_of_lt hlength) (by decide))
  have hmessage : trustingParser.message (ReplyError.pack ⟨text⟩) =
      ((ReplyError.unpack (ReplyError.pack ⟨text⟩)).map ReplyError.message).getD [] := rfl
  rw [hunpack] at hmessage
  exact ⟨rfl, hmessage⟩

/-- A `DLOPEN` request whose payload is the single byte 255, which ends inside
the key of a field. -/
theorem not_replyLaw_undecodable :
    ¬ ∀ (p : Platform) (routines : Routines) (messages : RpcMessageRegistry) (parse : Parser)
      (request : RpcMessage), request.magic = messageMagic → messages.Complete →
      ParsesErrors parse →
      ReplyLaw p routines messages parse request (rpcDispatch p routines request) := by
  intro h
  obtain ⟨hfilled, -⟩ := h .linux (fun _ _ => .success []) basicMessages trustingParser
    ⟨messageMagic, 0, 1, [0xff]⟩ rfl basicMessages_complete parsesErrors_trustingParser
  have hreply : rpcDispatch .linux (fun _ _ => .success []) ⟨messageMagic, 0, 1, [0xff]⟩ =
      { RpcMessage.init with magic := messageMagic } := by decide
  rw [hreply] at hfilled
  rcases hfilled with ⟨herror, -⟩ | ⟨_, _, -, -, -, hid⟩
  · exact absurd herror (by decide)
  · exact absurd hid (by decide)

/-- A `DLCLOSE` request with an empty payload, whose routine succeeds. -/
theorem replyLaw_dlclose :
    ReplyLaw .linux (fun _ _ => .success [8, 1]) basicMessages trustingParser
      ⟨messageMagic, 7, 2, []⟩ (rpcDispatch .linux (fun _ _ => .success [8, 1])
        ⟨messageMagic, 7, 2, []⟩) :=
  (replyLaw_iff_answerable .linux _ _ basicMessages_complete parsesErrors_trustingParser).mpr
    (Or.inr ⟨⟨.reqDlclose, .scalar 1 .varint .empty, "DLCLOSE"⟩, [], by rfl, by rfl,
      fun _ _ => rfl⟩)

end RpcProject.Transport
