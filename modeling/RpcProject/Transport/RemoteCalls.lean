/-
# Remote calls as calls

The client's `rpc_call` packs the request of an id, sends it, and parses the reply.
The server unpacks the request, runs the routine of the id and packs its reply. Put
together, a remote call does what a call of the routine would do: the routine sees the
request and the client sees the reply, each as far as its message type carries it, and
every failure of the routine becomes an exception that names the request.

A routine is any function from the request type of its id to an outcome. The client's
protobuf library is a parameter.
-/

import RpcProject.Protocol.Lossless
import RpcProject.Transport.DispatchLaw

namespace RpcProject.Transport

open Foundations Foundations.Wire Protocol Protocol.Api Server Client

/-! ## The descriptors of the table -/

theorem accepts_argumentDescriptor (f : Field) :
    argumentDescriptor.accepts f = Argument.codec.accepts f :=
  Descriptor.accepts_scalar reads_number
    (Descriptor.accepts_scalar reads_double
      (Descriptor.accepts_scalar reads_delimited
        (Descriptor.accepts_last reads_delimited) fun f hf => if_neg (by rw [hf]; decide))
      fun f hf => by simp [hf])
    (fun f hf => by simp [hf]) f

/-- The request descriptors of the table are those of the message types. -/
theorem accepts_requestDescriptor {p : Platform} {id : MsgId} {entry : RpcRoutineEntry}
    (h : rpcRoutines p id = some entry) (f : Field) :
    entry.requestDescriptor.accepts f = (requestCodec id).accepts f := by
  have haddress : addressDescriptor.accepts f = RequestShow.codec.accepts f :=
    Descriptor.accepts_last reads_number f
  cases id with
  | reqDlopen =>
    cases h
    exact Descriptor.accepts_scalar reads_delimited (Descriptor.accepts_last reads_number)
      (test_of_ne (by decide)) f
  | reqDlclose =>
    cases h
    exact Descriptor.accepts_last reads_number f
  | reqDlsym =>
    cases h
    exact Descriptor.accepts_scalar reads_number (Descriptor.accepts_last reads_delimited)
      (test_of_ne (by decide)) f
  | reqPeek =>
    cases h
    exact Descriptor.accepts_scalar reads_number (Descriptor.accepts_last reads_number)
      (test_of_ne (by decide)) f
  | reqPoke =>
    cases h
    exact Descriptor.accepts_scalar reads_number (Descriptor.accepts_last reads_delimited)
      (test_of_ne (by decide)) f
  | reqExec =>
    cases h
    refine Descriptor.accepts_scalar (fun _ => rfl)
      (Descriptor.accepts_scalar reads_delimited (Descriptor.accepts_last reads_delimited)
        (test_of_ne (by decide))) (fun f hf => ?_) f
    simp [hf]
  | reqCall =>
    cases h
    refine Descriptor.accepts_scalar reads_number
      (Descriptor.accepts_scalar reads_number
          (Descriptor.accepts_message accepts_argumentDescriptor)
        (test_of_ne (by decide))) (fun f hf => ?_) f
    simp [hf]
  | reqCloseClient =>
    cases h
    rfl
  | reqListDir =>
    cases h
    exact Descriptor.accepts_last reads_delimited f
  | reqDummyBlock =>
    cases p <;> cases h
    rfl
  | reqGetClassList =>
    cases p <;> cases h
    rfl
  | reqShowObject =>
    cases p <;> cases h
    exact haddress
  | reqShowClass =>
    cases p <;> cases h
    exact haddress

/-! ## Routines and calls -/

/-- What a routine does with its request. -/
inductive Outcome (id : MsgId)
  | success (reply : ReplyType id)
  | protocolError
  | serverError

/-- A routine for every request. -/
abbrev Procedures := (id : MsgId) → RequestType id → Outcome id

/-- The routines as the table has them: from the fields of a request to a packed reply. -/
def Procedures.routines (procedures : Procedures) : Routines := fun id fields =>
  match procedures id ((requestCodec id).read fields) with
  | .success reply => .success ((replyCodec id).pack reply)
  | .protocolError => .protocolError
  | .serverError => .serverError

section Client

variable (lib : Protobuf) (messages : RpcMessageRegistry) (clientId : UInt32)

/-- `ParseFromString` of the class of a reply. -/
def parser : Parser where
  accepts
    | .reply id, payload => (lib.parseReply id payload).isSome
    | .replyError, payload => (lib.parseError payload).isSome
    | .request id, payload => (lib.parseRequest id payload).isSome
  message payload := (lib.parseError payload).getD []

/-- `rpc_call` behind the exchange: the parsed reply. -/
def parsedReply (id : MsgId) (reply : RpcMessage) : Except CallError (ReplyType id) :=
  match callReply messages (parser lib) reply with
  | .error error => .error error
  | .ok (_, payload) =>
      match lib.parseReply id payload with
      | none => .error .decodeError
      | some reply => .ok reply

/-- `rpc_call`, with the exchange of the envelopes as a parameter. -/
def rpcCall (exchange : RpcMessage → RpcMessage) {id : MsgId} (request : RequestType id) :
    Except CallError (ReplyType id) :=
  match callRequest messages clientId id.toUInt32 (lib.serialize id request) with
  | .error error => .error error
  | .ok envelope => parsedReply lib messages id (exchange envelope)

end Client

/-- What the client makes of a text that the server puts into an error reply. -/
def raised {α : Type} (text : Bytes) : Except CallError α :=
  .error (.serverResponseError (text.take (maxErrorMsgLen - 1)))

/-- What a caller of the routine sees of its outcome. -/
def Outcome.seen {id : MsgId} (entry : RpcRoutineEntry) :
    Outcome id → Except CallError (ReplyType id)
  | .success reply => .ok ((replyCodec id).norm reply)
  | .protocolError => raised (protocolErrorText id.toUInt32 entry.name)
  | .serverError => raised (serverErrorText id.toUInt32 entry.name)

/-! ## Error replies -/

theorem utf8EncodeChar_ofUInt8 {b : UInt8} (hb : b < 128) :
    String.utf8EncodeChar (Char.ofUInt8 b) = [b] := by
  have hvalue : (Char.ofUInt8 b).val = b.toUInt32 := rfl
  have hsize : (Char.ofUInt8 b).utf8Size = 1 := by
    rw [Char.utf8Size_eq_one_iff, hvalue, UInt32.le_iff_toNat_le, UInt8.toNat_toUInt32]
    have hlt : b.toNat < 128 := UInt8.lt_iff_toNat_lt.mp hb
    exact Nat.le_of_lt_succ hlt
  rw [String.utf8EncodeChar_eq_singleton hsize, hvalue, UInt8.toUInt8_toUInt32]

/-- Plain characters are the code of some text. -/
theorem isText_of_ascii {bytes : Bytes} (h : Ascii bytes) : isText bytes = true := by
  have hcode : bytes = (bytes.map Char.ofUInt8).flatMap String.utf8EncodeChar := by
    rw [List.flatMap_map]
    induction bytes with
    | nil => rfl
    | cons b bytes ih =>
      rw [List.flatMap_cons, utf8EncodeChar_ofUInt8 (h b List.mem_cons_self),
        ← ih fun c hc => h c (List.mem_cons_of_mem _ hc), List.singleton_append]
  have hencode : bytes.toByteArray = (bytes.map Char.ofUInt8).utf8Encode := congrArg _ hcode
  rw [isText, hencode, List.utf8Decode?_utf8Encode]
  rfl

/-- The library parses plain error replies. -/
theorem parsesErrors_of_library (lib : Protobuf) : ParsesErrors (parser lib) := by
  intro text htext hlength
  have hparse := lib.parseError_pack (isText_of_ascii htext)
    (le_trans (Nat.le_of_lt hlength) (by decide : maxErrorMsgLen ≤ maxDelimited))
  constructor
  · show (lib.parseError _).isSome = true
    rw [hparse, Option.isSome_some]
  · show (lib.parseError _).getD [] = text
    rw [hparse, Option.getD_some]

/-- The client raises the text of an error reply. -/
theorem parsedReply_replyError (lib : Protobuf) {messages : RpcMessageRegistry}
    (hmessages : messages.Complete) (id : MsgId) (out : RpcMessage) {text : Bytes}
    (htext : Ascii text) : parsedReply lib messages id (replyError out text) = raised text := by
  rw [parsedReply, callReply_replyError hmessages (parsesErrors_of_library lib) out htext]
  rfl

/-! ## Transparency -/

variable {lib : Protobuf} {messages : RpcMessageRegistry} {p : Platform} {procedures : Procedures}
  {id : MsgId} {request : RequestType id}

/-- What the server replies to a serialised request, if the table has a routine for it. -/
theorem rpcDispatch_serialize (lib : Protobuf) (hfits : (requestCodec id).Fits request)
    (clientId : UInt32) :
    rpcDispatch p procedures.routines
        ⟨messageMagic, clientId, id.toUInt32, lib.serialize id request⟩ =
      let reply := { RpcMessage.init with magic := messageMagic }
      match rpcRoutines p id with
      | none => replyError reply (noRoutineText id.toUInt32)
      | some entry =>
          match procedures id ((requestCodec id).norm request) with
          | .success result =>
              { reply with msgId := id.reply, payload := (replyCodec id).pack result }
          | .protocolError => replyError reply (protocolErrorText id.toUInt32 entry.name)
          | .serverError => replyError reply (serverErrorText id.toUInt32 entry.name) := by
  have hinside : ¬ (id.toUInt32 ≤ 0 ∨ rpcMaxReqMsgId ≤ id.toUInt32) := by
    cases id <;> decide
  have hid : MsgId.ofUInt32? id.toUInt32 = some id := by
    cases id <;> rfl
  unfold rpcDispatch routineLookup
  simp only [if_neg hinside, hid, Option.bind_some]
  cases hentry : rpcRoutines p id with
  | none => rfl
  | some entry =>
    obtain ⟨fields, hunpack, -, hread⟩ :=
      lib.read_serialize (accepts_requestDescriptor hentry) hfits
    obtain ⟨routine, descriptor, name⟩ := entry
    obtain rfl : routine = id := (rpcRoutines_eq_some hentry).1
    simp only [hunpack, Procedures.routines, hread]
    cases procedures routine ((requestCodec routine).norm request) <;> rfl

/-- The client returns a packed reply. -/
theorem parsedReply_pack (lib : Protobuf) (hmessages : messages.Complete) {reply : ReplyType id}
    (hfits : (replyCodec id).Fits reply) (magic clientId : UInt32) :
    parsedReply lib messages id ⟨magic, clientId, id.reply, (replyCodec id).pack reply⟩ =
      .ok ((replyCodec id).norm reply) := by
  have hparse := parseReply_pack lib hfits
  have haccepts : (parser lib).accepts (.reply id) ((replyCodec id).pack reply) = true := by
    show (lib.parseReply id _).isSome = true
    rw [hparse, Option.isSome_some]
  rw [parsedReply, callReply_reply hmessages rfl]
  simp only [haccepts, if_true, hparse]

end RpcProject.Transport
