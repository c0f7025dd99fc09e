/-
# The client's bridge

`rpc_call` looks the request class up, packs the request and builds the envelope;
it then exchanges the envelope for a reply, looks the reply's class up, parses
the payload and either returns the parsed reply or raises what the error reply
says. The exchange itself is the business of the socket.
-/

import RpcProject.Protocol.Registry

namespace RpcProject.Client

open Foundations Protocol

/-- The exceptions of `rpc_call` that do not come from the socket. -/
inductive CallError
  | unknownMsgId (msgId : UInt32)
  | decodeError
  | serverResponseError (message : Bytes)
  deriving DecidableEq, Repr

/-- A protobuf parser: the bytes it accepts for each message class, and the `message` of an
error reply that it has accepted. -/
structure Parser where
  accepts : MessageClass → Bytes → Bool
  message : Bytes → Bytes

/-- `rpc_call` up to the exchange: the envelope of a packed request. The magic
is filled in by `rpc_msg_send`. -/
def callRequest (messages : RpcMessageRegistry) (clientId msgId : UInt32) (payload : Bytes) :
    Except CallError RpcMessage :=
  match messages.get msgId with
  | none => .error (.unknownMsgId msgId)
  | some _ => .ok ⟨messageMagic, clientId, msgId, payload⟩

/-- `rpc_call` after the exchange: the class and payload of the reply. -/
def callReply (messages : RpcMessageRegistry) (parse : Parser) (reply : RpcMessage) :
    Except CallError (MessageClass × Bytes) :=
  match messages.get reply.msgId with
  | none => .error (.unknownMsgId reply.msgId)
  | some cls =>
      if !parse.accepts cls reply.payload then .error .decodeError
      else if reply.msgId = repError then
        .error (.serverResponseError (parse.message reply.payload))
      else .ok (cls, reply.payload)

end RpcProject.Client
