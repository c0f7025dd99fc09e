/-
# The registry of message classes

The client finds the class of a message by its id. The registry starts with the
error reply, and loading the protocol's module adds the request and the reply
class of every request id, the reply under the request's id plus
`RPC_MAX_REQ_MSG_ID`. A clone of a bridge works with a clone of the registry.
-/

import RpcProject.Protocol.Messages

namespace RpcProject.Protocol

/-- The message classes that ids can stand for. -/
inductive MessageClass
  | request (id : MsgId)
  | reply (id : MsgId)
  | replyError
  deriving DecidableEq, Repr

/-- All request ids, in the order of the enumeration. -/
def MsgId.all : List MsgId :=
  [reqDlopen, reqDlclose, reqDlsym, reqPeek, reqPoke, reqExec, reqCall, reqCloseClient, reqListDir,
    reqDummyBlock, reqGetClassList, reqShowObject, reqShowClass]

/-- A registry: the class, if any, of each message id. -/
structure RpcMessageRegistry where
  messages : ℕ → Option MessageClass

namespace RpcMessageRegistry

/-- Add a class under a key, which is a `KeyError` when the key is taken. -/
def register (r : RpcMessageRegistry) (key : ℕ) (cls : MessageClass) (overwrite : Bool) :
    Option RpcMessageRegistry :=
  if (r.messages key).isSome && !overwrite then none
  else some ⟨fun k => if k = key then some cls else r.messages k⟩

/-- Add a request class and its reply class, which is a `ValueError` when the
id is too large. -/
def registerPair (r : RpcMessageRegistry) (msgId : ℕ) (req rep : MessageClass) :
    Option RpcMessageRegistry :=
  if rpcMaxReqMsgId.toNat < msgId then none
  else do
    let r ← r.register msgId req false
    r.register (msgId + rpcMaxReqMsgId.toNat) rep false

/-- The registry that knows the error reply only. -/
def new : RpcMessageRegistry :=
  ⟨fun k => if k = repError.toNat then some .replyError else none⟩

/-- Add the classes of every request of the protocol. -/
def loadFromModule (r : RpcMessageRegistry) : Option RpcMessageRegistry :=
  MsgId.all.foldlM (fun r id => r.registerPair id.toUInt32.toNat (.request id) (.reply id)) r

/-- `get`, which is a `ValueError` when the id is unknown. -/
def get (r : RpcMessageRegistry) (msgId : UInt32) : Option MessageClass := r.messages msgId.toNat

/-- A new registry, overwritten with every entry of this one. -/
def clone (r : RpcMessageRegistry) : RpcMessageRegistry :=
  ⟨fun k => (r.messages k).or (new.messages k)⟩

/-- Registries that answer for the whole protocol, and for nothing outside it. -/
structure Complete (r : RpcMessageRegistry) : Prop where
  request : ∀ id : MsgId, r.get id.toUInt32 = some (.request id)
  reply : ∀ id : MsgId, r.get id.reply = some (.reply id)
  replyError : r.get repError = some .replyError
  zero : r.get 0 = none

end RpcMessageRegistry

open RpcMessageRegistry

/-- The registry every bridge starts from. -/
def basicMessages : RpcMessageRegistry := new.loadFromModule.getD new

/-- Loading the protocol's module into a new registry raises nothing. -/
theorem loadFromModule_new : new.loadFromModule = some basicMessages := rfl

/-- The registry of the library knows every request and every reply. -/
theorem basicMessages_complete : basicMessages.Complete where
  request id := by cases id <;> rfl
  reply id := by cases id <;> rfl
  replyError := rfl
  zero := rfl

/-- A clone of a bridge knows the same messages. -/
theorem RpcMessageRegistry.Complete.clone {r : RpcMessageRegistry} (h : r.Complete) :
    r.clone.Complete where
  request id := by
    have hget : r.messages id.toUInt32.toNat = _ := h.request id
    simp [get, RpcMessageRegistry.clone, hget]
  reply id := by
    have hget : r.messages id.reply.toNat = _ := h.reply id
    simp [get, RpcMessageRegistry.clone, hget]
  replyError := by
    have hget : r.messages repError.toNat = _ := h.replyError
    simp [get, RpcMessageRegistry.clone, hget]
  zero := by
    have hget : r.messages (0 : UInt32).toNat = none := h.zero
    simp only [get, RpcMessageRegistry.clone, hget]
    rfl

end RpcProject.Protocol
