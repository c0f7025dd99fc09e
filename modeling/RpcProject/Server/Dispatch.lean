/-
# Dispatching a request

`rpc_dispatch` looks the routine of a request up in the table `rpc_routines`,
unpacks the payload under the routine's request descriptor, invokes the routine
and fills the reply: the packed reply of the routine under the request's id plus
`RPC_MAX_REQ_MSG_ID`, or an error reply with a text. A request whose payload
does not unpack leaves the reply as it was initialised.

What a routine does to the process is not modelled here. A routine is any
function from the fields of its request to its status and packed reply.
-/

import RpcProject.Protocol.Messages
import RpcProject.Server.SockIo

namespace RpcProject.Server

open Foundations Foundations.Wire Protocol

/-! ## The routines -/

/-- The status of a routine, with the packed reply that comes with success. -/
inductive RoutineResult
  | success (packed : Bytes)
  | protocolError
  | serverError
  deriving DecidableEq, Repr

/-- What the routines of the table return on the fields of their requests. -/
abbrev Routines := MsgId → List Field → RoutineResult

/-- An entry of the table `rpc_routines`. -/
structure RpcRoutineEntry where
  routine : MsgId
  requestDescriptor : Descriptor
  name : String

/-- The bytes of a text of plain characters. -/
def ascii (text : String) : Bytes := text.toList.map fun c => UInt8.ofNat c.toNat

/-- A request with nothing but an address. -/
def addressDescriptor : Descriptor := .scalar 1 .varint .empty

/-- The members of an argument. -/
def argumentDescriptor : Descriptor :=
  .scalar 1 .varint (.scalar 2 .fixed64 (.scalar 3 .bytes (.scalar 4 .bytes .empty)))

/-- The table `rpc_routines`. The last four routines exist on Darwin only. -/
def rpcRoutines (p : Platform) : MsgId → Option RpcRoutineEntry
  | .reqDlopen =>
      some ⟨.reqDlopen, .scalar 1 .bytes (.scalar 2 .varint .empty), "DLOPEN"⟩
  | .reqDlclose => some ⟨.reqDlclose, .scalar 1 .varint .empty, "DLCLOSE"⟩
  | .reqDlsym => some ⟨.reqDlsym, .scalar 1 .varint (.scalar 2 .bytes .empty), "DLSYM"⟩
  | .reqPeek => some ⟨.reqPeek, .scalar 1 .varint (.scalar 2 .varint .empty), "PEEK"⟩
  | .reqPoke => some ⟨.reqPoke, .scalar 1 .varint (.scalar 2 .bytes .empty), "POKE"⟩
  | .reqCall =>
      some ⟨.reqCall, .scalar 1 .varint (.scalar 2 .varint (.message 3 argumentDescriptor .empty)),
        "CALL"⟩
  | .reqListDir => some ⟨.reqListDir, .scalar 1 .bytes .empty, "LISTDIR"⟩
  | .reqCloseClient => some ⟨.reqCloseClient, .empty, "CLOSE_CLIENT"⟩
  | .reqExec =>
      some ⟨.reqExec, .scalar 1 .boolean (.scalar 2 .bytes (.scalar 3 .bytes .empty)), "EXEC"⟩
  | .reqDummyBlock => if p = .darwin then some ⟨.reqDummyBlock, .empty, "DUMMY_BLOCK"⟩ else none
  | .reqShowClass =>
      if p = .darwin then some ⟨.reqShowClass, addressDescriptor, "SHOW_CLASS"⟩ else none
  | .reqShowObject =>
      if p = .darwin then some ⟨.reqShowObject, addressDescriptor, "SHOW_OBJECT"⟩ else none
  | .reqGetClassList =>
      if p = .darwin then some ⟨.reqGetClassList, .empty, "GET_CLASS_LIST"⟩ else none

/-- Why no routine is found. -/
inductive MsgIdError
  | outOfBounds
  | noRoutine
  deriving DecidableEq, Repr

/-- `routine_lookup` -/
def routineLookup (p : Platform) (msgId : UInt32) : Except MsgIdError RpcRoutineEntry :=
  if msgId ≤ 0 ∨ rpcMaxReqMsgId ≤ msgId then .error .outOfBounds
  else
    match (MsgId.ofUInt32? msgId).bind (rpcRoutines p) with
    | none => .error .noRoutine
    | some entry => .ok entry

/-! ## Error replies -/

/-- `MAX_ERROR_MSG_LEN` -/
def maxErrorMsgLen : ℕ := 256

/-- The decimal digits of `n`, at most `k + 1` of them. -/
def digits : ℕ → ℕ → Bytes
  | 0, n => [UInt8.ofNat (48 + n % 10)]
  | k + 1, n => if n < 10 then [UInt8.ofNat (48 + n % 10)] else digits k (n / 10) ++ digits 0 n

/-- `%d` prints a `uint32_t` argument as a signed number. -/
def formatInt (n : UInt32) : Bytes :=
  if n.toNat < 2 ^ 31 then digits 9 n.toNat else ascii "-" ++ digits 9 (2 ^ 32 - n.toNat)

/-- `reply_error`: fill the reply with a text, cut to the static buffer. -/
def replyError (out : RpcMessage) (text : Bytes) : RpcMessage :=
  { out with
    msgId := repError
    payload := ReplyError.pack ⟨text.take (maxErrorMsgLen - 1)⟩ }

/-- The text for an id out of bounds, -/
def outOfBoundText (msgId : UInt32) : Bytes :=
  ascii "Out of bound msg_id " ++ formatInt msgId ++ ascii ": must be 1-" ++
    formatInt (rpcMaxReqMsgId - 1)

/-- for an id without a routine, -/
def noRoutineText (msgId : UInt32) : Bytes :=
  ascii "No routine configured for msg_id " ++ formatInt msgId

/-- for a routine that fails -/
def serverErrorText (msgId : UInt32) (name : String) : Bytes :=
  ascii "Server error on msg_id " ++ formatInt msgId ++ ascii " (" ++ ascii name ++ ascii ")"

/-- and for a request that it refuses. -/
def protocolErrorText (msgId : UInt32) (name : String) : Bytes :=
  ascii "Protocol error on msg_id " ++ formatInt msgId ++ ascii " (" ++ ascii name ++ ascii ")"

/-! ## Dispatch -/

/-- `rpc_dispatch` -/
def rpcDispatch (p : Platform) (routines : Routines) (request : RpcMessage) : RpcMessage :=
  let reply := { RpcMessage.init with magic := messageMagic }
  match routineLookup p request.msgId with
  | .error .outOfBounds => replyError reply (outOfBoundText request.msgId)
  | .error .noRoutine => replyError reply (noRoutineText request.msgId)
  | .ok entry =>
      match entry.requestDescriptor.unpack request.payload with
      | none => reply -- `CHECK(request)` goes to the end of the function
      | some fields =>
          match routines entry.routine fields with
          | .serverError => replyError reply (serverErrorText request.msgId entry.name)
          | .protocolError => replyError reply (protocolErrorText request.msgId entry.name)
          | .success packed =>
              { reply with msgId := request.msgId + rpcMaxReqMsgId, payload := packed }

/-! ## What dispatching does -/

/-- Bytes of plain characters. -/
def Ascii (bytes : Bytes) : Prop := ∀ b ∈ bytes, b < 128

instance (bytes : Bytes) : Decidable (Ascii bytes) := List.decidableBAll (fun b => b < 128) bytes

variable {p : Platform} {routines : Routines} {request out : RpcMessage} {msgId : UInt32}
  {entry : RpcRoutineEntry} {id : MsgId} {text bytes bytes' : Bytes}

/-- Plain texts put together are plain. -/
theorem Ascii.append (h : Ascii bytes) (h' : Ascii bytes') : Ascii (bytes ++ bytes') := by
  intro b hb
  rcases List.mem_append.mp hb with hb | hb
  · exact h b hb
  · exact h' b hb

theorem Ascii.take (h : Ascii bytes) (n : ℕ) : Ascii (bytes.take n) :=
  fun b hb => h b (List.mem_of_mem_take hb)

theorem ascii_digits (k n : ℕ) : Ascii (digits k n) := by
  -- a single digit lies between 48 and 57
  have hlast : ∀ n, Ascii (digits 0 n) := by
    intro n b hb
    rw [digits, List.mem_singleton] at hb
    subst hb
    rw [UInt8.lt_iff_toNat_lt, UInt8.toNat_ofNat']
    have : (128 : UInt8).toNat = 128 := rfl
    omega
  induction k generalizing n with
  | zero => exact hlast n
  | succ k ih =>
    rw [digits]
    split
    · simpa only [digits] using hlast n
    · exact (ih _).append (hlast _)

theorem ascii_formatInt (n : UInt32) : Ascii (formatInt n) := by
  unfold formatInt
  split
  · exact ascii_digits _ _
  · exact Ascii.append (by decide) (ascii_digits _ _)

/-- The text for an id out of bounds is plain. -/
theorem ascii_outOfBoundText (msgId : UInt32) : Ascii (outOfBoundText msgId) :=
  ((Ascii.append (by decide) (ascii_formatInt _)).append
    (by decide)).append (ascii_formatInt _)

theorem ascii_noRoutineText (msgId : UInt32) : Ascii (noRoutineText msgId) :=
  Ascii.append (by decide) (ascii_formatInt _)

/-- Every entry of the table stands under its own id and has a plain name. -/
theorem rpcRoutines_eq_some (h : rpcRoutines p id = some entry) :
    entry.routine = id ∧ Ascii (ascii entry.name) := by
  cases id <;> cases p <;> simp [rpcRoutines] at h <;> subst h <;>
    exact ⟨rfl, by decide⟩

/-- A routine that is found has the id, and a plain name. -/
theorem routineLookup_ok (h : routineLookup p msgId = .ok entry) :
    entry.routine.toUInt32 = msgId ∧ Ascii (ascii entry.name) := by
  unfold routineLookup at h
  split at h
  · cases h
  · split at h
    · cases h
    · next found hfound =>
      obtain ⟨id, hid, hentry⟩ := Option.bind_eq_some_iff.mp hfound
      cases h
      obtain ⟨rfl, hname⟩ := rpcRoutines_eq_some hentry
      exact ⟨MsgId.toUInt32_of_ofUInt32? hid, hname⟩

theorem ascii_serverErrorText (hname : Ascii (ascii entry.name)) :
    Ascii (serverErrorText msgId entry.name) :=
  (((Ascii.append (by decide) (ascii_formatInt _)).append
    (by decide)).append hname).append (by decide)

theorem ascii_protocolErrorText (hname : Ascii (ascii entry.name)) :
    Ascii (protocolErrorText msgId entry.name) :=
  (((Ascii.append (by decide) (ascii_formatInt _)).append
    (by decide)).append hname).append (by decide)

/-- The text of an error reply is read back, as far as the buffer holds it. -/
theorem unpack_replyError (out : RpcMessage) (text : Bytes) :
    ReplyError.unpack (replyError out text).payload = some ⟨text.take (maxErrorMsgLen - 1)⟩ := by
  apply ReplyError.unpack_pack
  have hlength : (text.take (maxErrorMsgLen - 1)).length ≤ maxErrorMsgLen - 1 :=
    List.length_take_le _ _
  exact le_trans hlength (by decide)

/-- What `rpc_dispatch` makes of a request: an error reply in plain text, the
reply of the routine, or a reply that was never filled. -/
inductive Dispatched (p : Platform) (routines : Routines) (request : RpcMessage) :
    RpcMessage → Prop
  | unknown {error : MsgIdError} {text : Bytes}
      (hlookup : routineLookup p request.msgId = .error error)
      (htext : Ascii text) :
      Dispatched p routines request (replyError { RpcMessage.init with magic := messageMagic } text)
  | undecodable {entry : RpcRoutineEntry}
      (hlookup : routineLookup p request.msgId = .ok entry)
      (hunpack : entry.requestDescriptor.unpack request.payload = none) :
      Dispatched p routines request { RpcMessage.init with magic := messageMagic }
  | failed {entry : RpcRoutineEntry} {fields : List Field} {text : Bytes}
      (hlookup : routineLookup p request.msgId = .ok entry)
      (hunpack : entry.requestDescriptor.unpack request.payload = some fields)
      (hstatus : ∀ packed, routines entry.routine fields ≠ .success packed) (htext : Ascii text) :
      Dispatched p routines request (replyError { RpcMessage.init with magic := messageMagic } text)
  | replied {entry : RpcRoutineEntry} {fields : List Field} {packed : Bytes}
      (hlookup : routineLookup p request.msgId = .ok entry)
      (hunpack : entry.requestDescriptor.unpack request.payload = some fields)
      (hstatus : routines entry.routine fields = .success packed) :
      Dispatched p routines request
        { RpcMessage.init with
          magic := messageMagic
          msgId := request.msgId + rpcMaxReqMsgId
          payload := packed }

/-- The reply of the dispatcher, case by case. -/
theorem rpcDispatch_dispatched (p : Platform) (routines : Routines) (request : RpcMessage) :
    Dispatched p routines request (rpcDispatch p routines request) := by
  unfold rpcDispatch
  cases hlookup : routineLookup p request.msgId with
  | error error =>
    cases error with
    | outOfBounds => exact .unknown hlookup (ascii_outOfBoundText _)
    | noRoutine => exact .unknown hlookup (ascii_noRoutineText _)
  | ok entry =>
    have hname := (routineLookup_ok hlookup).2
    cases hunpack : entry.requestDescriptor.unpack request.payload with
    -- `CHECK(request)` fails, and nobody fills the reply
    | none => simpa [hunpack] using Dispatched.undecodable hlookup hunpack
    | some fields =>
      cases hstatus : routines entry.routine fields with
      | success packed => simpa [hunpack, hstatus] using Dispatched.replied hlookup hunpack hstatus
      | protocolError =>
        simpa [hunpack, hstatus] using Dispatched.failed hlookup hunpack (by simp [hstatus])
          (ascii_protocolErrorText hname)
      | serverError =>
        simpa [hunpack, hstatus] using Dispatched.failed hlookup hunpack (by simp [hstatus])
          (ascii_serverErrorText hname)

end RpcProject.Server
