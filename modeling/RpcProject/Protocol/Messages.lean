/-
# The messages of the protocol

Client and server exchange three envelopes. `RpcMessage` carries a request or a
reply: its magic, the client, the message id and the packed payload.
`RpcPtyMessage` carries what a foreground child prints, and its wait status at
the end. `ReplyError` is the payload of the one reply that reports a failure.

Each envelope is written field by field, leaving out fields that hold their
default, and is read back under its descriptor. What is written is read back.
-/

import RpcProject.Foundations.Wire

namespace RpcProject.Protocol

open Foundations Foundations.Wire

/-! ## Constants -/

/-- The magic number of every envelope. -/
def messageMagic : UInt32 := 0x1234569

/-- The message id of every error reply. -/
def repError : UInt32 := 0x1000

/-- The most bytes the server reads at once in terminal mode. -/
def rpcPtyBufferSize : ℕ := 0x10000

/-- Request ids lie below this bound, and a reply id is its request id plus it. -/
def rpcMaxReqMsgId : UInt32 := 0x100

/-- The bytes of the size that precedes every message. -/
def sizeHeader : ℕ := 8

/-- The requests of the protocol. -/
inductive MsgId
  | reqDlopen
  | reqDlclose
  | reqDlsym
  | reqPeek
  | reqPoke
  | reqExec
  | reqCall
  | reqCloseClient
  | reqListDir
  | reqDummyBlock
  | reqGetClassList
  | reqShowObject
  | reqShowClass
  deriving DecidableEq, Repr

namespace MsgId

/-- The number of an id in `rpc_api.proto`. -/
def toUInt32 : MsgId → UInt32
  | reqDlopen => 1
  | reqDlclose => 2
  | reqDlsym => 3
  | reqPeek => 4
  | reqPoke => 5
  | reqExec => 6
  | reqCall => 7
  | reqCloseClient => 8
  | reqListDir => 9
  | reqDummyBlock => 10
  | reqGetClassList => 11
  | reqShowObject => 12
  | reqShowClass => 13

/-- The request with a given id. -/
def ofUInt32? (n : UInt32) : Option MsgId :=
  [reqDlopen, reqDlclose, reqDlsym, reqPeek, reqPoke, reqExec, reqCall, reqCloseClient, reqListDir,
    reqDummyBlock, reqGetClassList, reqShowObject, reqShowClass].find? fun id => id.toUInt32 = n

/-- The id of the reply to a request. -/
def reply (id : MsgId) : UInt32 := id.toUInt32 + rpcMaxReqMsgId

/-- A number that is read as an id is the number of that id. -/
theorem toUInt32_of_ofUInt32? {n : UInt32} {id : MsgId} (h : ofUInt32? n = some id) :
    id.toUInt32 = n := by
  simpa using List.find?_some h

end MsgId

/-! ## Fields that are left out when they hold their default -/

/-- An integer field, left out when it is zero. -/
def uint32Field (number : ℕ) (value : UInt32) : List Field :=
  if value = 0 then [] else [⟨number, .varint value.toNat⟩]

/-- A field of bytes, left out when it is empty. -/
def bytesField (number : ℕ) (value : Bytes) : List Field :=
  if value = [] then [] else [⟨number, .delimited value⟩]

private theorem fits_uint32Field {number : ℕ} (hpos : 0 < number) (hnumber : number < 2 ^ 29)
    (value : UInt32) : ∀ f ∈ uint32Field number value, f.Fits := by
  intro f hf
  unfold uint32Field at hf
  split at hf
  · simp at hf
  · rw [List.mem_singleton] at hf
    subst hf
    exact ⟨hpos, hnumber, lt_trans value.toNat_lt (by norm_num)⟩

private theorem fits_bytesField {number : ℕ} (hpos : 0 < number) (hnumber : number < 2 ^ 29)
    {value : Bytes} (hvalue : value.length ≤ maxDelimited) :
    ∀ f ∈ bytesField number value, f.Fits := by
  intro f hf
  unfold bytesField at hf
  split at hf
  · simp at hf
  · rw [List.mem_singleton] at hf
    subst hf
    exact ⟨hpos, hnumber, hvalue⟩

/-! ## Requests and replies -/

/-- The envelope of every request and reply. -/
structure RpcMessage where
  magic : UInt32
  clientId : UInt32
  msgId : UInt32
  payload : Bytes
  deriving DecidableEq, Repr

namespace RpcMessage

/-- The message with every field at its default, as `rpc__rpc_message__init` leaves it. -/
def init : RpcMessage := ⟨0, 0, 0, []⟩

/-- The fields of an envelope that are written. -/
def fields (m : RpcMessage) : List Field :=
  uint32Field 1 m.magic ++ uint32Field 2 m.clientId ++ uint32Field 3 m.msgId ++
    bytesField 4 m.payload

/-- The fields of an envelope, and the kind of each. -/
def descriptor : Descriptor :=
  .scalar 1 .varint (.scalar 2 .varint (.scalar 3 .varint (.scalar 4 .bytes .empty)))

/-- The bytes of an envelope. -/
def pack (m : RpcMessage) : Bytes := writeFields m.fields

/-- The envelope that fields stand for. -/
def ofFields (fields : List Field) : RpcMessage where
  magic := UInt32.ofNat (lastVarint 1 fields)
  clientId := UInt32.ofNat (lastVarint 2 fields)
  msgId := UInt32.ofNat (lastVarint 3 fields)
  payload := lastDelimited 4 fields

/-- The envelope in some bytes, if they hold one. -/
def unpack (bytes : Bytes) : Option RpcMessage := (descriptor.unpack bytes).map ofFields

/-- An envelope is read off its own fields as itself. -/
theorem ofFields_fields (m : RpcMessage) : ofFields m.fields = m := by
  obtain ⟨magic, clientId, msgId, payload⟩ := m
  -- each field is written, or left out and read as its default
  by_cases hmagic : magic = 0 <;> by_cases hclient : clientId = 0 <;>
    by_cases hmsg : msgId = 0 <;> by_cases hpayload : payload = [] <;>
      simp [ofFields, fields, uint32Field, bytesField, lastVarint, lastDelimited, hmagic, hclient,
        hmsg, hpayload]

theorem fits_fields {m : RpcMessage} (hpayload : m.payload.length ≤ maxDelimited) :
    ∀ f ∈ m.fields, f.Fits := by
  intro f hf
  simp only [fields, List.mem_append] at hf
  rcases hf with ((hf | hf) | hf) | hf
  · exact fits_uint32Field (by norm_num) (by norm_num) _ f hf
  · exact fits_uint32Field (by norm_num) (by norm_num) _ f hf
  · exact fits_uint32Field (by norm_num) (by norm_num) _ f hf
  · exact fits_bytesField (by norm_num) (by norm_num) hpayload f hf

/-- The descriptor lets the fields of an envelope through. -/
theorem accepts_fields (m : RpcMessage) : m.fields.all descriptor.accepts = true := by
  simp only [fields, List.all_append, uint32Field, bytesField]
  split_ifs <;> simp [descriptor, Descriptor.accepts, ScalarType.reads]

/-- **Round trip.** The receiver of a packed message reads the message back. -/
theorem unpack_pack {m : RpcMessage} (hpayload : m.payload.length ≤ maxDelimited) :
    unpack m.pack = some m := by
  rw [unpack, pack, Descriptor.unpack_writeFields (fits_fields hpayload) (accepts_fields m),
    Option.map_some, ofFields_fields]

/-- A packed message has a size that its header can hold. -/
theorem pack_fits {m : RpcMessage} (hpayload : m.payload.length ≤ maxDelimited) :
    m.pack.length < 256 ^ sizeHeader := by
  have hfields : m.fields.length ≤ 4 := by
    simp only [fields, uint32Field, bytesField, List.length_append]
    split_ifs <;> simp
  have hlength := writeFields_length_le (fits_fields hpayload)
  have hmul := Nat.mul_le_mul_right (20 + maxDelimited) hfields
  exact lt_of_le_of_lt (le_trans hlength hmul) (by norm_num [maxDelimited, sizeHeader])

end RpcMessage

/-! ## Terminal messages -/

/-- What the server sends while a foreground child runs: a piece of its output,
or its wait status. A message may also name neither. -/
inductive RpcPtyMessage
  | notSet
  | buffer (bytes : Bytes)
  | exitCode (status : UInt32)
  deriving DecidableEq, Repr

namespace RpcPtyMessage

/-- The member that is set, written even when its value is empty. -/
def fields : RpcPtyMessage → List Field
  | notSet => []
  | buffer bytes => [⟨1, .delimited bytes⟩]
  | exitCode status => [⟨2, .varint status.toNat⟩]

/-- The two members, and the kind of each. -/
def descriptor : Descriptor := .scalar 1 .bytes (.scalar 2 .varint .empty)

/-- The bytes of a message of the terminal. -/
def pack (m : RpcPtyMessage) : Bytes := writeFields m.fields

/-- The member of the `oneof` that came last. -/
def ofFields (fields : List Field) : RpcPtyMessage :=
  fields.foldl (fun found f =>
    match f.number, f.value with
    | 1, .delimited bytes => buffer bytes
    | 2, .varint n => exitCode (UInt32.ofNat n)
    | _, _ => found) notSet

/-- The message of the terminal in some bytes, if they hold one. -/
def unpack (bytes : Bytes) : Option RpcPtyMessage := (descriptor.unpack bytes).map ofFields

/-- Messages whose buffer the format can carry. -/
def Fits : RpcPtyMessage → Prop
  | buffer bytes => bytes.length ≤ maxDelimited
  | _ => True

theorem fits_fields {m : RpcPtyMessage} (fits : m.Fits) : ∀ f ∈ m.fields, f.Fits := by
  cases m with
  | notSet => simp [fields]
  | buffer bytes =>
    intro f hf
    rw [fields, List.mem_singleton] at hf
    subst hf
    exact ⟨by norm_num, by norm_num, fits⟩
  | exitCode status =>
    intro f hf
    rw [fields, List.mem_singleton] at hf
    subst hf
    exact ⟨by norm_num, by norm_num, lt_trans status.toNat_lt (by norm_num)⟩

/-- A message of the terminal is read back as it was written. -/
theorem unpack_pack {m : RpcPtyMessage} (fits : m.Fits) : unpack m.pack = some m := by
  have haccepts : m.fields.all descriptor.accepts = true := by
    cases m <;> simp [fields, descriptor, Descriptor.accepts, ScalarType.reads]
  rw [unpack, pack, Descriptor.unpack_writeFields (fits_fields fits) haccepts, Option.map_some]
  cases m <;> simp [fields, ofFields]

theorem pack_fits {m : RpcPtyMessage} (fits : m.Fits) : m.pack.length < 256 ^ sizeHeader := by
  have hfields : m.fields.length ≤ 1 := by
    cases m <;> simp [fields]
  have hlength := writeFields_length_le (fits_fields fits)
  have hmul := Nat.mul_le_mul_right (20 + maxDelimited) hfields
  exact lt_of_le_of_lt (le_trans hlength hmul) (by norm_num [maxDelimited, sizeHeader])

end RpcPtyMessage

/-! ## Error replies -/

/-- The payload of an error reply. -/
structure ReplyError where
  message : Bytes
  deriving DecidableEq, Repr

namespace ReplyError

/-- The one field of an error reply. -/
def descriptor : Descriptor := .scalar 1 .bytes .empty

/-- The bytes of an error reply. -/
def pack (e : ReplyError) : Bytes := writeFields (bytesField 1 e.message)

/-- The error reply in some bytes, if they hold one. -/
def unpack (bytes : Bytes) : Option ReplyError :=
  (descriptor.unpack bytes).map fun fields => ⟨lastDelimited 1 fields⟩

/-- An error reply is read back as it was written. -/
theorem unpack_pack {e : ReplyError} (fits : e.message.length ≤ maxDelimited) :
    unpack e.pack = some e := by
  have haccepts : (bytesField 1 e.message).all descriptor.accepts = true := by
    unfold bytesField
    split_ifs <;> simp [descriptor, Descriptor.accepts, ScalarType.reads]
  rw [unpack, pack, Descriptor.unpack_writeFields
    (fits_bytesField (by norm_num) (by norm_num) fits) haccepts, Option.map_some]
  obtain ⟨message⟩ := e
  by_cases hempty : message = [] <;> simp [bytesField, lastDelimited, hempty]

/-- An error reply takes little more room than its text. -/
theorem pack_length_le (e : ReplyError) : e.pack.length ≤ 20 + e.message.length := by
  unfold pack bytesField
  split
  · exact Nat.zero_le _
  · simpa [writeFields, WireValue.content] using Field.write_length_le ⟨1, .delimited e.message⟩

end ReplyError

end RpcProject.Protocol
