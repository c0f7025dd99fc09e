/-
# The client's protobuf library

The client leaves the format to a library, which is no part of it: the library
serialises requests and envelopes, and parses what the server has packed. Here it is a
parameter. What the client relies on is that both sides follow one format.

A serialised message holds the fields of the message, in whatever order. A packed message
that the format can carry is parsed as itself. Nothing is said about other bytes.
-/

import RpcProject.Protocol.Api

namespace RpcProject.Protocol

open Foundations Foundations.Wire Api

/-! ## The envelopes -/

/-- The parser of the envelopes that the server sends. -/
structure EnvelopeParser where
  /-- `ParseFromString` of `RpcMessage` -/
  parse : Bytes → Option RpcMessage
  /-- `ParseFromString` of `RpcPtyMessage` -/
  parsePty : Bytes → Option RpcPtyMessage
  parse_pack : ∀ {m : RpcMessage}, m.payload.length ≤ maxDelimited → parse m.pack = some m
  parsePty_pack : ∀ {m : RpcPtyMessage}, m.Fits → parsePty m.pack = some m

/-- The parser that reads as the server does. -/
def EnvelopeParser.standard : EnvelopeParser where
  parse := RpcMessage.unpack
  parsePty := RpcPtyMessage.unpack
  parse_pack := RpcMessage.unpack_pack
  parsePty_pack := RpcPtyMessage.unpack_pack

/-! ## The library -/

/-- What the client uses of its library. -/
structure Protobuf extends EnvelopeParser where
  /-- `SerializeToString` of the request under an id -/
  serialize : (id : MsgId) → RequestType id → Bytes
  /-- `SerializeToString` of `RpcMessage` -/
  serializeEnvelope : RpcMessage → Bytes
  /-- `ParseFromString` of the reply under an id -/
  parseReply : (id : MsgId) → Bytes → Option (ReplyType id)
  /-- and of the request, which no reply holds -/
  parseRequest : (id : MsgId) → Bytes → Option (RequestType id)
  /-- `ParseFromString` of `ReplyError`, and its `message` -/
  parseError : Bytes → Option Bytes
  serialize_encodes : ∀ {id : MsgId} {request : RequestType id}, (requestCodec id).Fits request →
    (requestCodec id).Encodes request (serialize id request)
  serializeEnvelope_fields : ∀ {m : RpcMessage}, m.payload.length ≤ maxDelimited →
    ∃ fields, SameFields fields m.fields ∧ serializeEnvelope m = writeFields fields
  /-- A reply is parsed as itself if the server writes all of it. -/
  parseReply_pack : ∀ {id : MsgId} {reply : ReplyType id}, (replyCodec id).Fits reply →
    (replyCodec id).norm reply = reply → parseReply id ((replyCodec id).pack reply) = some reply
  parseError_pack : ∀ {text : Bytes}, isText text = true → text.length ≤ maxDelimited →
    parseError (ReplyError.pack ⟨text⟩) = some text

/-- A text that can be decoded fits into an error reply. -/
theorem fits_replyError {text : Bytes} (htext : isText text = true)
    (hlength : text.length ≤ maxDelimited) : replyErrorCodec.Fits ⟨text⟩ := ⟨hlength, htext⟩

/-- The codec of error replies writes as the server does. -/
theorem pack_replyErrorCodec (text : Bytes) :
    replyErrorCodec.pack ⟨text⟩ = ReplyError.pack ⟨text⟩ := by
  show writeFields (replyErrorCodec.write _) = writeFields (bytesField 1 _)
  cases text <;> rfl

/-- The library that writes in the order of the numbers, and reads as the codecs say. -/
def Protobuf.standard : Protobuf where
  toEnvelopeParser := .standard
  serialize id := (requestCodec id).pack
  serializeEnvelope := RpcMessage.pack
  parseReply id := (replyCodec id).unpack
  parseRequest id := (requestCodec id).unpack
  parseError bytes := (replyErrorCodec.unpack bytes).map ReplyError.message
  serialize_encodes _ := Codec.encodes_pack _ _
  serializeEnvelope_fields _ := ⟨_, SameFields.rfl, rfl⟩
  parseReply_pack hfits hnorm := by rw [Codec.unpack_pack _ hfits, hnorm]
  parseError_pack {text} htext hlength := by
    rw [← pack_replyErrorCodec, Codec.unpack_pack _ (fits_replyError htext hlength),
      Option.map_some]
    cases text <;> rfl

/-! ## What the server reads -/

/-- The order of the fields makes no difference to a request. -/
theorem byNumber_requestCodec (id : MsgId) : ByNumber (requestCodec id).read := by
  have hone : ∀ {α : Type} {c : Codec α} {n : ℕ}, c.numbers = [n] → ByNumber c.read :=
    Codec.byNumber_of_numbers
  cases id with
  | reqDlopen => exact Codec.byNumber_rename (Codec.byNumber_prod (hone rfl) (hone rfl))
  | reqDlclose => exact Codec.byNumber_rename (hone rfl)
  | reqDlsym => exact Codec.byNumber_rename (Codec.byNumber_prod (hone rfl) (hone rfl))
  | reqPeek => exact Codec.byNumber_rename (Codec.byNumber_prod (hone rfl) (hone rfl))
  | reqPoke => exact Codec.byNumber_rename (Codec.byNumber_prod (hone rfl) (hone rfl))
  | reqExec =>
    exact Codec.byNumber_rename
      (Codec.byNumber_prod (hone rfl) (Codec.byNumber_prod (hone rfl) (hone rfl)))
  | reqCall =>
    exact Codec.byNumber_rename
      (Codec.byNumber_prod (hone rfl) (Codec.byNumber_prod (hone rfl) (hone rfl)))
  | reqCloseClient => exact byNumber_const ()
  | reqListDir => exact Codec.byNumber_rename (hone rfl)
  | reqDummyBlock => exact byNumber_const ()
  | reqGetClassList => exact byNumber_const ()
  | reqShowObject => exact Codec.byNumber_rename (hone rfl)
  | reqShowClass => exact Codec.byNumber_rename (hone rfl)

/-- Nor to an envelope. -/
theorem byNumber_ofFields : ByNumber RpcMessage.ofFields := fun fields fields' hsame => by
  rw [RpcMessage.ofFields, RpcMessage.ofFields, byNumber_lastVarint 1 _ _ hsame,
    byNumber_lastVarint 2 _ _ hsame, byNumber_lastVarint 3 _ _ hsame,
    byNumber_lastDelimited 4 _ _ hsame]

namespace Protobuf

variable (lib : Protobuf) {id : MsgId} {request : RequestType id} {m : RpcMessage}

/-- So it does from the fields, which the descriptor of the request lets through. -/
theorem read_serialize {d : Descriptor} (hd : ∀ f, d.accepts f = (requestCodec id).accepts f)
    (hfits : (requestCodec id).Fits request) :
    ∃ fields, d.unpack (lib.serialize id request) = some fields ∧
      SameFields fields ((requestCodec id).write request) ∧
      (requestCodec id).read fields = (requestCodec id).norm request := by
  obtain ⟨fields, hsame, hunpack⟩ := (lib.serialize_encodes hfits).unpack_descriptor hd hfits
  refine ⟨fields, hunpack, hsame, ?_⟩
  rw [byNumber_requestCodec id _ _ hsame, (requestCodec id).read_write request hfits]

/-- A serialised request takes the room of a packed one. -/
theorem length_serialize (hfits : (requestCodec id).Fits request) :
    (lib.serialize id request).length = ((requestCodec id).pack request).length :=
  (lib.serialize_encodes hfits).length

/-- An envelope arrives as it was sent. -/
theorem unpack_serializeEnvelope (hpayload : m.payload.length ≤ maxDelimited) :
    RpcMessage.unpack (lib.serializeEnvelope m) = some m := by
  obtain ⟨fields, hsame, hbytes⟩ := lib.serializeEnvelope_fields hpayload
  have hfits : ∀ f ∈ fields, f.Fits := fun f hf =>
    RpcMessage.fits_fields hpayload f ((hsame.mem_iff f).mp hf)
  have haccepts : fields.all RpcMessage.descriptor.accepts = true :=
    List.all_eq_true.mpr fun f hf =>
      List.all_eq_true.mp (RpcMessage.accepts_fields m) f ((hsame.mem_iff f).mp hf)
  rw [RpcMessage.unpack, hbytes, Descriptor.unpack_writeFields hfits haccepts, Option.map_some,
    byNumber_ofFields _ _ hsame, RpcMessage.ofFields_fields]

end Protobuf

end RpcProject.Protocol
