/-
# Remote memory over messages

`peek` and `poke` are remote calls whose routines read and write the memory of the
process that serves the client. Built with `SAFE_READ_WRITES`, the server has the
kernel copy, which refuses a bad access; built without, it copies the bytes itself and a
bad access ends it. The client refuses a null pointer before anything is sent, and
turns the error replies of the server into errors of its arguments.

Tasks of one client may share a connection, one exchange at a time. However they take
turns, each is told what it would be told by a memory that all of them share, and the
process holds that memory.
-/

import RpcProject.Calls.RemoteCall
import RpcProject.Client.Remote
import RpcProject.Foundations.Interaction

namespace RpcProject.Calls

open Foundations Foundations.Effect Foundations.Wire Protocol Server Client Transport
open Protocol.Api (RequestType ReplyType requestCodec replyCodec)

/-! ## Routines with a state -/

/-- Routines that work on states `σ`. One that ends the process has no result. -/
abbrev Service (σ : Type) := (id : MsgId) → RequestType id → σ → Option (Transport.Outcome id × σ)

/-- What the routines return from a state. -/
def Service.procedures {σ : Type} (service : Service σ) (s : σ) : Procedures := fun id request =>
  match service id request s with
  | some (outcome, _) => outcome
  | none => .serverError -- no reply is sent

/-- The routine that `rpc_dispatch` invokes, with its request. -/
def invoked (p : Platform) (envelope : RpcMessage) : Option ((id : MsgId) × RequestType id) :=
  match routineLookup p envelope.msgId with
  | .error _ => none
  | .ok entry =>
      (entry.requestDescriptor.unpack envelope.payload).map fun fields =>
        ⟨entry.routine, (requestCodec entry.routine).read fields⟩

/-- One turn of the request loop in a process that may have ended before. A message that
does not unpack ends it. -/
def Service.serve {σ : Type} (service : Service σ) (p : Platform) (message : Bytes) :
    Option σ → Option Bytes × Option σ
  | none => (none, none)
  | some s =>
      match RpcMessage.unpack message with
      | none => (none, none)
      | some envelope =>
          let reply := (rpcDispatch p (service.procedures s).routines envelope).pack
          match invoked p envelope with
          | none => (some reply, some s)
          | some ⟨id, request⟩ =>
              match service id request s with
              | none => (none, none)
              | some (_, s') => (some reply, some s')

/-- What `peek` and `poke` raise. -/
inductive MemoryError
  | argumentError
  | valueError
  | connectionError
  | callError (error : CallError)
  deriving DecidableEq, Repr

/-- An exchange with a process that may be gone. -/
abbrev Exchange (σ α : Type) := Effect (Option σ) MemoryError α

/-- What the client makes of the reply, if one comes. -/
def replied (lib : Protobuf) (messages : RpcMessageRegistry) (id : MsgId) :
    Option Bytes → Except MemoryError (ReplyType id)
  | none => .error .connectionError
  | some reply =>
      match lib.parse reply with
      | none => .error (.callError .decodeError)
      | some reply => (parsedReply lib messages id reply).mapError .callError

/-- `rpc_call` with a process at the other end. -/
def remoteCall {σ : Type} (lib : Protobuf) (messages : RpcMessageRegistry) (clientId : UInt32)
    (p : Platform) (service : Service σ) {id : MsgId} (request : RequestType id) :
    Exchange σ (ReplyType id) := fun s =>
  match Client.callRequest messages clientId id.toUInt32 (lib.serialize id request) with
  | .error error => (.error (.callError error), s)
  | .ok envelope =>
      let (reply, s') := service.serve p (lib.serializeEnvelope envelope) s
      (replied lib messages id reply, s')

/-! ## The routines of memory -/

/-- What a process may do with its memory. -/
structure MemoryRules where
  /-- whether the server is built with `SAFE_READ_WRITES` -/
  safe : Bool
  readable : Address → ℕ → Bool
  writable : Address → ℕ → Bool
  /-- whether `malloc` has a buffer of this size -/
  allocates : ℕ → Bool

/-- The bytes of a message that hold the bytes of memory from an address on. -/
def loadBytes (memory : Memory) (address : UInt64) (n : ℕ) : Bytes :=
  (memory.load address.toBitVec n).map UInt8.ofBitVec

/-- The memory after bytes are stored. -/
def storeBytes (memory : Memory) (address : UInt64) (data : Bytes) : Memory :=
  memory.store address.toBitVec (data.map UInt8.toBitVec)

/-- `routine_peek` -/
def routinePeek {K : Type} (rules : MemoryRules) (request : Api.RequestPeek) (s : Remote K) :
    Option (Transport.Outcome .reqPeek × Remote K) :=
  if rules.safe then
    -- `vm_read` counts the bytes in 32 bits
    if rules.readable request.address.toBitVec request.size.toNat then
      some (.success (⟨loadBytes s.memory request.address (request.size.toNat % 2 ^ 32)⟩ :
        Api.ReplyPeek), s)
    else some (.protocolError, s)
  else if !rules.allocates request.size.toNat then some (.serverError, s)
  else if rules.readable request.address.toBitVec request.size.toNat then
    some (.success (⟨loadBytes s.memory request.address request.size.toNat⟩ : Api.ReplyPeek), s)
  else none

/-- `routine_poke` -/
def routinePoke {K : Type} (rules : MemoryRules) (request : Api.RequestPoke) (s : Remote K) :
    Option (Transport.Outcome .reqPoke × Remote K) :=
  let stored := fun data => { s with memory := storeBytes s.memory request.address data }
  if rules.safe then
    -- and `vm_write` as well
    let data := request.data.take (request.data.length % 2 ^ 32)
    if rules.writable request.address.toBitVec data.length then
      some (.success (), stored data)
    else some (.protocolError, s)
  else if rules.writable request.address.toBitVec request.data.length then
    some (.success (), stored request.data)
  else none

/-- The routines of the server. What the other ones do is a parameter. -/
def memoryService {K : Type} (rules : MemoryRules) (others : Service (Remote K)) :
    Service (Remote K)
  | .reqPeek, request, s => routinePeek rules request s
  | .reqPoke, request, s => routinePoke rules request s
  | id, request, s => others id request s

/-! ## The client -/

section Client

variable {K : Type} (lib : Protobuf) (messages : RpcMessageRegistry) (clientId : UInt32)
  (p : Platform) (service : Service (Remote K))

/-- A number for an unsigned field of a request. -/
def field (value : ℤ) : Exchange (Remote K) UInt64 :=
  ask fun _ => (unsigned value).mapError fun _ => .valueError

/-- `raise ArgumentError() from e` -/
def fromServerError {α : Type} : MemoryError → Exchange (Remote K) α
  | .callError (.serverResponseError _) => raise .argumentError
  | error => raise error

/-- `CoreClient.peek` -/
def corePeek (address size : ℤ) : Exchange (Remote K) Bytes := do
  raiseIf (address = 0) .argumentError
  let address ← field address
  let size ← field size
  let reply ← handle (@remoteCall _ lib messages clientId p service .reqPeek
    (⟨address, size⟩ : Api.RequestPeek)) fromServerError
  return Api.ReplyPeek.data reply

/-- `CoreClient.poke` -/
def corePoke (address : ℤ) (data : Bytes) : Exchange (Remote K) Unit := do
  raiseIf (address = 0) .argumentError
  let address ← field address
  let _ ← handle (@remoteCall _ lib messages clientId p service .reqPoke
    (⟨address, data⟩ : Api.RequestPoke)) fromServerError
  return ()

end Client

/-- An access to memory by a task. -/
inductive Access
  | peek (address size : ℤ)
  | poke (address : ℤ) (data : Bytes)
  deriving DecidableEq, Repr

/-- What an access is answered with. -/
def Access.Answer : Access → Type
  | peek _ _ => Except MemoryError Bytes
  | poke _ _ => Except MemoryError Unit

/-- The client and its server, as tasks of the client see them. -/
def stack {K : Type} (lib : Protobuf) (messages : RpcMessageRegistry) (clientId : UInt32)
    (p : Platform) (service : Service (Remote K)) :
    Device (Option (Remote K)) Access Access.Answer
  | .peek address size => corePeek lib messages clientId p service address size
  | .poke address data => corePoke lib messages clientId p service address data

/-! ## A shared memory -/

/-- What becomes of an access. -/
inductive Verdict
  | granted
  | refused
  | fatal
  deriving DecidableEq, Repr

namespace MemoryRules

variable (rules : MemoryRules)

/-- What becomes of a read, -/
def reading (address : Address) (n : ℕ) : Verdict :=
  if !rules.safe && !rules.allocates n then .refused
  else if rules.readable address n then .granted
  else if rules.safe then .refused
  else .fatal

/-- and of a write. -/
def writing (address : Address) (n : ℕ) : Verdict :=
  if rules.writable address n then .granted else if rules.safe then .refused else .fatal

end MemoryRules

/-- What an access with a verdict gives, and the memory after it. -/
def Verdict.access {α : Type} (verdict : Verdict) (value : α) (memory stored : Memory) :
    Except MemoryError α × Option Memory :=
  match verdict with
  | granted => (.ok value, some stored)
  | refused => (.error .argumentError, some memory)
  | fatal => (.error .connectionError, none)

/-- Numbers that an unsigned field holds. -/
def Unsigned (value : ℤ) : Prop := 0 ≤ value ∧ value < 2 ^ 64

instance (value : ℤ) : Decidable (Unsigned value) := inferInstanceAs (Decidable (_ ∧ _))

/-- `peek` of a memory that is simply there. -/
def sharedPeek (rules : MemoryRules) (address size : ℤ) (s : Option Memory) :
    Except MemoryError Bytes × Option Memory :=
  if address = 0 then (.error .argumentError, s)
  else if ¬ (Unsigned address ∧ Unsigned size) then (.error .valueError, s)
  else
    match s with
    | none => (.error .connectionError, none)
    | some memory =>
        (rules.reading (BitVec.ofInt 64 address) size.toNat).access
          ((memory.load (BitVec.ofInt 64 address) size.toNat).map UInt8.ofBitVec) memory memory

/-- `poke` of such a memory. -/
def sharedPoke (rules : MemoryRules) (address : ℤ) (data : Bytes) (s : Option Memory) :
    Except MemoryError Unit × Option Memory :=
  if address = 0 then (.error .argumentError, s)
  else if ¬ Unsigned address then (.error .valueError, s)
  else
    match s with
    | none => (.error .connectionError, none)
    | some memory =>
        (rules.writing (BitVec.ofInt 64 address) data.length).access () memory
          (memory.store (BitVec.ofInt 64 address) (data.map UInt8.toBitVec))

/-- Accesses whose messages the format can carry. -/
def Access.Carried : Access → Prop
  | peek _ size => size + 40 ≤ maxDelimited
  | poke _ data => data.length + 40 ≤ maxDelimited

/-! ## Calls of a service -/

section Service

variable {σ : Type} {lib : Protobuf} {messages : RpcMessageRegistry} {p : Platform}
  {service : Service σ} {id : MsgId} {request : RequestType id} {entry : RpcRoutineEntry}
  {s s' : σ} {outcome : Transport.Outcome id}

theorem routineLookup_toUInt32 (hentry : rpcRoutines p id = some entry) :
    routineLookup p id.toUInt32 = .ok entry := by
  have hinside : ¬ (id.toUInt32 ≤ 0 ∨ rpcMaxReqMsgId ≤ id.toUInt32) := by
    cases id <;> decide
  have hid : MsgId.ofUInt32? id.toUInt32 = some id := by
    cases id <;> rfl
  rw [routineLookup, if_neg hinside, hid, Option.bind_some, hentry]

/-- A serialised request invokes the routine of its id. -/
theorem invoked_serialize (lib : Protobuf) (hentry : rpcRoutines p id = some entry)
    (hfits : (requestCodec id).Fits request) (clientId : UInt32) :
    invoked p ⟨messageMagic, clientId, id.toUInt32, lib.serialize id request⟩ =
      some ⟨id, (requestCodec id).norm request⟩ := by
  obtain ⟨fields, hunpack, -, hread⟩ := lib.read_serialize (accepts_requestDescriptor hentry) hfits
  rw [invoked, routineLookup_toUInt32 hentry]
  obtain ⟨routine, descriptor, name⟩ := entry
  obtain rfl : routine = id := (rpcRoutines_eq_some hentry).1
  simp only [hunpack, Option.map_some, hread]

/-- A call is one turn of the server between two messages. -/
theorem remoteCall_of_complete (hmessages : messages.Complete) (clientId : UInt32) (s : Option σ) :
    remoteCall lib messages clientId p service request s =
      let (reply, s') := service.serve p (lib.serializeEnvelope
        ⟨messageMagic, clientId, id.toUInt32, lib.serialize id request⟩) s
      (replied lib messages id reply, s') := by
  rw [remoteCall, Client.callRequest, hmessages.request id]

/-- Nothing answers once the process has ended. -/
theorem remoteCall_none (hmessages : messages.Complete) (clientId : UInt32) :
    remoteCall lib messages clientId p service request none = (.error .connectionError, none) :=
  remoteCall_of_complete hmessages clientId none

/-- The turn of the server for a request that is sent. -/
theorem serve_serialize (lib : Protobuf) (hentry : rpcRoutines p id = some entry)
    (hfits : (requestCodec id).Fits request)
    (hlength : ((requestCodec id).pack request).length ≤ maxDelimited) (clientId : UInt32) :
    service.serve p (lib.serializeEnvelope
        ⟨messageMagic, clientId, id.toUInt32, lib.serialize id request⟩) (some s) =
      match service id ((requestCodec id).norm request) s with
      | none => (none, none)
      | some (_, s') =>
          (some (rpcDispatch p (service.procedures s).routines
            ⟨messageMagic, clientId, id.toUInt32, lib.serialize id request⟩).pack, some s') := by
  have hpayload : (lib.serialize id request).length ≤ maxDelimited := by
    rwa [lib.length_serialize hfits]
  rw [Service.serve, @Protobuf.unpack_serializeEnvelope lib
    ⟨messageMagic, clientId, id.toUInt32, lib.serialize id request⟩ hpayload]
  simp only [invoked_serialize lib hentry hfits clientId]

/-- A routine that ends the process loses the connection. -/
theorem remoteCall_fatal (hmessages : messages.Complete) (hentry : rpcRoutines p id = some entry)
    (hfits : (requestCodec id).Fits request)
    (hlength : ((requestCodec id).pack request).length ≤ maxDelimited)
    (hroutine : service id ((requestCodec id).norm request) s = none) (clientId : UInt32) :
    remoteCall lib messages clientId p service request (some s) =
      (.error .connectionError, none) := by
  rw [remoteCall_of_complete hmessages, serve_serialize lib hentry hfits hlength, hroutine]
  rfl

/-- What comes of an error reply. -/
theorem replied_replyError (lib : Protobuf) (hmessages : messages.Complete) {text : Bytes}
    (htext : Ascii text) :
    replied lib messages id
        (some (replyError { RpcMessage.init with magic := messageMagic } text).pack) =
      (raised text).mapError .callError := by
  have hpayload : (replyError { RpcMessage.init with magic := messageMagic } text).payload.length ≤
      maxDelimited :=
    (ReplyError.pack_length_le _).trans
      (le_trans (Nat.add_le_add_left (List.length_take_le _ _) 20) (by decide))
  rw [replied, lib.parse_pack hpayload]
  exact congrArg (Except.mapError MemoryError.callError)
    (parsedReply_replyError lib hmessages id _ htext)

/-- The reply to a call holds what its routine returns. -/
theorem remoteCall_returned (hmessages : messages.Complete) (hentry : rpcRoutines p id = some entry)
    (hfits : (requestCodec id).Fits request)
    (hlength : ((requestCodec id).pack request).length ≤ maxDelimited)
    (hroutine : service id ((requestCodec id).norm request) s = some (outcome, s'))
    (hreply : ∀ reply, outcome = .success reply →
      (replyCodec id).Fits reply ∧ ((replyCodec id).pack reply).length ≤ maxDelimited)
    (clientId : UInt32) :
    remoteCall lib messages clientId p service request (some s) =
      ((outcome.seen entry).mapError .callError, some s') := by
  have hprocedure : service.procedures s id ((requestCodec id).norm request) = outcome := by
    rw [Service.procedures, hroutine]
  have hname := (rpcRoutines_eq_some hentry).2
  rw [remoteCall_of_complete hmessages, serve_serialize lib hentry hfits hlength, hroutine]
  simp only [rpcDispatch_serialize lib hfits, hentry, hprocedure]
  cases outcome with
  | success reply =>
    obtain ⟨hfitsReply, hlengthReply⟩ := hreply reply rfl
    have hparse := @EnvelopeParser.parse_pack lib.toEnvelopeParser
      ⟨messageMagic, 0, id.reply, (replyCodec id).pack reply⟩ hlengthReply
    simp only [replied, RpcMessage.init, hparse, parsedReply_pack lib hmessages hfitsReply]
    rfl
  | protocolError =>
    exact congrArg (·, some s') (replied_replyError lib hmessages (ascii_protocolErrorText hname))
  | serverError =>
    exact congrArg (·, some s') (replied_replyError lib hmessages (ascii_serverErrorText hname))

/-- What a task is told of an outcome. -/
def told : Transport.Outcome id → Except MemoryError (ReplyType id)
  | .success reply => .ok ((replyCodec id).norm reply)
  | _ => .error .argumentError

/-- What comes of a routine, for a task and for the process. -/
def answered : Option (Transport.Outcome id × σ) → Except MemoryError (ReplyType id) × Option σ
  | none => (.error .connectionError, none)
  | some (outcome, s) => (told outcome, some s)

/-- A call with the handler for error replies comes to what its routine comes to. -/
theorem handle_remoteCall {K : Type} {r : Remote K} {service : Service (Remote K)}
    (hmessages : messages.Complete) (hentry : rpcRoutines p id = some entry)
    (hfits : (requestCodec id).Fits request)
    (hlength : ((requestCodec id).pack request).length ≤ maxDelimited)
    (hreply : ∀ reply r', service id ((requestCodec id).norm request) r =
    some (.success reply, r') →
      (replyCodec id).Fits reply ∧ ((replyCodec id).pack reply).length ≤ maxDelimited)
    (clientId : UInt32) :
    handle (remoteCall lib messages clientId p service request) fromServerError (some r) =
      answered (service id ((requestCodec id).norm request) r) := by
  rcases hroutine : service id ((requestCodec id).norm request) r with - | ⟨outcome, r'⟩
  · rw [handle, remoteCall_fatal hmessages hentry hfits hlength hroutine]
    rfl
  · rw [handle, remoteCall_returned hmessages hentry hfits hlength hroutine
      fun reply houtcome => hreply reply r' (houtcome ▸ hroutine)]
    cases outcome <;> rfl

/-- A process that is gone answers nothing. -/
theorem handle_remoteCall_none {K : Type} {service : Service (Remote K)}
    (hmessages : messages.Complete)
    (clientId : UInt32) :
    handle (remoteCall lib messages clientId p service request) fromServerError none =
      (.error .connectionError, none) := by
  rw [handle, remoteCall_none hmessages]
  rfl

end Service

/-! ## Accesses -/

/-- A number of 64 bits is put into a field. -/
theorem field_of_unsigned {K : Type} {value : ℤ} (h : Unsigned value) (s : Option (Remote K)) :
    field value s = (.ok (UInt64.ofInt value), s) := by
  have hfield : unsigned value = .ok (UInt64.ofInt value) := if_pos h
  rw [field, ask, hfield]
  rfl

theorem field_of_not_unsigned {K : Type} {value : ℤ} (h : ¬ Unsigned value)
    (s : Option (Remote K)) :
    field value s = (.error .valueError, s) := by
  have hfield : unsigned value = .error .valueError := if_neg h
  rw [field, ask, hfield]
  rfl

/-- An address as a number is the address. -/
theorem toBitVec_ofInt (value : ℤ) : (UInt64.ofInt value).toBitVec = BitVec.ofInt 64 value := by
  apply BitVec.eq_of_toNat_eq
  rw [UInt64.toNat_toBitVec, UInt64.ofInt, UInt64.toNat_ofNat', BitVec.toNat_ofInt]
  have := Int.emod_lt_of_pos value (show (0 : ℤ) < 2 ^ 64 by norm_num)
  omega

theorem toNat_ofInt {value : ℤ} (h : Unsigned value) :
    (UInt64.ofInt value).toNat = value.toNat := by
  obtain ⟨hpos, hlt⟩ := h
  rw [UInt64.ofInt, UInt64.toNat_ofNat', Int.emod_eq_of_lt hpos hlt]
  omega

theorem pack_requestPeek_length (request : Api.RequestPeek) :
    (Api.RequestPeek.codec.pack request).length ≤ 40 :=
  ((Api.packedWithin_uint64.prod Api.packedWithin_uint64).rename _) request

theorem pack_bytes_length {strict : Bool} {n : ℕ} {hn : 0 < n ∧ n < 2 ^ 29} (data : Bytes) :
    ((Api.bytes strict n hn).pack data).length ≤ 20 + data.length :=
  Union.pack_implicit_length_le _ _ _ data

theorem pack_requestPoke_length (request : Api.RequestPoke) :
    (Api.RequestPoke.codec.pack request).length ≤ 40 + request.data.length := by
  have hsplit : Api.RequestPoke.codec.pack request =
      (Api.uint64 true 1).pack request.address ++ (Api.bytes true 2).pack request.data :=
    List.flatMap_append
  have haddress : ((Api.uint64 true 1).pack request.address).length ≤ 20 :=
    Api.packedWithin_uint64 request.address
  have hdata : ((Api.bytes true 2).pack request.data).length ≤ 20 + request.data.length :=
    pack_bytes_length request.data
  rw [hsplit, List.length_append]
  omega

theorem pack_replyPeek_length (reply : Api.ReplyPeek) :
    (Api.ReplyPeek.codec.pack reply).length ≤ 20 + reply.data.length :=
  pack_bytes_length reply.data

theorem told_peek (reply : Api.ReplyPeek) : @told .reqPeek (.success reply) = .ok reply :=
  congrArg Except.ok (Codec.norm_rename_eq_iff.mpr (Api.norm_bytes _))

section

variable {K : Type} {lib : Protobuf} {messages : RpcMessageRegistry} {clientId : UInt32}
  {p : Platform} {rules : MemoryRules} {others : Service (Remote K)} {base : Remote K}
  {address size : ℤ} {data : Bytes}

/-- The process with this memory. -/
def holding (base : Remote K) (memory : Memory) : Remote K := { base with memory := memory }

/-- A read is answered as the memory says. -/
theorem answered_routinePeek (hsize : Unsigned size) (hcarried : size + 40 ≤ maxDelimited)
    (memory : Memory) :
    answered (routinePeek rules ⟨UInt64.ofInt address, UInt64.ofInt size⟩ (holding base memory)) =
      let (value, t) := (rules.reading (BitVec.ofInt 64 address) size.toNat).access
        (⟨(memory.load (BitVec.ofInt 64 address) size.toNat).map UInt8.ofBitVec⟩ : Api.ReplyPeek)
          memory memory
      (value, t.map (holding base)) := by
  have hcount : size.toNat % 2 ^ 32 = size.toNat :=
    Nat.mod_eq_of_lt (by unfold maxDelimited at hcarried; omega)
  simp only [routinePeek, loadBytes, toBitVec_ofInt, toNat_ofInt hsize, hcount, MemoryRules.reading]
  cases rules.safe <;> cases rules.allocates size.toNat <;>
    cases rules.readable (BitVec.ofInt 64 address) size.toNat <;>
    first | rfl | exact congrArg (·, _) (told_peek _)

theorem answered_routinePoke (hcarried : data.length + 40 ≤ maxDelimited) (memory : Memory) :
    answered (routinePoke rules ⟨UInt64.ofInt address, data⟩ (holding base memory)) =
      let (value, t) := (rules.writing (BitVec.ofInt 64 address) data.length).access () memory
        (memory.store (BitVec.ofInt 64 address) (data.map UInt8.toBitVec))
      (value, t.map (holding base)) := by
  have htake : data.take (data.length % 2 ^ 32) = data := by
    rw [Nat.mod_eq_of_lt (by unfold maxDelimited at hcarried; omega), List.take_length]
  simp only [routinePoke, storeBytes, toBitVec_ofInt, htake, MemoryRules.writing]
  cases rules.safe <;> cases rules.writable (BitVec.ofInt 64 address) data.length <;> rfl

/-- What is made of the answer to a call, when it comes to what an access comes to. -/
theorem bind_access {β γ : Type} {call : Exchange (Remote K) β} {s : Option (Remote K)}
    {verdict : Verdict} {value : β} {memory stored : Memory}
    (hcall : call s =
      let (value, t) := verdict.access value memory stored
      (value, t.map (holding base))) (f : β → γ) :
    (call >>= fun b => pure (f b)) s =
      ((verdict.access (f value) memory stored).1,
        (verdict.access (f value) memory stored).2.map (holding base)) := by
  cases verdict with
  | granted => exact bind_of_ok hcall
  | refused => exact bind_of_error hcall
  | fatal => exact bind_of_error hcall

/-- No reply holds more bytes than were asked for. -/
theorem routinePeek_length {request : Api.RequestPeek} {r r' : Remote K} {reply : Api.ReplyPeek}
    (h : routinePeek rules request r = some (.success reply, r')) :
    reply.data.length ≤ request.size.toNat := by
  have hload : ∀ n, (loadBytes r.memory request.address n).length = n := fun n => by
    rw [loadBytes, Memory.load, List.length_map, List.length_map, List.length_range]
  unfold routinePeek at h
  split_ifs at h <;> cases h
  · exact (hload _).trans_le (Nat.mod_le _ _)
  · exact (hload _).le

/-- The reply to a read that can be carried can be carried. -/
theorem fits_peekReply {r r' : Remote K} {reply : Api.ReplyPeek} (hsize : Unsigned size)
    (hcarried : size + 40 ≤ maxDelimited)
    (h : routinePeek rules ⟨UInt64.ofInt address, UInt64.ofInt size⟩ r =
      some (.success reply, r')) :
    Api.ReplyPeek.codec.Fits reply ∧ (Api.ReplyPeek.codec.pack reply).length ≤ maxDelimited := by
  have hcount := routinePeek_length h
  have hpack := pack_replyPeek_length reply
  have hpos := hsize.1
  rw [toNat_ofInt hsize] at hcount
  exact ⟨⟨show reply.data.length ≤ maxDelimited by omega, rfl⟩, by omega⟩

/-- A remote read is a read of a memory that is simply there. -/
theorem corePeek_eq (hmessages : messages.Complete) (hcarried : size + 40 ≤ maxDelimited)
    (t : Option Memory) :
    corePeek lib messages clientId p (memoryService rules others) address size
        (t.map (holding base)) =
      ((sharedPeek rules address size t).1,
        (sharedPeek rules address size t).2.map (holding base)) := by
  unfold corePeek sharedPeek
  by_cases hnull : address = 0
  · rw [bind_of_error (raiseIf_of hnull _ _), if_pos hnull]
  rw [bind_of_ok (raiseIf_of_not hnull _ _), if_neg hnull]
  by_cases haddress : Unsigned address
  swap
  · rw [bind_of_error (field_of_not_unsigned haddress _), if_pos fun h => haddress h.1]
  rw [bind_of_ok (field_of_unsigned haddress _)]
  by_cases hsize : Unsigned size
  swap
  · rw [bind_of_error (field_of_not_unsigned hsize _), if_pos fun h => hsize h.2]
  rw [bind_of_ok (field_of_unsigned hsize _), if_neg (not_not_intro ⟨haddress, hsize⟩)]
  cases t with
  | none => exact bind_of_error (handle_remoteCall_none hmessages clientId)
  | some memory =>
    have hlength : (Api.RequestPeek.codec.pack ⟨UInt64.ofInt address, UInt64.ofInt size⟩).length ≤
        maxDelimited := (pack_requestPeek_length _).trans (by decide)
    have hreply : ∀ (reply : Api.ReplyPeek) r',
        routinePeek rules (Api.RequestPeek.codec.norm ⟨UInt64.ofInt address, UInt64.ofInt size⟩)
          (holding base memory) = some (.success reply, r') →
        Api.ReplyPeek.codec.Fits reply ∧
          (Api.ReplyPeek.codec.pack reply).length ≤ maxDelimited := by
      intro reply r' h
      rw [Api.norm_requestPeek] at h
      exact fits_peekReply hsize hcarried h
    have hroutine := @answered_routinePeek K rules base address size hsize hcarried memory
    rw [← Api.norm_requestPeek ⟨UInt64.ofInt address, UInt64.ofInt size⟩] at hroutine
    have hcall := (@handle_remoteCall lib messages p .reqPeek
      ⟨UInt64.ofInt address, UInt64.ofInt size⟩ _ K (holding base memory)
      (memoryService rules others) hmessages rfl ⟨trivial, trivial⟩ hlength hreply
      clientId).trans hroutine
    exact bind_access hcall Api.ReplyPeek.data

theorem corePoke_eq (hmessages : messages.Complete) (hcarried : data.length + 40 ≤ maxDelimited)
    (t : Option Memory) :
    corePoke lib messages clientId p (memoryService rules others) address data
        (t.map (holding base)) =
      ((sharedPoke rules address data t).1,
        (sharedPoke rules address data t).2.map (holding base)) := by
  unfold corePoke sharedPoke
  by_cases hnull : address = 0
  · rw [bind_of_error (raiseIf_of hnull _ _), if_pos hnull]
  rw [bind_of_ok (raiseIf_of_not hnull _ _), if_neg hnull]
  by_cases haddress : Unsigned address
  swap
  · rw [bind_of_error (field_of_not_unsigned haddress _), if_pos haddress]
  rw [bind_of_ok (field_of_unsigned haddress _), if_neg (not_not_intro haddress)]
  cases t with
  | none => exact bind_of_error (handle_remoteCall_none hmessages clientId)
  | some memory =>
    have hpack := pack_requestPoke_length ⟨UInt64.ofInt address, data⟩
    have hfits : Api.RequestPoke.codec.Fits ⟨UInt64.ofInt address, data⟩ :=
      ⟨trivial, show data.length ≤ maxDelimited by omega, rfl⟩
    have hreply : ∀ (reply : Unit) r',
        memoryService rules others .reqPoke
            (Api.RequestPoke.codec.norm ⟨UInt64.ofInt address, data⟩)
          (holding base memory) = some (.success reply, r') →
        Codec.unit.Fits reply ∧ (Codec.unit.pack reply).length ≤ maxDelimited :=
      fun _ _ _ => ⟨trivial, Nat.zero_le _⟩
    have hroutine := @answered_routinePoke K rules base address data hcarried memory
    rw [← Api.norm_requestPoke ⟨UInt64.ofInt address, data⟩] at hroutine
    have hcall := (@handle_remoteCall lib messages p .reqPoke ⟨UInt64.ofInt address, data⟩ _ K
      (holding base memory) (memoryService rules others) hmessages rfl hfits
      (hpack.trans (by rwa [Nat.add_comm])) hreply clientId).trans hroutine
    exact bind_access hcall id

/-- A symbol is the address that its number is. -/
theorem ofInt_symbol (address : Symbol) : BitVec.ofInt 64 address.int = address.bits := by
  rw [Symbol.int, BitVec.ofInt_natCast, BitVec.ofNat_toNat, BitVec.setWidth_eq]

theorem unsigned_symbol (address : Symbol) : Unsigned address.int :=
  ⟨address.int_nonneg, by have := address.bits.isLt; unfold Symbol.int; omega⟩

/-- `peek` of the client's programs is that of the stack, where memory may be read. -/
theorem corePeek_symbol (hmessages : messages.Complete) {address : Symbol} {count : ℕ}
    (hgranted : rules.reading address.bits count = .granted)
    (hcarried : count + 40 ≤ maxDelimited) :
    corePeek lib messages clientId p (memoryService rules others) address.int count (some base) =
      (((peek address count base).1.map (List.map UInt8.ofBitVec)).mapError fun _ => .argumentError,
        some (peek address count base).2) := by
  have hcarried' : (count : ℤ) + 40 ≤ maxDelimited := by omega
  have hsize : Unsigned count := ⟨Int.natCast_nonneg _, by unfold maxDelimited at hcarried; omega⟩
  refine (corePeek_eq hmessages hcarried' (some base.memory)).trans ?_
  rw [sharedPeek.eq_def]
  by_cases hnull : address.int = 0
  · rw [if_pos hnull, peek, bind_of_error (raiseIf_of hnull _ _)]
    rfl
  · rw [if_neg hnull, if_neg (not_not_intro ⟨unsigned_symbol address, hsize⟩), peek_of_ne hnull,
      ofInt_symbol, Int.toNat_natCast]
    simp only [hgranted]
    rfl

/-- And so is `poke`, where it may be written. -/
theorem corePoke_symbol (hmessages : messages.Complete) {address : Symbol} {data : List Byte}
    (hgranted : rules.writing address.bits data.length = .granted)
    (hcarried : data.length + 40 ≤ maxDelimited) :
    corePoke lib messages clientId p (memoryService rules others) address.int
        (data.map UInt8.ofBitVec)
        (some base) =
      ((poke address data base).1.mapError fun _ => .argumentError,
        some (poke address data base).2) := by
  have hback : (data.map UInt8.ofBitVec).map UInt8.toBitVec = data := by
    rw [List.map_map]
    exact List.map_id _
  refine (corePoke_eq hmessages (by rwa [List.length_map]) (some base.memory)).trans ?_
  rw [sharedPoke.eq_def]
  by_cases hnull : address.int = 0
  · rw [if_pos hnull, poke, bind_of_error (raiseIf_of hnull _ _)]
    rfl
  · rw [if_neg hnull, if_neg (not_not_intro (unsigned_symbol address)), poke_of_ne hnull,
      ofInt_symbol, hback, List.length_map]
    simp only [hgranted]
    rfl

end

end RpcProject.Calls
