/-
# What the format loses

The server reads the texts of a request up to their first zero, and it leaves the
negative zero of a floating-point register out of a reply. Everything else that the
format can carry arrives as it was sent: there is no other loss on either way.

Of the client's library this takes only that it writes the fields of a request, and that
it parses a reply that the server has written in full.
-/

import RpcProject.Protocol.Protobuf

namespace RpcProject.Protocol.Api

open Foundations Foundations.Wire

/-! ## What a field keeps -/

section Fields

variable {strict : Bool} {n : ℕ} {hn : 0 < n ∧ n < 2 ^ 29}

/-- A field loses nothing if its scalar keeps every value and it leaves out its default only. -/
theorem norm_implicit_member {α : Type} {s : Scalar α} {zeroish : α → Bool} {default : α}
    (hkeep : ∀ a, s.norm a = a) (hzero : ∀ a, zeroish a = true → default = a) (a : α) :
    ((Wire.Union.member n s hn).implicit zeroish default).norm a = a := by
  rw [Union.norm_implicit_eq_iff]
  split
  · next h => exact hzero a h
  · exact hkeep a

theorem norm_uint64 (a : UInt64) : (uint64 strict n hn).norm a = a :=
  norm_implicit_member (fun _ => rfl) (fun _ h => (beq_iff_eq.mp h).symm) a

theorem norm_uint32 (a : UInt32) : (uint32 strict n hn).norm a = a :=
  norm_implicit_member (fun _ => rfl) (fun _ h => (beq_iff_eq.mp h).symm) a

theorem norm_int32 (a : Int32) : (int32 strict n hn).norm a = a :=
  norm_implicit_member (fun _ => rfl) (fun _ h => (beq_iff_eq.mp h).symm) a

theorem norm_bytes (a : Bytes) : (bytes strict n hn).norm a = a :=
  norm_implicit_member (fun _ => rfl) (fun _ h => (beq_iff_eq.mp h).symm) a

theorem norm_replyText (a : Bytes) : (replyText n hn).norm a = a :=
  norm_implicit_member (fun _ => rfl) (fun _ h => (beq_iff_eq.mp h).symm) a

/-- A floating-point register arrives just if it is not the negative zero. -/
theorem norm_register_eq_iff {d : UInt64} : (register n hn).norm d = d ↔ d ≠ negativeZero := by
  rw [register, Union.norm_implicit_eq_iff]
  by_cases hnegative : d = negativeZero
  · simp [hnegative, negativeZero]
  · by_cases hzero : d = 0
    · simp [hzero, negativeZero]
    · simp [hnegative, hzero, Wire.Union.member, Scalar.double]

end Fields

/-! ## What a message keeps -/

/-- The floating-point registers of a reply. -/
def replyRegisters : (id : MsgId) → ReplyType id → List UInt64
  | .reqCall, reply =>
      match ReplyCall.returnValues reply with
      | some (.armRegisters r) => [r.d0, r.d1, r.d2, r.d3, r.d4, r.d5, r.d6, r.d7]
      | _ => []
  | _, _ => []

/-- The status of a file arrives whole. -/
theorem norm_dirEntryStat (stat : DirEntryStat) : DirEntryStat.codec.norm stat = stat := by
  simp only [DirEntryStat.codec, Codec.norm_rename_eq_iff, Codec.norm_prod_eq_iff, norm_uint64,
    and_self]

theorem norm_dirEntry (entry : DirEntry) : DirEntry.codec.norm entry = entry := by
  simp only [DirEntry.codec, Codec.norm_rename_eq_iff, Codec.norm_prod_eq_iff, norm_uint64,
    norm_replyText, Union.norm_optional_eq_iff, true_and]
  exact ⟨fun stat _ => norm_dirEntryStat stat, fun stat _ => norm_dirEntryStat stat⟩

theorem norm_objcClass (c : ObjcClass) : ObjcClass.codec.norm c = c := by
  simp only [ObjcClass.codec, Codec.norm_rename_eq_iff, Codec.norm_prod_eq_iff, norm_uint64,
    norm_replyText, and_self]

/-- The registers arrive just if none is the negative zero. -/
theorem norm_returnRegistersArm_eq_iff {r : ReturnRegistersArm} :
    ReturnRegistersArm.codec.norm r = r ↔
      ∀ d ∈ [r.d0, r.d1, r.d2, r.d3, r.d4, r.d5, r.d6, r.d7], d ≠ negativeZero := by
  simp only [ReturnRegistersArm.codec, Codec.norm_rename_eq_iff, Codec.norm_prod_eq_iff,
    norm_uint64,
    norm_register_eq_iff, true_and, List.forall_mem_cons, List.not_mem_nil, false_implies,
    implies_true, and_true]
  rfl

theorem norm_replyCall_eq_iff {reply : ReplyCall} :
    ReplyCall.codec.norm reply = reply ↔
      ∀ d ∈ replyRegisters .reqCall reply, d ≠ negativeZero := by
  rw [ReplyCall.codec, Codec.norm_rename_eq_iff, Union.norm_optional_eq_iff]
  obtain ⟨_ | registers | value⟩ := reply
  · simp [replyRegisters]
  · have hmember : ∀ registers', ReturnValues.armRegisters registers' = .armRegisters registers ↔
        registers' = registers := fun _ => ReturnValues.armRegisters.injEq _ _ ▸ Iff.rfl
    simp only [Equiv.coe_fn_mk, Option.mem_some_iff, forall_eq']
    exact (hmember _).trans norm_returnRegistersArm_eq_iff
  · simp only [Equiv.coe_fn_mk, Option.mem_some_iff, forall_eq']
    exact iff_of_true rfl fun d hd => absurd hd List.not_mem_nil

theorem norm_requestPeek (request : RequestPeek) : RequestPeek.codec.norm request = request := by
  simp only [RequestPeek.codec, Codec.norm_rename_eq_iff, Codec.norm_prod_eq_iff, norm_uint64,
    and_self]

theorem norm_requestPoke (request : RequestPoke) : RequestPoke.codec.norm request = request := by
  simp only [RequestPoke.codec, Codec.norm_rename_eq_iff, Codec.norm_prod_eq_iff, norm_uint64,
    norm_bytes, and_self]

theorem norm_replyExec (reply : ReplyExec) : ReplyExec.codec.norm reply = reply := by
  simp only [ReplyExec.codec, Codec.norm_rename_eq_iff, Codec.norm_prod_eq_iff, norm_uint32,
    norm_int32, and_self]

theorem norm_replyListDir (reply : ReplyListDir) : ReplyListDir.codec.norm reply = reply := by
  rw [ReplyListDir.codec, Codec.norm_rename_eq_iff, Union.norm_repeated_eq_iff]
  exact fun entry _ => norm_dirEntry entry

theorem norm_replyDummyBlock (reply : ReplyDummyBlock) :
    ReplyDummyBlock.codec.norm reply = reply := by
  simp only [ReplyDummyBlock.codec, Codec.norm_rename_eq_iff, Codec.norm_prod_eq_iff, norm_uint64,
    and_self]

theorem norm_replyGetClassList (reply : ReplyGetClassList) :
    ReplyGetClassList.codec.norm reply = reply := by
  rw [ReplyGetClassList.codec, Codec.norm_rename_eq_iff, Union.norm_repeated_eq_iff]
  exact fun c _ => norm_objcClass c

theorem norm_replyShow (reply : ReplyShow) : ReplyShow.codec.norm reply = reply :=
  Codec.norm_rename_eq_iff.mpr (norm_replyText _)

/-- A reply arrives as it was sent exactly when no register of it is the negative zero. -/
theorem norm_reply_eq_iff {id : MsgId} {reply : ReplyType id} :
    (replyCodec id).norm reply = reply ↔ ∀ d ∈ replyRegisters id reply, d ≠ negativeZero := by
  have hnone : ∀ {P : Prop}, P → (P ↔ ∀ d ∈ ([] : List UInt64), d ≠ negativeZero) := by simp
  cases id with
  | reqDlopen => exact hnone (Codec.norm_rename_eq_iff.mpr (norm_uint64 _))
  | reqDlclose => exact hnone (Codec.norm_rename_eq_iff.mpr (norm_uint32 _))
  | reqDlsym => exact hnone (Codec.norm_rename_eq_iff.mpr (norm_uint64 _))
  | reqPeek => exact hnone (Codec.norm_rename_eq_iff.mpr (norm_bytes _))
  | reqPoke => exact hnone rfl
  | reqExec => exact hnone (norm_replyExec _)
  | reqCall => exact norm_replyCall_eq_iff
  | reqCloseClient => exact hnone rfl
  | reqListDir => exact hnone (norm_replyListDir _)
  | reqDummyBlock => exact hnone (norm_replyDummyBlock _)
  | reqGetClassList => exact hnone (norm_replyGetClassList _)
  | reqShowObject => exact hnone (norm_replyShow _)
  | reqShowClass => exact hnone (norm_replyShow _)

/-! ## What a reply leaves on the wire -/

/-- A field that arrives is written as it was. -/
theorem writesNorm_uint64 {strict : Bool} {n : ℕ} {hn : 0 < n ∧ n < 2 ^ 29} :
    (uint64 strict n hn).WritesNorm := fun a => by rw [norm_uint64]

/-- A negative zero is left out, and so is the zero that it is read as. -/
theorem writesNorm_register {n : ℕ} {hn : 0 < n ∧ n < 2 ^ 29} : (register n hn).WritesNorm :=
  Union.writesNorm_implicit (fun _ => rfl) (by decide)

/-- Registers without their negative zeros are written as the registers are. -/
theorem writesNorm_returnRegistersArm : ReturnRegistersArm.codec.WritesNorm := by
  have hx := fun n hn => @writesNorm_uint64 false n hn
  have hd := fun n hn => @writesNorm_register n hn
  apply Codec.WritesNorm.rename
  exact (hx 1 _).prod <| (hx 2 _).prod <| (hx 3 _).prod <| (hx 4 _).prod <| (hx 5 _).prod <|
    (hx 6 _).prod <| (hx 7 _).prod <| (hx 8 _).prod <| (hd 9 _).prod <| (hd 10 _).prod <|
    (hd 11 _).prod <| (hd 12 _).prod <| (hd 13 _).prod <| (hd 14 _).prod <| (hd 15 _).prod (hd 16 _)

theorem writesNorm_replyCall : ReplyCall.codec.WritesNorm := by
  rintro ⟨_ | registers | value⟩
  · rfl
  · have hpack := writesNorm_returnRegistersArm.pack registers
    exact congrArg (fun bytes => [(⟨1, .delimited bytes⟩ : Field)]) hpack
  · rfl

/-- A reply to a call fits a message. -/
theorem fits_replyCall (values : ReturnValues) : ReplyCall.codec.Fits ⟨some values⟩ := by
  apply Union.optional_fits_some
  cases values with
  | armRegisters registers =>
    refine ⟨?_, le_trans (packedWithin_returnRegistersArm registers) (by decide)⟩
    simp only [ReturnRegistersArm.codec, Codec.rename, Codec.prod]
    exact ⟨trivial, trivial, trivial, trivial, trivial, trivial, trivial, trivial, trivial, trivial,
      trivial, trivial, trivial, trivial, trivial, trivial⟩
  | returnValue value => trivial

/-- What is left of a reply to a call is written in full. -/
theorem norm_norm_replyCall (reply : ReplyCall) :
    ReplyCall.codec.norm (ReplyCall.codec.norm reply) = ReplyCall.codec.norm reply := by
  obtain ⟨_ | values⟩ := reply
  · rfl
  obtain ⟨values', hvalues⟩ : ∃ values', ReplyCall.codec.norm ⟨some values⟩ = ⟨some values'⟩ :=
    ⟨_, rfl⟩
  -- the reply and what is left of it are read off the same fields
  have hread := ReplyCall.codec.read_write _ (fits_replyCall values')
  rw [← hvalues, writesNorm_replyCall,
    ReplyCall.codec.read_write _ (fits_replyCall values)] at hread
  exact hread.symm

/-- The client parses what is left of a packed reply. -/
theorem parseReply_pack (lib : Protobuf) {id : MsgId} {reply : ReplyType id}
    (hfits : (replyCodec id).Fits reply) :
    lib.parseReply id ((replyCodec id).pack reply) = some ((replyCodec id).norm reply) := by
  by_cases hnorm : (replyCodec id).norm reply = reply
  · rw [lib.parseReply_pack hfits hnorm, hnorm]
  -- only a call has a reply that is not written in full
  have hkept : (∀ d ∈ replyRegisters id reply, d ≠ negativeZero) → False := fun h =>
    hnorm (norm_reply_eq_iff.mpr h)
  cases id with
  | reqCall =>
    obtain ⟨_ | values⟩ := reply
    · exact absurd rfl hnorm
    obtain ⟨values', hvalues⟩ : ∃ values', ReplyCall.codec.norm ⟨some values⟩ = ⟨some values'⟩ :=
      ⟨_, rfl⟩
    have hparse := @lib.parseReply_pack .reqCall _ (fits_replyCall values')
      (hvalues ▸ norm_norm_replyCall _)
    rw [← hvalues] at hparse
    exact (congrArg _ (writesNorm_replyCall.pack _).symm).trans hparse
  | _ => exact absurd (fun d hd => absurd hd List.not_mem_nil) hkept

/-! ## Exact round trips -/

end RpcProject.Protocol.Api
