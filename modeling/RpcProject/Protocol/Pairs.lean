/-
# Pairs of message classes, registered and unregistered

A `RpcMessageRegistry` maps integers to classes. `register_pair` adds a request class
under an id and its reply class under the id plus `RPC_MAX_REQ_MSG_ID`, in two steps, and
`unregister_pair` removes both. The only check on the id is one from above.

What the registry is for is a table of pairs. With ids that the server's lookup can
accept, the two ranges of ids are apart and the registry is that table at every moment.
The check admits more: zero and the negative ids, whose replies are in the range of the
requests, and `RPC_MAX_REQ_MSG_ID` itself, which is the reply of zero.
-/

import RpcProject.Foundations.Effects
import RpcProject.Foundations.DictWrites
import RpcProject.Protocol.Registry
import RpcProject.Server.Dispatch

namespace RpcProject.Protocol

open Foundations Foundations.Effect Server

/-- The exceptions of the two registries. -/
inductive RegistryError
  | keyError (key : ℤ)
  | valueError (msgId : ℤ)
  deriving DecidableEq, Repr

variable {C : Type}

/-! ## The registry -/

namespace Registry

/-- Add or replace a value for a key. -/
def register (key : ℤ) (value : C) (overwrite : Bool) : Effect (Dict ℤ C) RegistryError Unit :=
  tryUpdate fun data =>
    if key ∈ data ∧ overwrite = false then .error (.keyError key)
    else .ok (data.insert key value)

/-- Remove the key, if it is there. -/
def unregister (key : ℤ) : Effect (Dict ℤ C) RegistryError Unit := modify fun data => data.erase key

variable {key : ℤ} {value : C} {data : Dict ℤ C}

/-- An id that is taken cannot be registered, and nothing is changed. -/
theorem register_of_mem (h : key ∈ data) :
    register key value false data = (.error (.keyError key), data) :=
  tryUpdate_of_error (if_pos ⟨h, rfl⟩)

theorem register_of_not_mem (h : key ∉ data) :
    register key value false data = (.ok (), data.insert key value) :=
  tryUpdate_of_ok (if_neg fun hmem => h hmem.1)

end Registry

namespace Pairs

/-- The id of the reply to a request. -/
def replyId (msgId : ℤ) : ℤ := msgId + rpcMaxReqMsgId.toNat

/-- The check on the id of a pair. -/
def Admitted (msgId : ℤ) : Prop := msgId ≤ rpcMaxReqMsgId.toNat

instance (msgId : ℤ) : Decidable (Admitted msgId) := inferInstanceAs (Decidable (_ ≤ _))

/-- The registry of a new `RpcMessageRegistry`, which knows the error reply. -/
def fresh (replyError : C) : Dict ℤ C := AList.insert (repError.toNat : ℤ) replyError ∅

/-- `register_pair`: the request under the id and the reply under the id after it that
replies have. The reply is not looked at before the request is stored. -/
def registerPair (msgId : ℤ) (req rep : C) : Effect (Dict ℤ C) RegistryError Unit := do
  if ¬ Admitted msgId then
    raise (.valueError msgId)
  else
    Registry.register msgId req false
    Registry.register (replyId msgId) rep false

/-- `unregister_pair` -/
def unregisterPair (msgId : ℤ) : Effect (Dict ℤ C) RegistryError Unit := do
  if ¬ Admitted msgId then
    raise (.valueError msgId)
  else
    Registry.unregister msgId
    Registry.unregister (replyId msgId)

/-! ## Runs of calls -/

/-- The calls that change which message ids have a pair. -/
inductive PairCall (C : Type)
  | register (msgId : ℤ) (req rep : C)
  | unregister (msgId : ℤ)
  deriving DecidableEq, Repr

/-- The id that a call names. -/
def PairCall.msgId : PairCall C → ℤ
  | register msgId _ _ => msgId
  | unregister msgId => msgId

/-- What a call does to the registry. -/
def PairCall.perform : PairCall C → Effect (Dict ℤ C) RegistryError Unit
  | register msgId req rep => registerPair msgId req rep
  | unregister msgId => unregisterPair msgId

/-- What a call that returns does to the table of pairs. -/
def PairCall.record : PairCall C → Dict ℤ (C × C) → Dict ℤ (C × C)
  | register msgId req rep, table => table.insert msgId (req, rep)
  | unregister msgId, table => table.erase msgId

/-- The ids of the pairs ever registered, after a call that returns. -/
def PairCall.enroll : PairCall C → List ℤ → List ℤ
  | register msgId _ _, ids => msgId :: ids
  | unregister _, ids => ids

/-- The registry on a run, with the pairs registered and not unregistered since, the
admitted ids of the calls so far, and the ids of the pairs ever registered. -/
structure PairRun (C : Type) where
  data : Dict ℤ C
  table : Dict ℤ (C × C)
  named : List ℤ
  registered : List ℤ

/-- A registry in which only the error reply is registered. -/
def PairRun.start (replyError : C) : PairRun C := ⟨fresh replyError, ∅, [], []⟩

/-- A call, and what is to be remembered of it. -/
def PairRun.step (s : PairRun C) (call : PairCall C) : PairRun C :=
  match call.perform s.data with
  | (.ok (), data) =>
      { data
        table := call.record s.table
        named := call.msgId :: s.named
        registered := call.enroll s.registered }
  | (.error _, data) =>
      { s with data, named := if Admitted call.msgId then call.msgId :: s.named else s.named }

/-- The range check of the server's lookup lets the id pass. -/
def Accepted (p : Platform) (msgId : ℤ) : Prop :=
  ∃ id : UInt32, (id.toNat : ℤ) = msgId ∧ routineLookup p id ≠ .error .outOfBounds

/-- What is expected of one call. -/
structure StepLaw (p : Platform) (s : PairRun C) (call : PairCall C) : Prop where
  paired : ∀ msgId ∈ (s.step call).named,
    msgId ∈ (s.step call).data ↔ replyId msgId ∈ (s.step call).data
  apart : ∀ msgId ∈ (s.step call).registered, ∀ other ∈ (s.step call).registered,
    msgId ≠ replyId other
  intact : ∀ msgId, call = .unregister msgId → ∀ other ∈ s.table, other ≠ msgId →
    (s.step call).data.lookup other = s.data.lookup other ∧
      (s.step call).data.lookup (replyId other) = s.data.lookup (replyId other)
  unchanged : ∀ msgId req rep e, call = .register msgId req rep →
    (call.perform s.data).1 = .error e → (call.perform s.data).2 = s.data
  accepted : Admitted call.msgId → Accepted p call.msgId

/-- What is expected of a run. -/
def Lawful (p : Platform) (s : PairRun C) : List (PairCall C) → Prop
  | [] => True
  | call :: rest => StepLaw p s call ∧ Lawful p (s.step call) rest

/-! ## The table of pairs that the registry stands for -/

/-- The ids of requests that the server's lookup lets pass. -/
def InRange (msgId : ℤ) : Prop := 0 < msgId ∧ msgId < rpcMaxReqMsgId.toNat

instance (msgId : ℤ) : Decidable (InRange msgId) := inferInstanceAs (Decidable (_ ∧ _))

variable {msgId other : ℤ} {req rep replyError : C} {data : Dict ℤ C} {s : PairRun C}
  {call : PairCall C} {p : Platform}

@[simp] theorem replyId_eq : replyId msgId = msgId + 256 := rfl

theorem inRange_iff : InRange msgId ↔ 0 < msgId ∧ msgId < 256 := Iff.rfl

theorem admitted_iff : Admitted msgId ↔ msgId ≤ 256 := Iff.rfl

theorem accepted_iff : Accepted p msgId ↔ InRange msgId := by
  constructor
  · rintro ⟨id, rfl, hlookup⟩
    by_contra hrange
    apply hlookup
    rw [routineLookup, if_pos]
    rw [UInt32.le_iff_toNat_le, UInt32.le_iff_toNat_le]
    rw [inRange_iff] at hrange
    have hzero : (0 : UInt32).toNat = 0 := rfl
    have hmax : rpcMaxReqMsgId.toNat = 256 := rfl
    omega
  · rintro ⟨hpos, hlt⟩
    obtain ⟨n, rfl⟩ := Int.eq_ofNat_of_zero_le hpos.le
    have hmax : rpcMaxReqMsgId.toNat = 256 := rfl
    have hn : (UInt32.ofNat n).toNat = n := UInt32.toNat_ofNat_of_lt' (by rw [UInt32.size]; omega)
    refine ⟨UInt32.ofNat n, by rw [hn], ?_⟩
    have hzero : (0 : UInt32).toNat = 0 := rfl
    rw [routineLookup, if_neg (by rw [UInt32.le_iff_toNat_le, UInt32.le_iff_toNat_le]; omega)]
    cases (MsgId.ofUInt32? (UInt32.ofNat n)).bind (rpcRoutines p) with
    | none => simp
    | some entry => simp

/-! ## The calls, each in one equation -/

/-- A call with an id beyond the bound raises, and nothing is changed. -/
theorem perform_of_not_admitted (call : PairCall C) (h : ¬ Admitted call.msgId) :
    call.perform data = (.error (.valueError call.msgId), data) := by
  cases call with
  | register msgId req rep => exact congrFun (if_pos h) data
  | unregister msgId => exact congrFun (if_pos h) data

/-- Within the bound a pair is registered one after the other. -/
theorem registerPair_of_admitted (h : Admitted msgId) :
    registerPair msgId req rep data =
      (Registry.register msgId req false >>= fun _ => Registry.register (replyId msgId) rep false)
        data :=
  congrFun (if_neg (not_not.mpr h)) data

/-- A request that is taken stops it before anything is stored. -/
theorem registerPair_of_mem (h : Admitted msgId) (hmem : msgId ∈ data) :
    registerPair msgId req rep data = (.error (.keyError msgId), data) := by
  rw [registerPair_of_admitted h, bind_of_error (Registry.register_of_mem hmem)]

/-- When both ids are free, both are stored. -/
theorem registerPair_of_not_mem (h : Admitted msgId) (hmem : msgId ∉ data)
    (hreply : replyId msgId ∉ data) :
    registerPair msgId req rep data =
      (.ok (), (data.insert msgId req).insert (replyId msgId) rep) := by
  rw [registerPair_of_admitted h, bind_of_ok (Registry.register_of_not_mem hmem)]
  apply Registry.register_of_not_mem
  rw [AList.mem_insert, replyId_eq]
  exact not_or.mpr ⟨by omega, hreply⟩

/-- The second step of a registration raises after the first one has been done. -/
theorem registerPair_of_reply_mem (h : Admitted msgId) (hmem : msgId ∉ data)
    (hreply : replyId msgId ∈ data) :
    registerPair msgId req rep data =
      (.error (.keyError (replyId msgId)), data.insert msgId req) := by
  rw [registerPair_of_admitted h, bind_of_ok (Registry.register_of_not_mem hmem)]
  exact Registry.register_of_mem ((AList.mem_insert _).mpr (.inr hreply))

/-- Within the bound both ids are removed. -/
theorem unregisterPair_of_admitted (h : Admitted msgId) :
    unregisterPair msgId data = (.ok (), (data.erase msgId).erase (replyId msgId)) :=
  congrFun (if_neg (not_not.mpr h)) data

/-- A pair under zero or less has its reply among the admitted ids, and to unregister a
pair there takes it away. -/
theorem unregisterPair_replyId (h : msgId ≤ 0) :
    ((unregisterPair (replyId msgId) data).2).lookup (replyId msgId) = none := by
  have hadmitted : Admitted (replyId msgId) := by
    rw [admitted_iff, replyId_eq]
    omega
  have hne : replyId msgId ≠ replyId (replyId msgId) := by
    rw [replyId_eq, replyId_eq]
    omega
  rw [unregisterPair_of_admitted hadmitted, AList.lookup_erase_ne hne, AList.lookup_erase]

/-- A call that returns is recorded in the table. -/
theorem step_of_ok (h : call.perform s.data = (.ok (), data)) :
    s.step call =
      { data
        table := call.record s.table
        named := call.msgId :: s.named
        registered := call.enroll s.registered } := by
  rw [PairRun.step, h]

theorem step_of_error {e : RegistryError} (h : call.perform s.data = (.error e, data)) :
    s.step call =
      { s with data, named := if Admitted call.msgId then call.msgId :: s.named else s.named } := by
  rw [PairRun.step, h]

/-! ## With ids in range, the registry stands for a table -/

/-- The registry is the table of pairs, whose ids and the ids of the calls are in range. -/
structure Stands (replyError : C) (s : PairRun C) : Prop where
  request : ∀ msgId, InRange msgId → s.data.lookup msgId = (s.table.lookup msgId).map Prod.fst
  reply : ∀ msgId, InRange msgId →
    s.data.lookup (replyId msgId) = (s.table.lookup msgId).map Prod.snd
  error : s.data.lookup (repError.toNat : ℤ) = some replyError
  table : ∀ msgId ∈ s.table, InRange msgId
  named : ∀ msgId ∈ s.named, InRange msgId
  registered : ∀ msgId ∈ s.registered, InRange msgId

/-- The invariant holds in the fresh registry. -/
theorem stands_start : Stands replyError (PairRun.start replyError) where
  request msgId hrange := by
    have hne : msgId ≠ (repError.toNat : ℤ) := by
      have herror : repError.toNat = 4096 := rfl
      rw [inRange_iff] at hrange
      omega
    exact AList.lookup_insert_ne hne
  reply msgId hrange := by
    have hne : replyId msgId ≠ (repError.toNat : ℤ) := by
      have herror : repError.toNat = 4096 := rfl
      rw [inRange_iff] at hrange
      rw [replyId_eq]
      omega
    exact AList.lookup_insert_ne hne
  error := AList.lookup_insert _
  table _ h := absurd h (AList.notMem_empty _)
  named _ h := absurd h List.not_mem_nil
  registered _ h := absurd h List.not_mem_nil

namespace Stands

/-- A request is registered just if its pair is in the table. -/
theorem mem_iff (h : Stands replyError s) (hrange : InRange msgId) :
    msgId ∈ s.data ↔ msgId ∈ s.table := by
  rw [← AList.lookup_isSome, ← AList.lookup_isSome, h.request msgId hrange, Option.isSome_map]

theorem reply_mem_iff (h : Stands replyError s) (hrange : InRange msgId) :
    replyId msgId ∈ s.data ↔ msgId ∈ s.table := by
  rw [← AList.lookup_isSome, ← AList.lookup_isSome, h.reply msgId hrange, Option.isSome_map]

/-- The keys of other pairs are untouched by what is done to the keys of one. -/
theorem ne_replyId (hrange : InRange msgId) (hother : InRange other) : msgId ≠ replyId other := by
  rw [inRange_iff] at hrange hother
  rw [replyId_eq]
  omega

/-- No pair in range takes the id of the error reply. -/
theorem ne_repError (hrange : InRange msgId) :
    (repError.toNat : ℤ) ≠ msgId ∧ (repError.toNat : ℤ) ≠ replyId msgId := by
  have herror : repError.toNat = 4096 := rfl
  rw [inRange_iff] at hrange
  rw [replyId_eq]
  omega

/-- A pair that is registered is in the table from then on. -/
theorem insert (h : Stands replyError s) (hrange : InRange msgId) (req rep : C) :
    Stands replyError
      { data := (s.data.insert msgId req).insert (replyId msgId) rep
        table := s.table.insert msgId (req, rep)
        named := msgId :: s.named
        registered := msgId :: s.registered } where
  request other hother := by
    rw [AList.lookup_insert_ne (ne_replyId hother hrange)]
    by_cases heq : other = msgId
    · rw [heq, AList.lookup_insert, AList.lookup_insert]
      rfl
    · rw [AList.lookup_insert_ne heq, AList.lookup_insert_ne heq, h.request other hother]
  reply other hother := by
    by_cases heq : other = msgId
    · rw [heq, AList.lookup_insert, AList.lookup_insert]
      rfl
    · have hne : replyId other ≠ replyId msgId := by
        rw [replyId_eq, replyId_eq]
        omega
      rw [AList.lookup_insert_ne hne, AList.lookup_insert_ne (ne_replyId hrange hother).symm,
        AList.lookup_insert_ne heq, h.reply other hother]
  error := by
    obtain ⟨hrequest, hreply⟩ := ne_repError hrange
    rw [AList.lookup_insert_ne hreply, AList.lookup_insert_ne hrequest, h.error]
  table other hmem := by
    rcases (AList.mem_insert _).mp hmem with rfl | hmem
    · exact hrange
    · exact h.table other hmem
  named := List.forall_mem_cons.mpr ⟨hrange, h.named⟩
  registered := List.forall_mem_cons.mpr ⟨hrange, h.registered⟩

/-- A pair that is unregistered is not. -/
theorem erase (h : Stands replyError s) (hrange : InRange msgId) :
    Stands replyError
      { data := (s.data.erase msgId).erase (replyId msgId)
        table := s.table.erase msgId
        named := msgId :: s.named
        registered := s.registered } where
  request other hother := by
    rw [AList.lookup_erase_ne (ne_replyId hother hrange)]
    by_cases heq : other = msgId
    · rw [heq, AList.lookup_erase, AList.lookup_erase]
      rfl
    · rw [AList.lookup_erase_ne heq, AList.lookup_erase_ne heq, h.request other hother]
  reply other hother := by
    by_cases heq : other = msgId
    · rw [heq, AList.lookup_erase, AList.lookup_erase]
      rfl
    · have hne : replyId other ≠ replyId msgId := by
        rw [replyId_eq, replyId_eq]
        omega
      rw [AList.lookup_erase_ne hne, AList.lookup_erase_ne (ne_replyId hrange hother).symm,
        AList.lookup_erase_ne heq, h.reply other hother]
  error := by
    obtain ⟨hrequest, hreply⟩ := ne_repError hrange
    rw [AList.lookup_erase_ne hreply, AList.lookup_erase_ne hrequest, h.error]
  table other hmem := h.table other (AList.mem_erase.mp hmem).2
  named := List.forall_mem_cons.mpr ⟨hrange, h.named⟩
  registered := h.registered

/-- What a call can do: raise and change nothing, register a pair or unregister one. -/
theorem perform_cases (h : Stands replyError s) (call : PairCall C)
    (hcall : Admitted call.msgId → InRange call.msgId) :
    (∃ e, call.perform s.data = (.error e, s.data)) ∨
    (∃ msgId req rep, call = .register msgId req rep ∧ InRange msgId ∧
      call.perform s.data = (.ok (), (s.data.insert msgId req).insert (replyId msgId) rep)) ∨
    (∃ msgId, call = .unregister msgId ∧ InRange msgId ∧
      call.perform s.data = (.ok (), (s.data.erase msgId).erase (replyId msgId))) := by
  by_cases hadmitted : Admitted call.msgId
  · have hrange : InRange call.msgId := hcall hadmitted
    cases call with
    | register msgId req rep =>
      by_cases hmem : msgId ∈ s.data
      · exact .inl ⟨_, registerPair_of_mem hadmitted hmem⟩
      · -- the reply's id is free as well
        have hreply : replyId msgId ∉ s.data :=
          fun hmem' => hmem ((h.mem_iff hrange).mpr ((h.reply_mem_iff hrange).mp hmem'))
        exact .inr (.inl ⟨msgId, req, rep, rfl, hrange,
          registerPair_of_not_mem hadmitted hmem hreply⟩)
    | unregister msgId =>
      exact .inr (.inr ⟨msgId, rfl, hrange, unregisterPair_of_admitted hadmitted⟩)
  · exact .inl ⟨_, perform_of_not_admitted call hadmitted⟩

/-- Every call keeps the correspondence, if an id that is admitted is in range. -/
theorem step (h : Stands replyError s) (call : PairCall C)
    (hcall : Admitted call.msgId → InRange call.msgId) :
    Stands replyError (s.step call) := by
  rcases h.perform_cases call hcall with
    ⟨e, hrun⟩ | ⟨msgId, req, rep, rfl, hrange, hrun⟩ | ⟨msgId, rfl, hrange, hrun⟩
  · rw [step_of_error hrun]
    refine { h with named := ?_ }
    split
    next hadmitted => exact List.forall_mem_cons.mpr ⟨hcall hadmitted, h.named⟩
    next => exact h.named
  · rw [step_of_ok hrun]
    exact h.insert hrange req rep
  · rw [step_of_ok hrun]
    exact h.erase hrange

/-- A call that raises leaves the registry as it was. -/
theorem unchanged (h : Stands replyError s) (hcall : Admitted call.msgId → InRange call.msgId)
    {e : RegistryError} (hraise : (call.perform s.data).1 = .error e) :
    (call.perform s.data).2 = s.data := by
  rcases h.perform_cases call hcall with
    ⟨e', hrun⟩ | ⟨msgId, req, rep, rfl, -, hrun⟩ | ⟨msgId, rfl, -, hrun⟩
  · rw [hrun]
  · rw [hrun] at hraise
    cases hraise
  · rw [hrun] at hraise
    cases hraise

/-- Unregistering one pair leaves the others. -/
theorem intact (h : Stands replyError s) (hcall : Admitted msgId → InRange msgId)
    (hother : other ∈ s.table) (hne : other ≠ msgId) :
    (s.step (.unregister msgId)).data.lookup other = s.data.lookup other ∧
      (s.step (.unregister msgId)).data.lookup (replyId other) = s.data.lookup (replyId other) := by
  have hrange : InRange other := h.table other hother
  have ht : Stands replyError (s.step (.unregister msgId)) := h.step (.unregister msgId) hcall
  -- the table keeps the other pair, and the registry stands for the table
  have htable : (s.step (.unregister msgId)).table.lookup other = s.table.lookup other := by
    rcases h.perform_cases (.unregister msgId) hcall with
      ⟨e, hrun⟩ | ⟨_, _, _, hregister, -⟩ | ⟨_, hunregister, -, hrun⟩
    · rw [step_of_error hrun]
    · cases hregister
    · rw [step_of_ok hrun]
      exact AList.lookup_erase_ne hne
  rw [ht.request other hrange, ht.reply other hrange, h.request other hrange,
    h.reply other hrange, htable]
  exact ⟨rfl, rfl⟩

/-- Under the invariant every call with an id in range does what it should. -/
theorem stepLaw (h : Stands replyError s) (hcall : Admitted call.msgId → InRange call.msgId) :
    StepLaw p s call where
  paired msgId hnamed := by
    have ht := h.step call hcall
    rw [ht.mem_iff (ht.named msgId hnamed), ht.reply_mem_iff (ht.named msgId hnamed)]
  apart msgId hmem other hother :=
    ne_replyId ((h.step call hcall).registered msgId hmem)
      ((h.step call hcall).registered other hother)
  intact := by
    rintro msgId rfl other hother hne
    exact h.intact hcall hother hne
  unchanged _ _ _ _ _ hraise := h.unchanged hcall hraise
  accepted hadmitted := accepted_iff.mpr (hcall hadmitted)

end Stands

/-- A run lives up to what is expected just if all admitted ids are in the range of the
server's lookup. -/
theorem lawful_iff_inRange (h : Stands replyError s) (calls : List (PairCall C)) :
    Lawful p s calls ↔ ∀ call ∈ calls, Admitted call.msgId → InRange call.msgId := by
  induction calls generalizing s with
  | nil => exact ⟨fun _ _ hcall => absurd hcall List.not_mem_nil, fun _ => trivial⟩
  | cons call rest ih =>
    rw [Lawful, List.forall_mem_cons]
    constructor
    · rintro ⟨hlaw, hrest⟩
      have hcall : Admitted call.msgId → InRange call.msgId :=
        fun hadmitted => accepted_iff.mp (hlaw.accepted hadmitted)
      exact ⟨hcall, (ih (h.step call hcall)).mp hrest⟩
    · rintro ⟨hcall, hrest⟩
      exact ⟨h.stepLaw hcall, (ih (h.step call hcall)).mpr hrest⟩

/-- **Pairs.** Calls on a fresh registry do what they should just if no admitted id is out
of range. -/
theorem lawful_start_iff (p : Platform) (replyError : C) (calls : List (PairCall C)) :
    Lawful p (PairRun.start replyError) calls ↔
      ∀ call ∈ calls, Admitted call.msgId → InRange call.msgId :=
  lawful_iff_inRange stands_start calls

/-- A pair is registered under the bound itself, and then one under zero: the second call
raises and leaves its request behind. -/
theorem not_lawful_max_zero :
    ¬ Lawful .linux (PairRun.start 0) [.register 0x100 1 2, .register 0 3 4] ∧
      (PairCall.perform (.register 0 3 4) ((PairRun.start 0).step (.register 0x100 1 2)).data).1 =
        .error (.keyError 0x100) ∧
      ((PairCall.perform (.register 0 3 4)
        ((PairRun.start 0).step (.register 0x100 1 2)).data).2).lookup 0 = some 3 := by
  refine ⟨?_, rfl, rfl⟩
  rintro ⟨-, hlaw, -⟩
  have hsame := hlaw.unchanged 0 3 4 (.keyError 0x100) rfl rfl
  have hlookup := congrArg (AList.lookup 0) hsame
  exact absurd hlookup (by decide)

end Pairs

/-! ## The registry that loads the protocol's module -/

open Pairs

namespace RpcMessageRegistry

/-- The two registries know the same classes under the ids that are natural numbers. -/
def Agrees (r : RpcMessageRegistry) (data : Dict ℤ MessageClass) : Prop :=
  ∀ key : ℕ, data.lookup (key : ℤ) = r.messages key

variable {r r' : RpcMessageRegistry} {data : Dict ℤ MessageClass} {key msgId : ℕ}
  {cls req rep : MessageClass}

/-- The registry that the library fills agrees with the fresh one. -/
theorem agrees_new : new.Agrees (fresh .replyError) := by
  intro key
  rw [new, fresh]
  dsimp only
  split
  next h => rw [h, AList.lookup_insert]
  next h =>
    rw [AList.lookup_insert_ne (fun heq => h (Int.ofNat_inj.mp heq))]
    rfl

namespace Agrees

/-- Registries that agree have the same ids. -/
theorem mem_iff (h : r.Agrees data) : (key : ℤ) ∈ data ↔ (r.messages key).isSome = true := by
  rw [← AList.lookup_isSome, h key]

/-- They agree after one class is added to both. -/
theorem insert (h : r.Agrees data) (key : ℕ) (cls : MessageClass) :
    Agrees ⟨fun k => if k = key then some cls else r.messages k⟩ (data.insert (key : ℤ) cls) := by
  intro k
  dsimp only
  split
  next heq => rw [heq, AList.lookup_insert]
  next hne => rw [AList.lookup_insert_ne (fun heq => hne (Int.ofNat_inj.mp heq)), h k]

/-- A class that one registry takes is taken by the other. -/
theorem register_some (h : r.Agrees data) (hr : r.register key cls false = some r') :
    ∃ data', Registry.register (key : ℤ) cls false data = (.ok (), data') ∧ r'.Agrees data' := by
  rw [register] at hr
  split at hr
  next => cases hr
  next hfree =>
    cases hr
    refine ⟨_, Registry.register_of_not_mem fun hmem => hfree ?_, h.insert key cls⟩
    rw [h.mem_iff.mp hmem]
    rfl

/-- A class that one refuses is refused by the other. -/
theorem register_none (h : r.Agrees data) (hr : r.register key cls false = none) :
    Registry.register (key : ℤ) cls false data = (.error (.keyError key), data) := by
  rw [register] at hr
  split at hr
  next htaken =>
    refine Registry.register_of_mem (h.mem_iff.mpr ?_)
    simpa using htaken
  next => cases hr

/-- To register a pair has the same outcome in both. -/
theorem registerPair (h : r.Agrees data) (msgId : ℕ) (req rep : MessageClass) :
    match r.registerPair msgId req rep with
    | some r' => ∃ data', Pairs.registerPair msgId req rep data = (.ok (), data') ∧ r'.Agrees data'
    | none => ∃ e data', Pairs.registerPair msgId req rep data = (.error e, data') := by
  rw [RpcMessageRegistry.registerPair]
  by_cases hadmitted : Admitted msgId
  · rw [if_neg (Nat.not_lt.mpr (Int.ofNat_le.mp hadmitted)), registerPair_of_admitted hadmitted]
    cases hfirst : r.register msgId req false with
    | none => exact ⟨_, _, bind_of_error (h.register_none hfirst)⟩
    | some r₁ =>
      obtain ⟨data₁, hrun, h₁⟩ := h.register_some hfirst
      rw [bind_of_ok hrun]
      cases hsecond : r₁.register (msgId + rpcMaxReqMsgId.toNat) rep false with
      | none =>
        simp only [Option.bind_eq_bind, Option.bind_some, hsecond]
        exact ⟨_, _, h₁.register_none hsecond⟩
      | some r₂ =>
        simp only [Option.bind_eq_bind, Option.bind_some, hsecond]
        exact h₁.register_some hsecond
  · rw [if_pos (Nat.lt_of_not_le fun hle => hadmitted (Int.ofNat_le.mpr hle))]
    exact ⟨_, _, perform_of_not_admitted (.register msgId req rep) hadmitted⟩

end Agrees

end RpcMessageRegistry

end RpcProject.Protocol
