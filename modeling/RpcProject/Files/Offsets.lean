/-
# Offsets

`seek` and `tell` return the offset that the remote `lseek` returns. An offset has 64 bits,
and `seek` casts what it gets to 32, so that an offset from 2 ^ 31 on comes back as another
number, or as a negative one that is taken for a failure.
-/

import RpcProject.Files.OpenFile

namespace RpcProject.Files.OpenFile

open Foundations Foundations.Effect Client

/-- `SEEK_SET` -/
def seekSet : ℤ := 0

/-- `SEEK_CUR` -/
def seekCur : ℤ := 1

/-- `SEEK_END` -/
def seekEnd : ℤ := 2

variable (host : Host) (fd : ℤ)
  -- where an offset leads from a place that is none of the three above, in a file with these bytes
  (others : ℤ → ℤ → List Byte → Option ℤ)

/-- Where a seek leads. -/
def target (file : Description) (offset whence : ℤ) : Option ℤ :=
  if whence = seekSet then some offset
  else if whence = seekCur then some (file.offset + offset)
  else if whence = seekEnd then some (file.contents.length + offset)
  else others whence offset file.contents

/-- The remote `lseek`, which takes an `off_t` and an `int`. -/
def symbolsLseek (offset whence : ℤ) : Call Description Symbol := fun s =>
  let file := { s.kernel with calls := s.kernel.calls + 1 }
  match host.outcome s.kernel.calls with
  | .fails errno => (.ok (.new (-1)), { s with errno, kernel := file })
  | .moves _ =>
      match target others s.kernel (Symbol.new offset).cInt64 (Symbol.new whence).cInt32 with
      | none => (.ok (.new (-1)), { s with errno := einval, kernel := file })
      | some place =>
          if 0 ≤ place ∧ place < 2 ^ 63 then
            (.ok (.new place), { s with kernel := { file with offset := place.toNat } })
          else (.ok (.new (-1)), { s with errno := einval, kernel := file })

/-- Seek the remote file descriptor and return the resulting offset. -/
def seek (offset whence : ℤ) : Call Description ℤ := do
  let result ← symbolsLseek host others offset whence
  if result.cInt32 < 0 then
    raiseErrnoException s!"failed to lseek fd: {fd}"
  else
    return result.cInt32

/-- `tell` -/
def tell : Call Description ℤ := seek host fd others 0 seekCur

/-! ## One seek -/

/-- The remote call fails. -/
def LseekFails (s : Remote Description) (offset whence : ℤ) : Prop :=
  (symbolsLseek host others offset whence s).1 = .ok (.new (-1))

/-- The remote call fails, or leads to an offset of at most 31 bits. -/
def Short (s : Remote Description) (offset whence : ℤ) : Prop :=
  LseekFails host others s offset whence ∨
    ∃ place, target others s.kernel (Symbol.new offset).cInt64 (Symbol.new whence).cInt32 =
      some place ∧ place < 2 ^ 31

variable {host fd others} {s t : Remote Description} {offset whence : ℤ}
  {result : Except RpcError ℤ}

/-- The remote call fails or moves the offset where it leads. -/
theorem symbolsLseek_cases (host : Host) (others : ℤ → ℤ → List Byte → Option ℤ)
    (s : Remote Description) (offset whence : ℤ) :
    (∃ t, symbolsLseek host others offset whence s = (.ok (.new (-1)), t)) ∨
    ∃ place t, target others s.kernel (Symbol.new offset).cInt64 (Symbol.new whence).cInt32 =
        some place ∧ 0 ≤ place ∧ place < 2 ^ 63 ∧ (t.kernel.offset : ℤ) = place ∧
      symbolsLseek host others offset whence s = (.ok (.new place), t) := by
  rw [symbolsLseek]
  cases host.outcome s.kernel.calls with
  | fails errno => exact .inl ⟨_, rfl⟩
  | moves most =>
    dsimp only
    cases htarget : target others s.kernel (Symbol.new offset).cInt64
      (Symbol.new whence).cInt32 with
    | none => exact .inl ⟨_, rfl⟩
    | some place =>
      by_cases hrange : 0 ≤ place ∧ place < 2 ^ 63
      · refine .inr ⟨place, _, rfl, hrange.1, hrange.2, ?_, if_pos hrange⟩
        exact Int.toNat_of_nonneg hrange.1
      · exact .inl ⟨_, if_neg hrange⟩

/-- What a seek returns is the offset, and what it raises comes of a failure. -/
def Answers (failed : Prop) (offset : ℤ) : Except RpcError ℤ → Prop
  | .ok place => place = offset
  | .error _ => failed

/-- What `seek` makes of the result of `lseek`. -/
theorem seek_of_lseek (fd : ℤ) {place : Symbol} {u : Remote Description}
    (hcall : symbolsLseek host others offset whence s = (.ok place, u)) :
    (place.cInt32 < 0 ∧ ∃ e, seek host fd others offset whence s = (.error e, u)) ∨
    0 ≤ place.cInt32 ∧ seek host fd others offset whence s = (.ok place.cInt32, u) := by
  rw [seek, bind_of_ok hcall]
  by_cases hneg : place.cInt32 < 0
  · rw [if_pos hneg]
    exact .inl ⟨hneg, _, rfl⟩
  · rw [if_neg hneg]
    exact .inr ⟨Int.not_lt.mp hneg, rfl⟩

/-- An offset of more than 31 bits comes back as another one, or as a failure. -/
theorem answers_seek_iff (h : seek host fd others offset whence s = (result, t)) :
    Answers (LseekFails host others s offset whence) t.kernel.offset result ↔
      Short host others s offset whence := by
  rcases symbolsLseek_cases host others s offset whence with
    ⟨u, hcall⟩ | ⟨place, u, htarget, hnonneg, hlt, hoffset, hcall⟩
  · have hfails : LseekFails host others s offset whence := congrArg Prod.fst hcall
    refine iff_of_true ?_ (.inl hfails)
    rcases seek_of_lseek fd hcall with ⟨-, e, hseek⟩ | ⟨hnonneg, -⟩
    · obtain ⟨rfl, -⟩ := Prod.mk.inj (h.symm.trans hseek)
      exact hfails
    · exact absurd hnonneg (by decide)
  · have hnot : ¬ LseekFails host others s offset whence := by
      intro hfails
      have hbits := congrArg Symbol.cInt64
        (Except.ok.inj ((congrArg Prod.fst hcall).symm.trans hfails))
      rw [Symbol.cInt64_new (by omega) hlt, Symbol.cInt64_new (by decide) (by decide)] at hbits
      omega
    have hshort : Short host others s offset whence ↔ (Symbol.new place).cInt32 = place := by
      rw [Symbol.cInt32_new_eq_iff]
      constructor
      · rintro (hfails | ⟨place', htarget', hlt'⟩)
        · exact absurd hfails hnot
        · obtain rfl := Option.some.inj (htarget.symm.trans htarget')
          omega
      · rintro ⟨-, hlt'⟩
        exact .inr ⟨place, htarget, hlt'⟩
    rw [hshort]
    rcases seek_of_lseek fd hcall with ⟨hneg, e, hseek⟩ | ⟨-, hseek⟩
    · obtain ⟨rfl, -⟩ := Prod.mk.inj (h.symm.trans hseek)
      exact iff_of_false hnot (by omega)
    · obtain ⟨rfl, rfl⟩ := Prod.mk.inj (h.symm.trans hseek)
      rw [Answers, hoffset]

/-! ## Runs -/

/-- What a program does with a file. -/
inductive FileOp
  | seek (offset whence : ℤ)
  | tell
  | read (size : ℤ) (chunkSize : ℕ) (chunk : Option Symbol)
  | write (buf : List Byte)

/-- The arguments of the `lseek` that an operation makes. -/
def FileOp.sought : FileOp → Option (ℤ × ℤ)
  | .seek offset whence => some (offset, whence)
  | .tell => some (0, seekCur)
  | .read .. => none
  | .write _ => none

/-- An operation in a run, with what a `seek` or a `tell` returns or raises. -/
structure Event where
  before : Remote Description
  op : FileOp
  answer : Option (Except RpcError ℤ)
  after : Remote Description

variable (host fd others)

/-- The operation is performed, whether it returns or raises. -/
inductive Performs : Event → Prop
  | seek {s t : Remote Description} {offset whence : ℤ} {result : Except RpcError ℤ}
      (h : seek host fd others offset whence s = (result, t)) :
      Performs ⟨s, .seek offset whence, some result, t⟩
  | tell {s t : Remote Description} {result : Except RpcError ℤ}
      (h : tell host fd others s = (result, t)) : Performs ⟨s, .tell, some result, t⟩
  | read {s t : Remote Description} {size : ℤ} {chunkSize : ℕ} {chunk : Option Symbol}
      {result : Except RpcError (List Byte)}
      (h : Settles (fun fuel => read host fd fuel size chunkSize chunk) s (result, t)) :
      Performs ⟨s, .read size chunkSize chunk, none, t⟩
  | write {s t : Remote Description} {buf : List Byte} {result : Except RpcError ℕ}
      (h : Settles (fun fuel => write host fd fuel buf) s (result, t)) :
      Performs ⟨s, .write buf, none, t⟩

/-- Each operation is performed where the one before it has ended. -/
inductive Run : Remote Description → List Event → Prop
  | nil (s : Remote Description) : Run s []
  | cons {event : Event} {rest : List Event} (hevent : Performs host fd others event)
      (hrest : Run event.after rest) : Run event.before (event :: rest)

/-- A `seek` or a `tell` returns the offset of the descriptor, or raises what has failed. -/
def Event.Exact (event : Event) : Prop :=
  ∀ offset whence result, event.op.sought = some (offset, whence) → event.answer = some result →
    Answers (LseekFails host others event.before offset whence) event.after.kernel.offset result

/-- A `seek` or a `tell` fails or leads to an offset of at most 31 bits. -/
def Event.Short (event : Event) : Prop :=
  ∀ offset whence, event.op.sought = some (offset, whence) →
    OpenFile.Short host others event.before offset whence

variable {host fd others} {event : Event} {events : List Event}

/-- A call does what it should just if its offset is short. -/
theorem Performs.exact_iff (h : Performs host fd others event) :
    event.Exact host others ↔ event.Short host others := by
  cases h with
  | seek h =>
    have hiff := answers_seek_iff h
    constructor
    · rintro hexact offset whence ⟨⟩
      exact hiff.mp (hexact _ _ _ rfl rfl)
    · rintro hshort offset whence result ⟨⟩ ⟨⟩
      exact hiff.mpr (hshort _ _ rfl)
  | tell h =>
    have hiff := answers_seek_iff h
    constructor
    · rintro hexact offset whence ⟨⟩
      exact hiff.mp (hexact _ _ _ rfl rfl)
    · rintro hshort offset whence result ⟨⟩ ⟨⟩
      exact hiff.mpr (hshort _ _ rfl)
  | read _ | write _ =>
    exact iff_of_true (fun _ _ _ hnone => nomatch hnone) fun _ _ hnone => nomatch hnone

/-- All along a run, what is returned and raised is exact just if each `seek` and `tell` fails or
leads to an offset of at most 31 bits. -/
theorem run_exact_iff (h : Run host fd others s events) :
    (∀ event ∈ events, event.Exact host others) ↔ ∀ event ∈ events, event.Short host others := by
  induction h with
  | nil s =>
    exact iff_of_true (fun _ h => absurd h List.not_mem_nil) fun _ h => absurd h List.not_mem_nil
  | cons hevent hrest ih => rw [List.forall_mem_cons, List.forall_mem_cons, hevent.exact_iff, ih]

/-- Seeking forward and asking for the offset. -/
theorem run_exact_iff_ten :
    let host : Host := ⟨fun _ => .new 4096, fun _ => .moves 8⟩
    let start : Remote Description := ⟨fun _ => 0, 0, ⟨[], 0, [], 0⟩⟩
    let sought : Remote Description := ⟨fun _ => 0, 0, ⟨[], 10, [], 1⟩⟩
    let told : Remote Description := ⟨fun _ => 0, 0, ⟨[], 10, [], 2⟩⟩
    ∀ event ∈ [⟨start, .seek 10 0, some (.ok 10), sought⟩, ⟨sought, .tell, some (.ok 10), told⟩],
      Event.Exact host (fun _ _ _ => none) event := by
  intro host start sought told
  have hseek : seek host 4 (fun _ _ _ => none) 10 0 start = (.ok 10, sought) := rfl
  have htell : tell host 4 (fun _ _ _ => none) sought = (.ok 10, told) := by
    have htarget : target (fun _ _ _ => none) sought.kernel (Symbol.new 0).cInt64
        (Symbol.new seekCur).cInt32 = some 10 := by decide
    have hcall : symbolsLseek host (fun _ _ _ => none) 0 seekCur sought =
        (.ok (.new 10), told) := by
      rw [symbolsLseek, htarget]
      rfl
    rw [tell, seek, bind_of_ok hcall]
    rfl
  refine (run_exact_iff (.cons (.seek hseek) (.cons (.tell htell) (.nil told)))).mpr
    fun event hevent => ?_
  rcases List.mem_pair.mp hevent with rfl | rfl
  · rintro offset whence ⟨⟩
    exact .inr ⟨10, rfl, by decide⟩
  · rintro offset whence ⟨⟩
    exact .inr ⟨10, rfl, by decide⟩

/-- An offset of 33 bits comes back without its highest one, and one of 32 bits as a failure. -/
theorem not_run_exact_wide :
    let host : Host := ⟨fun _ => .new 4096, fun _ => .moves 8⟩
    let start : Remote Description := ⟨fun _ => 0, 0, ⟨[], 0, [], 0⟩⟩
    let far : Remote Description := ⟨fun _ => 0, 0, ⟨[], 2 ^ 32 + 5, [], 1⟩⟩
    let near : Remote Description := ⟨fun _ => 0, 0, ⟨[], 2 ^ 31, [], 2⟩⟩
    let first : Event := ⟨start, .seek (2 ^ 32 + 5) 0, some (.ok 5), far⟩
    let second : Event :=
      ⟨far, .seek (2 ^ 31) 0, some (.error (.errno 0 "failed to lseek fd: 4")), near⟩
    Run host 4 (fun _ _ _ => none) start [first, second] ∧
      ¬ first.Exact host (fun _ _ _ => none) ∧ ¬ second.Exact host (fun _ _ _ => none) := by
  intro host start far near first second
  have hfar : seek host 4 (fun _ _ _ => none) (2 ^ 32 + 5) 0 start = (.ok 5, far) := rfl
  have hnear : seek host 4 (fun _ _ _ => none) (2 ^ 31) 0 far =
      (.error (.errno 0 "failed to lseek fd: 4"), near) := rfl
  refine ⟨.cons (.seek hfar) (.cons (.seek hnear) (.nil near)), fun h => ?_, fun h => ?_⟩
  · have hfive : (5 : ℤ) = (2 ^ 32 + 5 : ℕ) := h _ _ _ rfl rfl
    exact absurd hfive (by decide)
  · have hfailed : LseekFails host (fun _ _ _ => none) far (2 ^ 31) 0 := h _ _ _ rfl rfl
    exact absurd (congrArg Symbol.cInt64 (Except.ok.inj hfailed)) (by decide)

end RpcProject.Files.OpenFile
