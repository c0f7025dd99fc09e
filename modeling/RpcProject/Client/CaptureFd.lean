/-
# Capturing a file descriptor

`CaptureFD` is entered by creating a pair of connected sockets, duplicating the captured
descriptor as a backup and making it refer to the first socket. On leaving, the backup is
put back and closed, and the sockets are closed.

A failing step raises where it is, and nothing undoes the steps before it. The results of
`dup2` are tested for a negative symbol, which there is not, so that a `dup2` that fails goes
unnoticed.
-/

import Mathlib.Logic.Function.Basic
import RpcProject.Client.Symbol
import RpcProject.Foundations.Effects

namespace RpcProject.Client.CaptureFd

open Foundations Foundations.Effect

/-! ## Descriptors and the calls on them -/

/-- The values of a C `int` that can be descriptors. -/
abbrev Descriptor := Fin 2147483648

/-- The descriptor that the argument of a call stands for, of which C keeps an `int`. -/
def descriptor? (arg : ℤ) : Option Descriptor :=
  let fd := (Symbol.new arg).cInt32
  if h : 0 ≤ fd ∧ fd < 2147483648 then some ⟨fd.toNat, by omega⟩ else none

theorem descriptor?_val (d : Descriptor) : descriptor? (d.val : ℤ) = some d := by
  have hval : (Symbol.new (d.val : ℤ)).cInt32 = (d.val : ℤ) := by
    rw [Symbol.cInt32_new_eq_iff]
    omega
  rw [descriptor?]
  simp only [hval]
  rw [dif_pos (by omega)]
  rfl

/-- What a descriptor refers to: a file from before, or one of the connected sockets. -/
inductive OpenFile (F : Type)
  | file (f : F)
  | socket (first : Bool)
  deriving DecidableEq, Repr

/-- The descriptors of the server and what they lead to. -/
abbrev Table (F : Type) := Descriptor → Option (OpenFile F)

/-- What `close` does: a call that fails may have released the descriptor. -/
inductive CloseAnswer
  | closed
  | failedReleased
  | failedKept
  deriving DecidableEq, Repr

/-- What `close` returns. -/
def CloseAnswer.result : CloseAnswer → Symbol
  | closed => .new 0
  | failedReleased | failedKept => .new (-1)

/-- The table after it. -/
def CloseAnswer.after {F : Type} (answer : CloseAnswer) (d : Descriptor) (table : Table F) :
    Table F :=
  match answer with
  | closed | failedReleased => Function.update table d none
  | failedKept => table

/-- How the remote host answers the calls of one `async with`. A call is refused with
`none`, and new descriptors were free before. -/
structure Answers (F : Type) where
  socketpair : (table : Table F) →
    Option {pair : Descriptor × Descriptor //
      table pair.1 = none ∧ table pair.2 = none ∧ pair.1 ≠ pair.2}
  sndbuf : Bool
  rcvbuf : Bool
  dup : (table : Table F) → Option {d : Descriptor // table d = none}
  dup2Sock : Bool
  dup2Backup : Bool
  closeBackup : CloseAnswer
  closeFirst : CloseAnswer
  closeSecond : CloseAnswer

/-- The descriptor table, the fields of the `CaptureFD`, and the tables with which the body
was entered. -/
structure State (F : Type) where
  table : Table F
  backupfd : Option ℤ
  socketPair : Option (ℤ × ℤ)
  entered : List (Table F)

variable {F : Type}

/-- A method of the client that calls functions of the server. -/
abbrev Remote (F : Type) := Effect (State F) String

/-- `socketpair` returns zero with the descriptors in its buffer, or minus one. -/
def socketpair (answers : Answers F) : Remote F (Symbol × ℤ × ℤ) := fun s =>
  match answers.socketpair s.table with
  | none => (.ok (.new (-1), 0, 0), s)
  | some pair =>
      (.ok (.new 0, pair.val.1, pair.val.2),
        { s with
          table := Function.update (Function.update s.table pair.val.1 (some (.socket true)))
            pair.val.2 (some (.socket false)) })

/-- `dup` -/
def dup (answers : Answers F) (fd : ℤ) : Remote F Symbol := fun s =>
  match (descriptor? fd).bind s.table, answers.dup s.table with
  | some file, some d =>
      (.ok (.new d.val), { s with table := Function.update s.table d (some file) })
  | _, _ => (.ok (.new (-1)), s)

/-- `dup2` -/
def dup2 (succeeds : Bool) (old new : ℤ) : Remote F Symbol := fun s =>
  match (descriptor? old).bind s.table, descriptor? new with
  | some file, some d =>
      if succeeds then (.ok (.new d.val), { s with table := Function.update s.table d (some file) })
      else (.ok (.new (-1)), s)
  | _, _ => (.ok (.new (-1)), s)

/-- `close` -/
def close (answer : CloseAnswer) (fd : ℤ) : Remote F Symbol := fun s =>
  match descriptor? fd with
  | none => (.ok (.new (-1)), s)
  | some d =>
      if s.table d = none then (.ok (.new (-1)), s)
      else (.ok answer.result, { s with table := answer.after d s.table })

/-! ## The context manager -/

/-- `setsockopt` -/
def setsockopt (succeeds : Bool) : Remote F Unit :=
  raiseIf (succeeds = false) "setsockopt() failed"

/-- `setbufsize`: the buffer for sending, then the one for receiving. -/
def setbufsize (answers : Answers F) : Remote F Unit := do
  setsockopt answers.sndbuf
  setsockopt answers.rcvbuf

/-- The sizes are set if one is given. -/
def setSockBufSize (answers : Answers F) : Option ℕ → Remote F Unit
  | some _ => setbufsize answers
  | none => pure ()

/-- The part of `_allocate` about the captured descriptor. -/
def redirect (answers : Answers F) (fd first : ℤ) : Remote F Unit := do
  let backup ← dup answers fd
  modify fun s => { s with backupfd := some backup.cInt32 }
  -- the one result that is cast, so this check does work
  if backup.cInt32 = -1 then
    modify fun s => { s with backupfd := none }
    raise "dup fd failed"
  else
    let result ← dup2 answers.dup2Sock first fd
    -- not cast: the symbol of -1 is a large positive number
    raiseIf (result.int < 0) "dup2 sock-fd failed"

/-- `_allocate`: a pair of sockets, one end of which takes the place of the descriptor. -/
def allocate (answers : Answers F) (fd : ℤ) (sockBufSize : Option ℕ) : Remote F Unit := do
  let result ← socketpair answers
  raiseIf (result.1.int ≠ 0) "socketpair failed"
  modify fun s => { s with socketPair := some result.2 }
  setSockBufSize answers sockBufSize
  redirect answers fd result.2.1

/-- The part of `_deallocate` about the backup. -/
def putBack (answers : Answers F) (fd backupfd : ℤ) : Remote F Unit := do
  let result ← dup2 answers.dup2Backup backupfd fd
  -- not cast either
  raiseIf (result.int < 0) "dup2 backup-fd failed"
  let result ← close answers.closeBackup backupfd
  raiseIf (result.int ≠ 0) "close backupfd failed"
  modify fun s => { s with backupfd := none }

/-- The part of `_deallocate` about the sockets. -/
def closePair (answers : Answers F) (pair : ℤ × ℤ) : Remote F Unit := do
  let result ← close answers.closeFirst pair.1
  raiseIf (result.int ≠ 0) s!"close _socket_pair[0] {pair.1} failed"
  let result ← close answers.closeSecond pair.2
  raiseIf (result.int ≠ 0) s!"close _socket_pair[1] {pair.2} failed"
  modify fun s => { s with socketPair := none }

/-- `_deallocate`: the descriptor is put back and the pair closed, as far as they are known.
-/
def deallocate (answers : Answers F) (fd : ℤ) : Remote F Unit := do
  match ← look State.backupfd with
  | some backupfd => putBack answers fd backupfd
  | none => pure ()
  match ← look State.socketPair with
  | some pair => closePair answers pair
  | none => pure ()

/-- The body of the statement, which leaves the table and may raise. -/
def body (raises : Option String) : Remote F Unit := do
  modify fun s => { s with entered := s.table :: s.entered }
  match raises with
  | some e => raise e
  | none => pure ()

/-- `async with CaptureFD(client, fd, sock_buf_size)`. -/
def asyncWith (answers : Answers F) (fd : ℤ) (sockBufSize : Option ℕ) (raises : Option String) :
    Remote F Unit := do
  -- `__aexit__` is not called if this raises
  allocate answers fd sockBufSize
  let result ← attempt (body raises)
  deallocate answers fd
  ask fun _ => result

/-- The state before the statement, with a table of files. -/
def start (files : Descriptor → Option F) : State F :=
  ⟨fun d => (files d).map .file, none, none, []⟩

/-- The table is after the statement what it was before, and the body was entered only if
the descriptor referred to the first socket. -/
structure Restores (answers : Answers F) (files : Descriptor → Option F) (fd : ℤ)
    (sockBufSize : Option ℕ) (raises : Option String) : Prop where
  table : (asyncWith answers fd sockBufSize raises (start files)).2.table = (start files).table
  redirected : ∀ table ∈ (asyncWith answers fd sockBufSize raises (start files)).2.entered,
    (descriptor? fd).bind table = some (.socket true)

/-! ## The calls -/

variable {answers : Answers F} {s : State F} {table : Table F} {fd old new : ℤ}
  {a b d d' k : Descriptor} {file : OpenFile F} {answer : CloseAnswer} {succeeds : Bool}

theorem int_minus_one_ne_zero : (Symbol.new (-1)).int ≠ 0 := by decide

theorem cInt32_val (d : Descriptor) : (Symbol.new (d.val : ℤ)).cInt32 = (d.val : ℤ) :=
  Symbol.cInt32_new_eq_iff.mpr (by omega)

theorem result_int_eq_zero_iff : answer.result.int = 0 ↔ answer = .closed := by
  cases answer <;> decide

/-- The table with the two sockets. -/
def opened (table : Table F) (a b : Descriptor) : Table F :=
  Function.update (Function.update table a (some (.socket true))) b (some (.socket false))

/-- The table after a `dup2`. -/
def copied (succeeds : Bool) (d : Descriptor) (file : OpenFile F) (table : Table F) : Table F :=
  if succeeds then Function.update table d (some file) else table

/-- A descriptor that leads somewhere is copied to a free one. -/
theorem dup_of_open (hfd : descriptor? fd = some d) (hfile : s.table d = some file)
    {new : {k : Descriptor // s.table k = none}} (hnew : answers.dup s.table = some new) :
    dup answers fd s =
      (.ok (.new new.val.val),
        { s with table := Function.update s.table new.val (some file) }) := by
  rw [dup, hfd, Option.bind_some, hfile, hnew]

/-- Otherwise `dup` fails and changes nothing. -/
theorem dup_of_not (h : (descriptor? fd).bind s.table = none ∨ answers.dup s.table = none) :
    dup answers fd s = (.ok (.new (-1)), s) := by
  rw [dup]
  split
  next hfile hnew =>
    rcases h with h | h
    · exact absurd (hfile.symm.trans h) nofun
    · exact absurd (hnew.symm.trans h) nofun
  next => rfl

/-- `dup2` copies onto a descriptor or changes nothing. -/
theorem dup2_of_open (succeeds : Bool) (hold : descriptor? old = some d')
    (hnew : descriptor? new = some d) (hfile : s.table d' = some file) :
    ∃ result, dup2 succeeds old new s =
      (.ok result, { s with table := copied succeeds d file s.table }) := by
  rw [dup2, hold, hnew, Option.bind_some, hfile]
  cases succeeds with
  | false => exact ⟨_, rfl⟩
  | true => exact ⟨_, rfl⟩

/-- `close` of a descriptor that leads somewhere. -/
theorem close_of_open (hfd : descriptor? fd = some d) (hopen : s.table d ≠ none) :
    close answer fd s = (.ok answer.result, { s with table := answer.after d s.table }) := by
  rw [close, hfd]
  exact if_neg hopen

theorem after_of_ne (hne : d' ≠ d) : answer.after d table d' = table d' := by
  cases answer with
  | closed => exact Function.update_of_ne hne _ _
  | failedReleased => exact Function.update_of_ne hne _ _
  | failedKept => rfl

/-- The descriptor is free unless the failed close has kept it. -/
theorem after_eq (h : answer ≠ .failedKept) :
    answer.after d table = Function.update table d none := by
  cases answer with
  | closed => rfl
  | failedReleased => rfl
  | failedKept => exact absurd rfl h

theorem copied_of_ne (hne : d' ≠ d) : copied succeeds d file table d' = table d' := by
  rw [copied]
  split
  · exact Function.update_of_ne hne _ _
  · rfl

theorem copied_ne_none (h : table d' ≠ none) : copied succeeds d file table d' ≠ none := by
  by_cases heq : d' = d
  · rw [heq, copied]
    split
    · rw [Function.update_self]
      exact Option.some_ne_none file
    · exact heq ▸ h
  · rwa [copied_of_ne heq]

/-! ## Leaving -/

/-- What the table is when the descriptor has been put back. -/
theorem putBack_table (answers : Answers F) (hk : descriptor? old = some k)
    (hfd : descriptor? fd = some d) (hfile : s.table k = some file) :
    ∃ result backupfd, putBack answers fd old s = (result, { s with
        table := answers.closeBackup.after k (copied answers.dup2Backup d file s.table)
        backupfd }) ∧
      (result = .ok () ↔ answers.closeBackup = .closed) := by
  obtain ⟨result, hdup2⟩ := dup2_of_open answers.dup2Backup hk hfd hfile
  -- the backup is open in either case, so that its `close` is answered
  have hopen : copied answers.dup2Backup d file s.table k ≠ none :=
    copied_ne_none (by rw [hfile]; exact Option.some_ne_none file)
  rw [putBack, bind_of_ok hdup2, bind_of_ok (raiseIf_of_not result.not_int_neg _ _),
    bind_of_ok (close_of_open hk hopen)]
  by_cases hclosed : answers.closeBackup = .closed
  · rw [bind_of_ok (raiseIf_of_not (not_not.mpr (result_int_eq_zero_iff.mpr hclosed)) _ _)]
    exact ⟨.ok (), _, rfl, iff_of_true rfl hclosed⟩
  · rw [bind_of_error (raiseIf_of (mt result_int_eq_zero_iff.mp hclosed) _ _)]
    exact ⟨.error "close backupfd failed", _, rfl, iff_of_false nofun hclosed⟩

/-- What the table is when the pair has been closed. -/
theorem closePair_table (answers : Answers F) (hne : a ≠ b) (ha : s.table a ≠ none)
    (hb : s.table b ≠ none) :
    ∃ result socketPair, closePair answers (a.val, b.val) s = (result, { s with
        table :=
          if answers.closeFirst = .closed then
            answers.closeSecond.after b (Function.update s.table a none)
          else answers.closeFirst.after a s.table
        socketPair }) := by
  have hb' : answers.closeFirst.after a s.table b ≠ none := by rwa [after_of_ne hne.symm]
  rw [closePair, bind_of_ok (close_of_open (descriptor?_val a) ha)]
  by_cases hfirst : answers.closeFirst = .closed
  · rw [bind_of_ok (raiseIf_of_not (not_not.mpr (result_int_eq_zero_iff.mpr hfirst)) _ _),
      if_pos hfirst, bind_of_ok (close_of_open (descriptor?_val b) hb'), hfirst]
    by_cases hsecond : answers.closeSecond = .closed
    · rw [bind_of_ok (raiseIf_of_not (not_not.mpr (result_int_eq_zero_iff.mpr hsecond)) _ _)]
      exact ⟨_, _, rfl⟩
    · rw [bind_of_error (raiseIf_of (mt result_int_eq_zero_iff.mp hsecond) _ _)]
      exact ⟨_, _, rfl⟩
  · rw [bind_of_error (raiseIf_of (mt result_int_eq_zero_iff.mp hfirst) _ _), if_neg hfirst]
    exact ⟨_, _, rfl⟩

/-- The table after `_deallocate`, which stops at the first `close` that fails. -/
def released (answers : Answers F) (a b d k : Descriptor) (file : OpenFile F) (table : Table F) :
    Table F :=
  let table := copied answers.dup2Backup d file table
  if answers.closeBackup = .closed then
    let table := Function.update table k none
    if answers.closeFirst = .closed then
      answers.closeSecond.after b (Function.update table a none)
    else answers.closeFirst.after a table
  else answers.closeBackup.after k table

/-- What the table is after `_deallocate`. -/
theorem deallocate_table (answers : Answers F) (hfd : descriptor? fd = some d)
    (hbackup : s.backupfd = some (k.val : ℤ))
    (hpair : s.socketPair = some ((a.val : ℤ), (b.val : ℤ))) (hfile : s.table k = some file)
    (hab : a ≠ b) (hak : a ≠ k) (hbk : b ≠ k) (ha : s.table a ≠ none) (hb : s.table b ≠ none) :
    (deallocate answers fd s).2.table = released answers a b d k file s.table ∧
      (deallocate answers fd s).2.entered = s.entered := by
  obtain ⟨result, backupfd, hputBack, hresult⟩ :=
    putBack_table answers (descriptor?_val k) hfd hfile
  rw [deallocate, look_bind, hbackup]
  dsimp only
  by_cases hclosed : answers.closeBackup = .closed
  · rw [hresult.mpr hclosed, hclosed] at hputBack
    rw [bind_of_ok hputBack, look_bind, hpair]
    have hopen : ∀ d', d' ≠ k → s.table d' ≠ none →
        CloseAnswer.closed.after k (copied answers.dup2Backup d file s.table) d' ≠ none := by
      intro d' hne hd'
      rw [after_of_ne hne]
      exact copied_ne_none hd'
    obtain ⟨result', socketPair, hclose⟩ := closePair_table answers
      (s := { s with
        table := CloseAnswer.closed.after k (copied answers.dup2Backup d file s.table), backupfd })
      hab (hopen a hak ha) (hopen b hbk hb)
    rw [hpair] at hclose
    dsimp only at hclose ⊢
    rw [hclose]
    simp only [released, hclosed, if_true]
    exact ⟨rfl, trivial⟩
  · obtain ⟨e, rfl⟩ : ∃ e, result = .error e := by
      cases result with
      | error e => exact ⟨e, rfl⟩
      | ok a => exact absurd (hresult.mp rfl) hclosed
    rw [bind_of_error hputBack]
    simp only [released, hclosed, if_false]
    exact ⟨trivial, trivial⟩

/-! ## Entering -/

variable {files : Descriptor → Option F} {sockBufSize : Option ℕ} {raises : Option String}

/-- The buffer sizes are set, if they are to be. -/
def BufsizeSet (answers : Answers F) (sockBufSize : Option ℕ) : Prop :=
  sockBufSize ≠ none → answers.sndbuf = true ∧ answers.rcvbuf = true

instance (answers : Answers F) (sockBufSize : Option ℕ) :
    Decidable (BufsizeSet answers sockBufSize) :=
  inferInstanceAs (Decidable (_ → _))

theorem setSockBufSize_of_set (h : BufsizeSet answers sockBufSize) :
    setSockBufSize answers sockBufSize s = (.ok (), s) := by
  cases sockBufSize with
  | none => rfl
  | some size =>
    obtain ⟨hsnd, hrcv⟩ := h nofun
    rw [setSockBufSize, setbufsize, setsockopt, setsockopt, hsnd, hrcv]
    rfl

theorem setSockBufSize_of_not (h : ¬ BufsizeSet answers sockBufSize) :
    ∃ e, setSockBufSize answers sockBufSize s = (.error e, s) := by
  cases sockBufSize with
  | none => exact absurd (fun hne => absurd rfl hne) h
  | some size =>
    have hrun : setSockBufSize answers (some size) s =
        (setsockopt answers.sndbuf >>= fun _ => setsockopt answers.rcvbuf) s := rfl
    rw [hrun]
    by_cases hsnd : answers.sndbuf = false
    · exact ⟨_, bind_of_error (raiseIf_of hsnd _ _)⟩
    · have hrcv : answers.rcvbuf = false := by
        rw [← Bool.not_eq_true]
        exact fun hrcv => h fun _ => ⟨Bool.not_eq_false _ ▸ hsnd, hrcv⟩
      rw [bind_of_ok (m := setsockopt answers.sndbuf) (raiseIf_of_not hsnd _ _)]
      exact ⟨_, raiseIf_of hrcv _ _⟩

theorem allocate_of_refused (fd : ℤ) (sockBufSize : Option ℕ)
    (h : answers.socketpair s.table = none) :
    allocate answers fd sockBufSize s = (.error "socketpair failed", s) := by
  have hcall : socketpair answers s = (.ok (.new (-1), 0, 0), s) := by rw [socketpair, h]
  rw [allocate, bind_of_ok hcall]
  exact bind_of_error (raiseIf_of int_minus_one_ne_zero _ _)

variable {pair : {pair : Descriptor × Descriptor //
  s.table pair.1 = none ∧ s.table pair.2 = none ∧ pair.1 ≠ pair.2}}

/-- After the pair is made, the rest of `_allocate`. -/
theorem allocate_of_pair (fd : ℤ) (sockBufSize : Option ℕ)
    (h : answers.socketpair s.table = some pair) :
    allocate answers fd sockBufSize s =
      (setSockBufSize answers sockBufSize >>= fun _ => redirect answers fd pair.val.1.val)
        { s with
          table := opened s.table pair.val.1 pair.val.2
          socketPair := some (pair.val.1, pair.val.2) } := by
  have hcall : socketpair answers s = (.ok (.new 0, pair.val.1, pair.val.2),
      { s with table := opened s.table pair.val.1 pair.val.2 }) := by
    rw [socketpair, h]
    rfl
  rw [allocate, bind_of_ok hcall, bind_of_ok (raiseIf_of_not (fun hne => hne rfl) _ _),
    modify_bind]

/-- A descriptor that cannot be copied stays as it is. -/
theorem redirect_of_not {first : ℤ}
    (h : (descriptor? fd).bind s.table = none ∨ answers.dup s.table = none) :
    redirect answers fd first s = (.error "dup fd failed", { s with backupfd := none }) := by
  rw [redirect, bind_of_ok (dup_of_not h), modify_bind]
  rfl

theorem redirect_of_open {new : {k : Descriptor // s.table k = none}}
    (hfd : descriptor? fd = some d) (hfile : s.table d = some file)
    (hnew : answers.dup s.table = some new) (ha : s.table a = some (.socket true)) :
    redirect answers fd a.val s = (.ok (), { s with
      table := copied answers.dup2Sock d (.socket true)
        (Function.update s.table new.val (some file))
      backupfd := some (new.val.val : ℤ) }) := by
  have hne : a ≠ new.val := by
    rintro rfl
    cases ha.symm.trans new.property
  have ha' : Function.update s.table new.val (some file) a = some (.socket true) := by
    rw [Function.update_of_ne hne, ha]
  obtain ⟨result, hdup2⟩ := dup2_of_open answers.dup2Sock
    (s := { s with
      table := Function.update s.table new.val (some file)
      backupfd := some (new.val.val : ℤ) }) (descriptor?_val a) hfd ha'
  rw [redirect, bind_of_ok (dup_of_open hfd hfile hnew), modify_bind, cInt32_val,
    if_neg (by omega), bind_of_ok hdup2]
  exact raiseIf_of_not result.not_int_neg _ _

/-! ## The exact condition -/

/-- The block is not entered when `_allocate` raises. -/
theorem asyncWith_of_raised (raises : Option String) {e : String} {u : State F}
    (h : allocate answers fd sockBufSize s = (.error e, u)) :
    asyncWith answers fd sockBufSize raises s = (.error e, u) :=
  bind_of_error h

theorem asyncWith_of_entered (raises : Option String) {u : State F}
    (h : allocate answers fd sockBufSize s = (.ok (), u)) :
    (asyncWith answers fd sockBufSize raises s).2 =
      (deallocate answers fd { u with entered := u.table :: u.entered }).2 := by
  have hbody : ∃ result, attempt (body raises) u =
      (.ok result, { u with entered := u.table :: u.entered }) := by
    cases raises with
    | none => exact ⟨_, rfl⟩
    | some e => exact ⟨_, rfl⟩
  obtain ⟨result, hbody⟩ := hbody
  rw [asyncWith, bind_of_ok h, bind_of_ok hbody, bind_apply]
  rcases deallocate answers fd { u with entered := u.table :: u.entered } with ⟨_ | _, v⟩ <;> rfl

/-- What the calls must do for the table to be restored: the pair is refused, or it is made
and every later call succeeds, except a `dup2` that would change nothing, a `dup2` of the
backup onto one of the sockets, and a last `close` that releases its descriptor. -/
def Orderly (answers : Answers F) (files : Descriptor → Option F) (fd : ℤ)
    (sockBufSize : Option ℕ) : Prop :=
  match answers.socketpair (start files).table with
  | none => True
  | some pair =>
      let a := pair.val.1
      let b := pair.val.2
      BufsizeSet answers sockBufSize ∧
        (∃ d, descriptor? fd = some d ∧ (files d ≠ none ∨ d = a ∨ d = b) ∧
          (answers.dup2Sock = true ∨ d = a) ∧ (answers.dup2Backup = true ∨ d = a ∨ d = b)) ∧
        answers.dup (opened (start files).table a b) ≠ none ∧
        answers.closeBackup = .closed ∧ answers.closeFirst = .closed ∧
        answers.closeSecond ≠ .failedKept

theorem opened_first (hne : a ≠ b) : opened table a b a = some (.socket true) := by
  rw [opened, Function.update_of_ne hne, Function.update_self]

theorem opened_second : opened table a b b = some (.socket false) := Function.update_self _ _ _

theorem opened_of_ne (ha : d ≠ a) (hb : d ≠ b) : opened table a b d = table d := by
  rw [opened, Function.update_of_ne hb, Function.update_of_ne ha]

/-- With the pair open, two more descriptors lead somewhere. -/
theorem opened_ne_none_iff (hne : a ≠ b) :
    opened (start files).table a b d ≠ none ↔ files d ≠ none ∨ d = a ∨ d = b := by
  by_cases ha : d = a
  · rw [ha, opened_first hne]
    simp
  · by_cases hb : d = b
    · rw [hb, opened_second]
      simp
    · rw [opened_of_ne ha hb, start]
      simp [ha, hb]

/-- What is left of the sockets after `_deallocate`. -/
theorem released_second (hab : a ≠ b) (hbk : b ≠ k) (hb : table b ≠ none) :
    released answers a b d k file table b = none ↔
      answers.closeBackup = .closed ∧ answers.closeFirst = .closed ∧
        answers.closeSecond ≠ .failedKept := by
  have hcopied : copied answers.dup2Backup d file table b ≠ none := copied_ne_none hb
  rw [released]
  dsimp only
  by_cases hbackup : answers.closeBackup = .closed
  · rw [if_pos hbackup]
    by_cases hfirst : answers.closeFirst = .closed
    · rw [if_pos hfirst]
      by_cases hsecond : answers.closeSecond = .failedKept
      · have hkept : CloseAnswer.failedKept.after b
            (Function.update (Function.update (copied answers.dup2Backup d file table) k none) a
              none) b ≠ none := by
          rwa [CloseAnswer.after, Function.update_of_ne hab.symm, Function.update_of_ne hbk]
        rw [hsecond]
        exact iff_of_false hkept fun h => h.2.2 rfl
      · rw [after_eq hsecond, Function.update_self]
        exact iff_of_true rfl ⟨hbackup, hfirst, hsecond⟩
    · rw [if_neg hfirst, after_of_ne hab.symm, Function.update_of_ne hbk]
      exact iff_of_false hcopied fun h => hfirst h.2.1
  · rw [if_neg hbackup, after_of_ne hbk]
    exact iff_of_false hcopied fun h => hbackup h.1

theorem start_ne_socket (first : Bool) : (start files).table d ≠ some (.socket first) := by
  rw [start]
  cases files d <;> simp

section Entered

/-! The body is entered when the pair and the backup have been made. -/

variable (answers) (files) in
/-- The table with which the body is entered. -/
def during (a b d k : Descriptor) (file : OpenFile F) : Table F :=
  copied answers.dup2Sock d (.socket true)
    (Function.update (opened (start files).table a b) k (some file))

variable (hab : a ≠ b) (ha : (start files).table a = none) (hb : (start files).table b = none)
  (hk : opened (start files).table a b k = none)
  (hfile : opened (start files).table a b d = some file)

include hab hk in
/-- The copy is neither end of the pair. -/
theorem backup_ne : a ≠ k ∧ b ≠ k := by
  constructor
  · rintro rfl
    cases (opened_first hab).symm.trans hk
  · rintro rfl
    cases opened_second.symm.trans hk

include hab hk hfile in
/-- In the block the descriptor leads to the pair just if it was copied there. -/
theorem during_self_iff :
    during answers files a b d k file d = some (.socket true) ↔ answers.dup2Sock = true ∨
      d = a := by
  have hdk : d ≠ k := by
    rintro rfl
    cases hfile.symm.trans hk
  rw [during, copied]
  by_cases hsock : answers.dup2Sock = true
  · rw [if_pos hsock, Function.update_self]
    exact iff_of_true rfl (.inl hsock)
  · rw [if_neg hsock, Function.update_of_ne hdk]
    constructor
    · intro h
      by_contra hda
      by_cases hdb : d = b
      · rw [hdb, opened_second] at h
        cases h
      · rw [opened_of_ne (fun heq => hda (.inr heq)) hdb] at h
        exact start_ne_socket true h
    · rintro (hsock' | rfl)
      · exact absurd hsock' hsock
      · exact opened_first hab

include hab ha hb hk hfile in
/-- Each descriptor is what it was, once the captured one is. -/
theorem emptied_eq_start (h : answers.dup2Backup = true ∨ d = a ∨ d = b) :
    Function.update (Function.update (Function.update (copied answers.dup2Backup d file
      (during answers files a b d k file)) k none) a none) b none = (start files).table := by
  obtain ⟨hak, hbk⟩ := backup_ne hab hk
  have hk₀ : (start files).table k = none := (opened_of_ne hak.symm hbk.symm).symm.trans hk
  funext x
  by_cases hxb : x = b
  · rw [hxb, Function.update_self, hb]
  rw [Function.update_of_ne hxb]
  by_cases hxa : x = a
  · rw [hxa, Function.update_self, ha]
  rw [Function.update_of_ne hxa]
  by_cases hxk : x = k
  · rw [hxk, Function.update_self, hk₀]
  rw [Function.update_of_ne hxk]
  by_cases hxd : x = d
  · rw [← hxd] at h hfile ⊢
    rw [copied, if_pos (h.resolve_right fun h => h.elim hxa hxb), Function.update_self, ← hfile,
      opened_of_ne hxa hxb]
  · rw [copied_of_ne hxd, during, copied_of_ne hxd, Function.update_of_ne hxk,
      opened_of_ne hxa hxb]

include hab ha hb hk hfile in
/-- With the sockets gone, the table is the old one just if the descriptor has its file back. -/
theorem released_eq_iff (hredirected : during answers files a b d k file d = some (.socket true))
    (hbackup : answers.closeBackup = .closed) (hfirst : answers.closeFirst = .closed)
    (hsecond : answers.closeSecond ≠ .failedKept) :
    released answers a b d k file (during answers files a b d k file) = (start files).table ↔
      answers.dup2Backup = true ∨ d = a ∨ d = b := by
  have hdk : d ≠ k := by
    rintro rfl
    cases hfile.symm.trans hk
  have hreleased : released answers a b d k file (during answers files a b d k file) =
      Function.update (Function.update (Function.update (copied answers.dup2Backup d file
        (during answers files a b d k file)) k none) a none) b none := by
    rw [released]
    dsimp only
    rw [if_pos hbackup, if_pos hfirst, after_eq hsecond]
  rw [hreleased]
  refine ⟨fun h => ?_, emptied_eq_start hab ha hb hk hfile⟩
  by_contra hnot
  rw [not_or, not_or] at hnot
  obtain ⟨hback, hda, hdb⟩ := hnot
  -- the descriptor still refers to the socket
  have hd := congrFun h d
  rw [Function.update_of_ne hdb, Function.update_of_ne hda, Function.update_of_ne hdk, copied,
    if_neg hback, hredirected] at hd
  exact start_ne_socket true hd.symm

include hk hfile in
/-- The copy leads where the descriptor did. -/
theorem during_backup : during answers files a b d k file k = some file := by
  have hdk : k ≠ d := by
    rintro rfl
    cases hfile.symm.trans hk
  rw [during, copied_of_ne hdk, Function.update_self]

theorem during_ne_none {x : Descriptor} (hxk : x ≠ k)
    (hx : opened (start files).table a b x ≠ none) :
    during answers files a b d k file x ≠ none := by
  apply copied_ne_none
  rwa [Function.update_of_ne hxk]

include hab ha hb hk hfile in
/-- What the later calls must do, once the pair and the backup have been made. -/
theorem entered_iff :
    released answers a b d k file (during answers files a b d k file) = (start files).table ∧
        during answers files a b d k file d = some (.socket true) ↔
      (answers.dup2Sock = true ∨ d = a) ∧ (answers.dup2Backup = true ∨ d = a ∨ d = b) ∧
        answers.closeBackup = .closed ∧ answers.closeFirst = .closed ∧
        answers.closeSecond ≠ .failedKept := by
  obtain ⟨-, hbk⟩ := backup_ne hab hk
  have hb' : during answers files a b d k file b ≠ none :=
    during_ne_none hbk (by rw [opened_second]; exact Option.some_ne_none _)
  rw [during_self_iff hab hk hfile]
  constructor
  · rintro ⟨htable, hsock⟩
    obtain ⟨hbackup, hfirst, hsecond⟩ :=
      (released_second hab hbk hb').mp ((congrFun htable b).trans hb)
    have hback := (released_eq_iff hab ha hb hk hfile ((during_self_iff hab hk hfile).mpr hsock)
      hbackup hfirst hsecond).mp htable
    exact ⟨hsock, hback, hbackup, hfirst, hsecond⟩
  · rintro ⟨hsock, hback, hbackup, hfirst, hsecond⟩
    exact ⟨(released_eq_iff hab ha hb hk hfile ((during_self_iff hab hk hfile).mpr hsock)
      hbackup hfirst hsecond).mpr hback, hsock⟩

include hab hk hfile in
/-- The statement, once the pair and the backup have been made. -/
theorem restores_iff_of_entered (hfd : descriptor? fd = some d)
    (hallocate : allocate answers fd sockBufSize (start files) = (.ok (),
      ⟨during answers files a b d k file, some (k.val : ℤ), some (a.val, b.val), []⟩)) :
    Restores answers files fd sockBufSize raises ↔
      released answers a b d k file (during answers files a b d k file) = (start files).table ∧
        during answers files a b d k file d = some (.socket true) := by
  obtain ⟨hak, hbk⟩ := backup_ne hab hk
  have ha' : opened (start files).table a b a ≠ none := by
    rw [opened_first hab]
    exact Option.some_ne_none _
  have hb' : opened (start files).table a b b ≠ none := by
    rw [opened_second]
    exact Option.some_ne_none _
  obtain ⟨htable, hentered⟩ := deallocate_table answers
    (s := ⟨during answers files a b d k file, some (k.val : ℤ), some (a.val, b.val),
      [during answers files a b d k file]⟩)
    hfd rfl rfl (during_backup hk hfile) hab hak hbk (during_ne_none hak ha')
    (during_ne_none hbk hb')
  have hend := asyncWith_of_entered raises hallocate
  constructor
  · rintro ⟨h, h'⟩
    rw [hend] at h h'
    refine ⟨htable.symm.trans h, ?_⟩
    have hmem := h' (during answers files a b d k file) (by rw [hentered]; exact List.mem_cons_self)
    rwa [hfd, Option.bind_some] at hmem
  · rintro ⟨h, h'⟩
    refine ⟨by rw [hend]; exact htable.trans h, ?_⟩
    rw [hend]
    intro table hmem
    obtain rfl := List.mem_singleton.mp (hentered ▸ hmem)
    rw [hfd, Option.bind_some, h']

end Entered

/-- What has been raised before the body is entered leaves the sockets open. -/
theorem not_restores_of_raised {e : String} {u : State F}
    (h : allocate answers fd sockBufSize (start files) = (.error e, u)) (hb : u.table b ≠ none)
    (hfree : (start files).table b = none) :
    ¬ Restores answers files fd sockBufSize raises := by
  intro hrestores
  have htable := hrestores.table
  rw [asyncWith_of_raised raises h] at htable
  exact hb ((congrFun htable b).trans hfree)

/-- The statement restores the table just if the calls are orderly. -/
theorem restores_iff_orderly (answers : Answers F) (files : Descriptor → Option F) (fd : ℤ)
    (sockBufSize : Option ℕ) (raises : Option String) :
    Restores answers files fd sockBufSize raises ↔ Orderly answers files fd sockBufSize := by
  rw [Orderly]
  cases hpair : answers.socketpair (start files).table with
  | none =>
    have hrun := asyncWith_of_raised raises (allocate_of_refused fd sockBufSize hpair)
    refine iff_of_true ⟨by rw [hrun], ?_⟩ trivial
    rw [hrun]
    exact fun table htable => absurd htable List.not_mem_nil
  | some pair =>
    obtain ⟨⟨a, b⟩, ha, hb, hab⟩ := pair
    have hallocate := allocate_of_pair fd sockBufSize hpair
    dsimp only at ha hb hab hallocate ⊢
    have hb' : opened (start files).table a b b ≠ none := by
      rw [opened_second]
      exact Option.some_ne_none _
    by_cases hset : BufsizeSet answers sockBufSize
    · rw [bind_of_ok (setSockBufSize_of_set hset)] at hallocate
      by_cases hdup : (descriptor? fd).bind (opened (start files).table a b) = none ∨
          answers.dup (opened (start files).table a b) = none
      · -- the backup is not made
        rw [redirect_of_not hdup] at hallocate
        apply iff_of_false (not_restores_of_raised hallocate hb' hb)
        rintro ⟨-, ⟨d, hfd, hopen, -, -⟩, hnew, -⟩
        have hclosed := hdup.resolve_right hnew
        rw [hfd, Option.bind_some] at hclosed
        exact (opened_ne_none_iff hab).mpr hopen hclosed
      · rw [not_or] at hdup
        obtain ⟨file, hbind⟩ := Option.ne_none_iff_exists'.mp hdup.1
        obtain ⟨d, hfd, hfile⟩ := Option.bind_eq_some_iff.mp hbind
        obtain ⟨⟨k, hk⟩, hnew⟩ := Option.ne_none_iff_exists'.mp hdup.2
        rw [redirect_of_open hfd hfile hnew (opened_first hab)] at hallocate
        rw [restores_iff_of_entered hab hk hfile hfd hallocate, entered_iff hab ha hb hk hfile]
        constructor
        · rintro ⟨hsock, hback, hclosed⟩
          have hopen := (opened_ne_none_iff hab).mp (hfile ▸ Option.some_ne_none file)
          exact ⟨hset, ⟨d, hfd, hopen, hsock, hback⟩, hdup.2, hclosed⟩
        · rintro ⟨-, ⟨d', hfd', -, hsock, hback⟩, -, hclosed⟩
          obtain rfl := Option.some.inj (hfd.symm.trans hfd')
          exact ⟨hsock, hback, hclosed⟩
    · obtain ⟨e, hbufsize⟩ := setSockBufSize_of_not
        (s := { start files with
          table := opened (start files).table a b, socketPair := some (a.val, b.val) }) hset
      rw [bind_of_error hbufsize] at hallocate
      exact iff_of_false (not_restores_of_raised hallocate hb' hb) fun h => hset h.1

/-! ## A `dup2` that fails -/

/-- A remote host on which descriptor one is a file and the `dup2` on entering fails. -/
def dup2Fails : Answers ℕ where
  socketpair table :=
    if h : table 5 = none ∧ table 6 = none then some ⟨(5, 6), h.1, h.2, by decide⟩ else none
  sndbuf := true
  rcvbuf := true
  dup table := if h : table 7 = none then some ⟨7, h⟩ else none
  dup2Sock := false
  dup2Backup := true
  closeBackup := .closed
  closeFirst := .closed
  closeSecond := .closed

/-- The body is entered although nothing was redirected. -/
theorem not_restores_dup2Fails :
    ¬ Restores dup2Fails (fun d => if d = 1 then some 100 else none) 1 none none := by
  intro h
  have hentered : (asyncWith dup2Fails 1 none none
      (start fun d => if d = 1 then some 100 else none)).2.entered.map
        (fun table => (descriptor? 1).bind table) = [some (.file 100)] := by decide
  have hmem : some (OpenFile.file 100) ∈ (asyncWith dup2Fails 1 none none
      (start fun d => if d = 1 then some 100 else none)).2.entered.map
        (fun table => (descriptor? 1).bind table) := by
    rw [hentered]
    exact List.mem_cons_self
  obtain ⟨table, htable, heq⟩ := List.mem_map.mp hmem
  cases heq.symm.trans (h.redirected table htable)

end RpcProject.Client.CaptureFd
