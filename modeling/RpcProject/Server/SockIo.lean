/-
# The server's socket loops

`sock_io_all` moves a whole buffer with as many calls of `recv` or `send` as it
takes. A positive return moves that many bytes. A zero return is the end of the
stream for a read and "try again" for a write. A failure is retried when it is
`EINTR`, `EAGAIN` or `EWOULDBLOCK`, and ends the loop otherwise.

`recvall` and `sendall` are the two uses of the loop, and `proto_msg_recv` and
`proto_msg_send` read and write one message with them: its packed size as a
little-endian `size_t`, then the packed bytes.

The kernel's side of each call is a result drawn from a schedule.
-/

import RpcProject.Foundations.Framing
import RpcProject.Foundations.Schedules
import RpcProject.Protocol.Messages

namespace RpcProject.Server

open Foundations Protocol

/-! ## Error numbers -/

/-- The systems the server is built for. -/
inductive Platform
  | linux
  | darwin
  deriving DecidableEq, Repr

namespace Platform

/-- `EINTR` -/
def eintr : Platform → ℕ := fun _ => 4

/-- `EAGAIN` -/
def eagain : Platform → ℕ
  | linux => 11
  | darwin => 35

/-- `EWOULDBLOCK` -/
def ewouldblock : Platform → ℕ := eagain

/-- The failures after which `sock_io_all` calls again. -/
def Retries (p : Platform) (errno : ℕ) : Prop :=
  errno = p.eintr ∨ errno = p.eagain ∨ errno = p.ewouldblock

instance (p : Platform) (errno : ℕ) : Decidable (p.Retries errno) :=
  inferInstanceAs (Decidable (_ ∨ _ ∨ _))

end Platform

/-! ## Socket calls -/

/-- The kernel's part in one socket call: it is ready to move some bytes, it
returns zero, or it fails. -/
inductive IoResult
  | moved (extra : ℕ)
  | zero
  | failed (errno : ℕ)
  deriving DecidableEq, Repr

/-- The server's end of a connection. `incoming` is all that the peer has sent
and the server has not read, and `buffer` what the current receive has read. -/
structure Endpoint where
  incoming : Bytes
  buffer : Bytes
  transmitted : Bytes
  errno : ℕ
  deriving DecidableEq, Repr

/-- A socket call: from how many bytes are done and how many are asked for, its
return value and what it leaves. -/
abbrev IoOp := ℕ → ℕ → IoResult → Endpoint → ℤ × Endpoint

/-- `recv` moves between one byte and all it is asked for, as far as there are
bytes, and returns zero at the end of the stream. -/
def recv : IoOp := fun _ want result e =>
  match result with
  | .moved extra =>
      let n := min (extra + 1) (min want e.incoming.length)
      (n, { e with incoming := e.incoming.drop n, buffer := e.buffer ++ e.incoming.take n })
  | .zero => (0, e)
  | .failed errno => (-1, { e with errno := errno })

/-- `send` moves between one byte and all it is asked for, out of the caller's buffer. -/
def send (source : Bytes) : IoOp := fun done want result e =>
  match result with
  | .moved extra =>
      let n := min (extra + 1) want
      (n, { e with transmitted := e.transmitted ++ (source.drop done).take n })
  | .zero => (0, e)
  | .failed errno => (-1, { e with errno := errno })

/-! ## The loop -/

/-- `while (transferred < total_len)`, one result of the schedule a turn. -/
def ioLoop (p : Platform) (ioOp : IoOp) (reading : Bool) (total : ℕ) :
    ℕ → List IoResult → Endpoint → Outcome IoResult Endpoint Bool
  | transferred, [], e =>
      if total ≤ transferred then ⟨some true, e, []⟩ else ⟨none, e, []⟩
  | transferred, result :: schedule, e =>
      if total ≤ transferred then ⟨some true, e, result :: schedule⟩
      else
        let (rc, e') := ioOp transferred (total - transferred) result e
        if 0 < rc then ioLoop p ioOp reading total (transferred + rc.toNat) schedule e'
        else if rc = 0 then
          -- a read is at the end of the stream; a write tries again
          if reading then ⟨some false, { e' with errno := 0 }, schedule⟩
          else ioLoop p ioOp reading total transferred schedule e'
        else if p.Retries e'.errno then ioLoop p ioOp reading total transferred schedule e'
        else ⟨some false, e', schedule⟩

/-- `sock_io_all`, which clears `errno` first. -/
def sockIoAll (p : Platform) (ioOp : IoOp) (reading : Bool) (total : ℕ) :
    Driven IoResult Endpoint Bool :=
  fun schedule e => ioLoop p ioOp reading total 0 schedule { e with errno := 0 }

/-- Read exactly `len` bytes into an empty buffer. -/
def recvall (p : Platform) (len : ℕ) : Driven IoResult Endpoint Bool := do
  Driven.modify fun e => { e with buffer := [] }
  sockIoAll p recv true len

/-- `sendall` -/
def sendall (p : Platform) (buf : Bytes) : Driven IoResult Endpoint Bool :=
  sockIoAll p (send buf) false buf.length

/-! ## Messages -/

/-- Send the packed size, then the packed message. -/
def protoMsgSend (p : Platform) (packed : Bytes) : Driven IoResult Endpoint Bool := do
  if ← sendall p (toLE sizeHeader packed.length) then sendall p packed else return false

/-- Send messages one after the other, as long as that succeeds. -/
def protoMsgSends (p : Platform) : List Bytes → Driven IoResult Endpoint Bool
  | [] => pure true
  | packed :: more => do
      if ← protoMsgSend p packed then protoMsgSends p more else return false

/-- Receive the size, allocate that much, receive the rest and unpack it.
`malloc` says which allocations succeed. -/
def protoMsgRecv {μ : Type} (p : Platform) (malloc : ℕ → Bool) (unpack : Bytes → Option μ) :
    Driven IoResult Endpoint (Option μ) := do
  if !(← recvall p sizeHeader) then return none
  let msgSize := ofLE (← Driven.get).buffer
  if !malloc msgSize then return none
  if !(← recvall p msgSize) then return none
  return unpack (← Driven.get).buffer

/-! ## What the calls do -/

/-- Results after which the loop goes on: progress and retried failures, and
for a write also a zero return. -/
def Benign (p : Platform) (reading : Bool) : IoResult → Prop
  | .moved _ => True
  | .zero => reading = false
  | .failed errno => p.Retries errno

/-- The call has moved something. -/
def IoResult.moves : IoResult → Bool
  | .moved _ => true
  | _ => false

/-- Two endpoints that differ in nothing but the error number. -/
def SameIo (e e' : Endpoint) : Prop :=
  e'.incoming = e.incoming ∧ e'.buffer = e.buffer ∧ e'.transmitted = e.transmitted

/-- A read has taken `k` bytes: they left the stream for the buffer. -/
def Took (k : ℕ) (e e' : Endpoint) : Prop :=
  k ≤ e.incoming.length ∧ e'.incoming = e.incoming.drop k ∧
    e'.buffer = e.buffer ++ e.incoming.take k ∧ e'.transmitted = e.transmitted

/-- A write has sent the first `k` bytes of the caller's buffer. -/
def Gave (source : Bytes) (k : ℕ) (e e' : Endpoint) : Prop :=
  k ≤ source.length ∧ e'.transmitted = e.transmitted ++ source.take k ∧
    e'.incoming = e.incoming ∧ e'.buffer = e.buffer

theorem SameIo.took_zero {e e' : Endpoint} (h : SameIo e e') : Took 0 e e' := by
  obtain ⟨hin, hbuf, hout⟩ := h
  exact ⟨Nat.zero_le _, by simpa using hin, by simpa using hbuf, hout⟩

theorem SameIo.gave_zero {source : Bytes} {e e' : Endpoint} (h : SameIo e e') :
    Gave source 0 e e' := by
  obtain ⟨hin, hbuf, hout⟩ := h
  exact ⟨Nat.zero_le _, by simpa using hout, hin, hbuf⟩

theorem Took.trans {k n : ℕ} {e e' e'' : Endpoint} (h : Took k e e') (h' : Took n e' e'') :
    Took (k + n) e e'' := by
  obtain ⟨hk, hin, hbuf, hout⟩ := h
  obtain ⟨hn, hin', hbuf', hout'⟩ := h'
  rw [hin, List.length_drop] at hn
  refine ⟨by omega, by rw [hin', hin, List.drop_drop], ?_, hout'.trans hout⟩
  rw [hbuf', hbuf, hin, List.append_assoc, ← List.take_add]

theorem Gave.trans {source : Bytes} {k n : ℕ} {e e' e'' : Endpoint} (h : Gave source k e e')
    (h' : Gave (source.drop k) n e' e'') : Gave source (k + n) e e'' := by
  obtain ⟨hk, hout, hin, hbuf⟩ := h
  obtain ⟨hn, hout', hin', hbuf'⟩ := h'
  rw [List.length_drop] at hn
  refine ⟨by omega, ?_, hin'.trans hin, hbuf'.trans hbuf⟩
  rw [hout', hout, List.append_assoc, ← List.take_add]

/-! ## The loop, for any call that keeps an account

`P k e` accounts for the first `k` bytes of the buffer at endpoint `e`. -/

/-- A call whose progress `P` accounts for, and which makes none only where a
read is at the end of the stream. -/
structure Accounts (op : IoOp) (reading : Bool) (total : ℕ) (P : ℕ → Endpoint → Prop) : Prop where
  moved : ∀ {k e} (extra : ℕ), k < total → P k e → ∃ (n : ℕ) (e' : Endpoint),
    op k (total - k) (.moved extra) e = (↑n, e') ∧ k + n ≤ total ∧ P (k + n) e' ∧
      (n = 0 → reading = true ∧ e'.incoming = [])
  moved_errno : ∀ k want extra e, (op k want (.moved extra) e).2.errno = e.errno
  zero : ∀ k want e, op k want .zero e = (0, e)
  failed : ∀ k want e errno, op k want (.failed errno) e = (-1, { e with errno := errno })
  errno : ∀ {k e errno}, P k e → P k { e with errno := errno }

/-- The results that end the loop early: the end of the stream for a read, and
a failure that is not retried. -/
def Stops (p : Platform) (reading : Bool) (e : Endpoint) : IoResult → Prop
  | .moved _ => reading = true ∧ e.incoming = []
  | .zero => reading = true
  | .failed errno => ¬ p.Retries errno

/-- What a loop over `total` bytes can have come to after a schedule. -/
inductive LoopEnd (p : Platform) (reading : Bool) (total : ℕ) (P : ℕ → Endpoint → Prop)
    (schedule : List IoResult) : Outcome IoResult Endpoint Bool → Prop
  | done {e rest} (hP : P total e) : LoopEnd p reading total P schedule ⟨some true, e, rest⟩
  | stopped {n e rest used last} (hn : n < total) (hP : P n e)
      (hschedule : schedule = used ++ last :: rest) (hused : ∀ r ∈ used, Benign p reading r)
      (hlast : Stops p reading e last) : LoopEnd p reading total P schedule ⟨some false, e, rest⟩
  | waiting {n e} (hn : n < total) (hP : P n e) : LoopEnd p reading total P schedule ⟨none, e, []⟩

variable {p : Platform} {op : IoOp} {reading : Bool} {total k : ℕ} {P : ℕ → Endpoint → Prop}
  {e : Endpoint} {schedule : List IoResult}

theorem LoopEnd.cons {result : IoResult} {o : Outcome IoResult Endpoint Bool}
    (h : LoopEnd p reading total P schedule o) (hresult : Benign p reading result) :
    LoopEnd p reading total P (result :: schedule) o := by
  cases h with
  | done hP => exact .done hP
  | @stopped n e rest used last hn hP hschedule hused hlast =>
    refine @LoopEnd.stopped _ _ _ _ _ n e rest (result :: used) last hn hP (by simp [hschedule])
      ?_ hlast
    intro r hr
    rcases List.mem_cons.mp hr with rfl | hr
    · exact hresult
    · exact hused r hr
  | waiting hn hP => exact .waiting hn hP

/-- **Partial correctness of the loop.** On every schedule, the loop has moved
all bytes and returned true, or has moved fewer and is waiting, or has moved
fewer and returned false at a result that stops it. -/
theorem ioLoop_end (hop : Accounts op reading total P) (hk : k ≤ total) (hP : P k e) :
    LoopEnd p reading total P schedule (ioLoop p op reading total k schedule e) := by
  -- one result of the schedule a turn, with the account of what is moved so far
  induction schedule generalizing k e with
  | nil =>
    rw [ioLoop]
    split
    · next hge =>
      obtain rfl : k = total := by omega
      exact .done hP
    · next hlt => exact .waiting (by omega) hP
  | cons result schedule ih =>
    rw [ioLoop]
    split
    · next hge =>
      obtain rfl : k = total := by omega
      exact .done hP
    · next hlt =>
      have hk' : k < total := by omega
      cases result with
      | moved extra =>
        obtain ⟨n, e', hcall, hle, hP', hend⟩ := hop.moved extra hk' hP
        simp only [hcall]
        by_cases hn : n = 0
        -- no byte moved: the read is at the end of the stream
        · obtain ⟨hreading, hempty⟩ := hend hn
          subst hn
          simp only [hreading, Nat.cast_zero, lt_irrefl, if_false, if_true]
          rw [hreading] at *
          exact @LoopEnd.stopped _ _ _ _ _ k _ _ [] (.moved extra) hk' (hop.errno hP') rfl
            (by simp) ⟨rfl, hempty⟩
        · rw [if_pos (by omega), Int.toNat_natCast]
          exact (ih hle hP').cons trivial
      | zero =>
        simp only [hop.zero, lt_irrefl, if_false, if_true]
        cases reading with
        | true =>
          exact @LoopEnd.stopped _ _ _ _ _ k _ _ [] .zero hk' (hop.errno hP) rfl (by simp) rfl
        | false => exact (ih hk hP).cons rfl
      | failed errno =>
        simp only [hop.failed, show ¬ (0 : ℤ) < -1 by decide, show (-1 : ℤ) ≠ 0 by decide, if_false]
        split
        · next hretry => exact (ih hk (hop.errno hP)).cons hretry
        · next hstop =>
          exact @LoopEnd.stopped _ _ _ _ _ k _ _ [] (.failed errno) hk' (hop.errno hP) rfl (by simp)
            hstop

/-- **Total correctness of the loop.** On benign results with as much progress
as there are bytes to move, the loop moves them all and returns true. -/
theorem ioLoop_completes (hop : Accounts op reading total P)
    (hlive : ∀ {k e}, reading = true → k < total → P k e → e.incoming ≠ [])
    (hk : k ≤ total) (hP : P k e) (hbenign : ∀ r ∈ schedule, Benign p reading r)
    (hbudget : total - k ≤ Driven.progress IoResult.moves schedule) :
    ∃ a e' rest, ioLoop p op reading total k schedule e = ⟨some a, e', rest⟩ ∧
      (a = true ∧ P total e') ∧ (∀ r ∈ rest, Benign p reading r) ∧
      Driven.progress IoResult.moves schedule ≤
        Driven.progress IoResult.moves rest + (total - k) := by
  -- the budget is what is left to move
  induction schedule generalizing k e with
  | nil =>
    have hzero : total - k ≤ 0 := hbudget
    obtain rfl : k = total := by omega
    exact ⟨true, e, [], by simp [ioLoop], ⟨rfl, hP⟩, by simp, by simp [Driven.progress]⟩
  | cons result schedule ih =>
    have htail : ∀ r ∈ schedule, Benign p reading r := fun r hr =>
      hbenign r (List.mem_cons_of_mem _ hr)
    have hhead := hbenign result List.mem_cons_self
    rcases Nat.eq_or_lt_of_le hk with rfl | hk'
    · refine ⟨true, e, result :: schedule, by simp [ioLoop], ⟨rfl, hP⟩, hbenign, by omega⟩
    rw [ioLoop, if_neg (by omega)]
    cases result with
    | moved extra =>
      obtain ⟨n, e', hcall, hle, hP', hend⟩ := hop.moved extra hk' hP
      have hn : n ≠ 0 := by
        intro hn
        obtain ⟨hreading, hempty⟩ := hend hn
        subst hn
        exact hlive hreading hk' hP' hempty
      have hcount : Driven.progress IoResult.moves (.moved extra :: schedule) =
          Driven.progress IoResult.moves schedule + 1 := Driven.progress_cons _ _ _
      simp only [hcall]
      rw [if_pos (by omega), Int.toNat_natCast]
      -- one progress of the schedule pays for at least one byte
      obtain ⟨a, e'', rest, hrun, hdone, hrest, hused⟩ := ih hle hP' htail (by omega)
      exact ⟨a, e'', rest, hrun, hdone, hrest, by omega⟩
    | zero =>
      -- a write that returns zero tries again
      have hwriting : reading = false := hhead
      have hcount : Driven.progress IoResult.moves (.zero :: schedule) =
          Driven.progress IoResult.moves schedule := Driven.progress_cons _ _ _
      simp only [hop.zero, lt_irrefl, if_false, if_true, hwriting, Bool.false_eq_true] at ih ⊢
      rw [hcount] at hbudget ⊢
      exact ih hk hP (hwriting ▸ htail) hbudget
    | failed errno =>
      have hcount : Driven.progress IoResult.moves (.failed errno :: schedule) =
          Driven.progress IoResult.moves schedule := Driven.progress_cons _ _ _
      have hretry : p.Retries errno := hhead
      simp only [hop.failed, show ¬ (0 : ℤ) < -1 by decide, show (-1 : ℤ) ≠ 0 by decide, if_false,
        if_pos hretry]
      rw [hcount] at hbudget ⊢
      exact ih hk (hop.errno hP) htail hbudget

/-- A loop that returns true leaves an error number that was there before or
that it retried. -/
theorem ioLoop_errno (hop : Accounts op reading total P) {e' : Endpoint} {rest : List IoResult}
    (he : e.errno = 0 ∨ p.Retries e.errno)
    (h : ioLoop p op reading total k schedule e = ⟨some true, e', rest⟩) :
    e'.errno = 0 ∨ p.Retries e'.errno := by
  -- the error number changes on a failure only, and the loop goes on after a retried one
  induction schedule generalizing k e with
  | nil =>
    rw [ioLoop] at h
    split at h
    · cases h
      exact he
    · cases h
  | cons result schedule ih =>
    rw [ioLoop] at h
    split at h
    · cases h
      exact he
    · cases result with
      | moved extra =>
        have hkept := hop.moved_errno k (total - k) extra e
        simp only at h
        split at h
        · exact ih (hkept ▸ he) h
        · split at h
          · split at h
            · cases h
            · exact ih (hkept ▸ he) h
          · split at h
            · exact ih (hkept ▸ he) h
            · cases h
      | zero =>
        simp only [hop.zero, lt_irrefl, if_false, if_true] at h
        split at h
        · cases h
        · exact ih he h
      | failed errno =>
        simp only [hop.failed, show ¬ (0 : ℤ) < -1 by decide, show (-1 : ℤ) ≠ 0 by decide,
          if_false] at h
        split at h
        · next hretry => exact ih (Or.inr hretry) h
        · cases h

/-! ## Receiving and sending a whole buffer -/

theorem accounts_recv {start : Endpoint} : Accounts recv true total fun k e => Took k start e where
  moved {k e} extra hk hP := by
    refine ⟨_, _, rfl, by omega, ?_, fun hn => ⟨rfl, ?_⟩⟩
    · refine hP.trans ⟨by omega, rfl, rfl, rfl⟩
    -- at least one byte was asked for, so there was none to take
    · have hempty : e.incoming.length = 0 := by omega
      simp [List.length_eq_zero_iff.mp hempty]
  moved_errno _ _ _ _ := rfl
  zero _ _ _ := rfl
  failed _ _ _ _ := rfl
  errno hP := hP

theorem accounts_send {source : Bytes} {start : Endpoint} :
    Accounts (send source) false source.length fun k e => Gave source k start e where
  moved {k e} extra hk hP := by
    refine ⟨_, _, rfl, by omega, ?_, fun hn => absurd hn (by omega)⟩
    exact hP.trans ⟨by rw [List.length_drop]; omega, rfl, rfl, rfl⟩
  moved_errno _ _ _ _ := rfl
  zero _ _ _ := rfl
  failed _ _ _ _ := rfl
  errno hP := hP

/-- `recvall` on any schedule: it takes exactly the bytes asked for, or fewer
of them if it is still waiting or returns false. -/
theorem recvall_end (p : Platform) (len : ℕ) (schedule : List IoResult) (e : Endpoint) :
    LoopEnd p true len (fun k e' => Took k { e with buffer := [] } e') schedule
      (recvall p len schedule e) :=
  ioLoop_end accounts_recv (Nat.zero_le _) (SameIo.took_zero ⟨rfl, rfl, rfl⟩)

/-- `sendall` on any schedule: it sends exactly the caller's buffer, or a part
from its front if it is still waiting or returns false. -/
theorem sendall_end (p : Platform) (buf : Bytes) (schedule : List IoResult) (e : Endpoint) :
    LoopEnd p false buf.length (fun k e' => Gave buf k e e') schedule (sendall p buf schedule e) :=
  ioLoop_end accounts_send (Nat.zero_le _) (SameIo.gave_zero ⟨rfl, rfl, rfl⟩)

theorem recvall_completes {len : ℕ} (hlen : len ≤ e.incoming.length) :
    Driven.Completes (Benign p true) IoResult.moves len (recvall p len) e fun ok e' =>
      ok = true ∧ Took len { e with buffer := [] } e' := by
  intro schedule hbenign hbudget
  apply ioLoop_completes accounts_recv ?_ (Nat.zero_le _) (SameIo.took_zero ⟨rfl, rfl, rfl⟩)
    hbenign hbudget
  rintro k e' - hk ⟨-, hin, -⟩ hempty
  rw [hin, List.drop_eq_nil_iff] at hempty
  exact absurd (lt_of_lt_of_le hk hlen) (Nat.not_lt.mpr hempty)

theorem sendall_completes (buf : Bytes) :
    Driven.Completes (Benign p false) IoResult.moves buf.length (sendall p buf) e fun ok e' =>
      ok = true ∧ Gave buf buf.length e e' := by
  intro schedule hbenign hbudget
  apply ioLoop_completes accounts_send ?_ (Nat.zero_le _) (SameIo.gave_zero ⟨rfl, rfl, rfl⟩)
    hbenign hbudget
  intro k e' hreading
  exact absurd hreading (by decide)

/-! ## Receiving and sending messages -/

section Messages

variable {μ : Type} {malloc : ℕ → Bool} {unpack : Bytes → Option μ} {body rest : Bytes}

/-- **Receiving one message.** With one progress for each of its bytes, a
message that heads the stream is unpacked and the stream is left behind it. -/
theorem protoMsgRecv_completes (fits : body.length < 256 ^ sizeHeader)
    (hmalloc : malloc body.length = true) (hin : e.incoming = frame sizeHeader body ++ rest) :
    Driven.Completes (Benign p true) IoResult.moves (sizeHeader + body.length)
      (protoMsgRecv p malloc unpack) e fun msg e' =>
        msg = unpack body ∧ e'.incoming = rest ∧ e'.transmitted = e.transmitted := by
  -- the size first: the stream holds at least that
  have hheader : sizeHeader ≤ e.incoming.length := by
    rw [hin, List.length_append, frame_length]
    omega
  have hsplit : e.incoming = toLE sizeHeader body.length ++ (body ++ rest) := by
    rw [hin, frame, List.append_assoc]
  apply (recvall_completes hheader).bind
  rintro ok e₁ ⟨rfl, -, hin₁, hbuf₁, hout₁⟩
  rw [List.nil_append, hsplit, List.take_left' (toLE_length _ _)] at hbuf₁
  rw [hsplit, List.drop_left' (toLE_length _ _)] at hin₁
  have hsize : ofLE e₁.buffer = body.length := by rw [hbuf₁, ofLE_toLE fits]
  have hbody : body.length ≤ e₁.incoming.length := by
    rw [hin₁, List.length_append]
    omega
  -- the size is read back out of the buffer and the body received with it
  intro schedule hbenign hbudget
  obtain ⟨ok, e₂, after, hrun, ⟨rfl, -, hin₂, hbuf₂, hout₂⟩, hafter, hused⟩ :=
    recvall_completes hbody schedule hbenign hbudget
  refine ⟨unpack e₂.buffer, e₂, after, ?_, ⟨?_, ?_, hout₂.trans hout₁⟩, hafter, hused⟩
  · simp [Driven.get, bind, Driven.bind, pure, Driven.pure, hsize, hmalloc, hrun]
  · rw [hbuf₂, List.nil_append, hin₁, List.take_left' rfl]
  · rw [hin₂, hin₁, List.drop_left' rfl]

/-- **Sending one message.** With one progress for each byte, the size and the
packed message go out. -/
theorem protoMsgSend_completes (packed : Bytes) :
    Driven.Completes (Benign p false) IoResult.moves (sizeHeader + packed.length)
      (protoMsgSend p packed) e fun ok e' =>
        ok = true ∧ e'.transmitted = e.transmitted ++ frame sizeHeader packed ∧
          e'.incoming = e.incoming := by
  have hsize := @sendall_completes p e (toLE sizeHeader packed.length)
  rw [toLE_length] at hsize
  apply hsize.bind
  rintro ok e₁ ⟨rfl, -, hout₁, hin₁, -⟩
  apply (sendall_completes packed).imp
  rintro ok e₂ ⟨rfl, -, hout₂, hin₂, -⟩
  refine ⟨rfl, ?_, hin₂.trans hin₁⟩
  rw [hout₂, hout₁, List.take_of_length_le (by simp), List.take_of_length_le (Nat.le_refl _), frame,
    List.append_assoc]

/-- A received message leaves no other error number than zero or a retried one,
whatever there was before. -/
theorem errno_of_protoMsgRecv {msg : μ} {e' : Endpoint} {after : List IoResult}
    (h : protoMsgRecv p malloc unpack schedule e = ⟨some (some msg), e', after⟩) :
    e'.errno = 0 ∨ p.Retries e'.errno := by
  obtain ⟨ok, e₁, between, -, h⟩ := Driven.bind_eq_some h
  cases ok with
  | false => simp [pure, Driven.pure] at h
  | true =>
    obtain ⟨e₂, e₃, between', hget, h⟩ := Driven.bind_eq_some h
    by_cases hmalloc : malloc (ofLE e₂.buffer) = true
    · simp only [hmalloc, Bool.not_true, Bool.false_eq_true, if_false] at h
      obtain ⟨ok', e₄, between'', hbody, h⟩ := Driven.bind_eq_some h
      cases ok' with
      | false => simp [pure, Driven.pure] at h
      | true =>
        -- the receive of the body set the error number to zero when it began
        have hleft : e₄.errno = 0 ∨ p.Retries e₄.errno :=
          ioLoop_errno (@accounts_recv _ e₃) (Or.inl rfl) hbody
        obtain ⟨e₅, e₆, _, hlast, h⟩ := Driven.bind_eq_some h
        obtain ⟨-, rfl, -⟩ : e₄ = e₅ ∧ e₄ = e₆ ∧ _ := by simpa [Driven.get] using hlast
        obtain ⟨-, rfl, -⟩ : _ ∧ e₄ = e' ∧ _ := by simpa [pure, Driven.pure] using h
        exact hleft
    · simp [hmalloc, pure, Driven.pure] at h

/-- On any schedule, a send that returned true has sent exactly the frame. -/
theorem transmitted_of_protoMsgSend {packed : Bytes} {e' : Endpoint} {after : List IoResult}
    (h : protoMsgSend p packed schedule e = ⟨some true, e', after⟩) :
    e'.transmitted = e.transmitted ++ frame sizeHeader packed := by
  obtain ⟨ok, e₁, between, hsize, h⟩ := Driven.bind_eq_some h
  cases ok with
  | false => simp [pure, Driven.pure] at h
  | true =>
    have hheader := sendall_end p (toLE sizeHeader packed.length) schedule e
    have hbody := sendall_end p packed between e₁
    rw [hsize] at hheader
    rw [if_pos rfl] at h
    rw [h] at hbody
    cases hheader with | done hgave =>
    cases hbody with | done hgave' =>
    rw [hgave'.2.1, hgave.2.1, List.take_length, List.take_length, frame, List.append_assoc]

/-- Messages are sent as frames, in order. -/
theorem transmitted_of_protoMsgSends {messages : List Bytes} {e' : Endpoint}
    {after : List IoResult} (h : protoMsgSends p messages schedule e = ⟨some true, e', after⟩) :
    e'.transmitted = e.transmitted ++ messages.flatMap (frame sizeHeader) := by
  induction messages generalizing schedule e with
  | nil =>
    obtain ⟨-, rfl, -⟩ : true = true ∧ e = e' ∧ schedule = after := by
      simpa [protoMsgSends, pure, Driven.pure] using h
    simp
  | cons packed more ih =>
    obtain ⟨ok, e₁, between, hsend, h⟩ := Driven.bind_eq_some h
    cases ok with
    | false => simp [pure, Driven.pure] at h
    | true =>
      rw [if_pos rfl] at h
      rw [ih h, transmitted_of_protoMsgSend hsend, List.flatMap_cons, List.append_assoc]

end Messages

end RpcProject.Server
