/-
# Which error a failed remote call raises

A remote libc call that fails leaves its error number in the server's `errno`.
The client learns of the failure from the call's reply and reads the number with
later requests: `raise_errno_exception` reads `errno` for the message, and again
to choose the exception class. Each read peeks eight bytes at the variable, so
it reads the four bytes next to it as well.

Every request that the server serves starts with a receive and ends with a send,
and both set `errno` to zero before they call the socket. Between the failure
and the last read lie the reply to the failed call, any number of requests of
this and other tasks, and the receive of the request that reads.
-/

import RpcProject.Server.SockIo

namespace RpcProject.Session

open Foundations Protocol Server

/-! ## The client's table -/

/-- The exception classes of `raise_errno_exception`. -/
inductive ErrnoException
  | permission
  | fileNotFound
  | fileExists
  | isADirectory
  | notADirectory
  | brokenPipe
  | notEmpty
  | resourceTemporarilyUnavailable
  | connectionRefused
  | badReturnValue
  deriving DecidableEq, Repr

/-- The table of `raise_errno_exception`, under the client's own error numbers. -/
def exceptions : List (ℕ × ErrnoException) :=
  [(1, .permission), (2, .fileNotFound), (17, .fileExists), (21, .isADirectory),
    (20, .notADirectory), (32, .brokenPipe), (66, .notEmpty),
    (35, .resourceTemporarilyUnavailable), (61, .connectionRefused)]

/-- The class raised for a number that was read. -/
def exceptionOf (errno : ℕ) : ErrnoException := (exceptions.lookup errno).getD .badReturnValue

/-- The number a class stands for. -/
def ErrnoException.errno : ErrnoException → Option ℕ
  | permission => some 1
  | fileNotFound => some 2
  | fileExists => some 17
  | isADirectory => some 21
  | notADirectory => some 20
  | brokenPipe => some 32
  | notEmpty => some 66
  | resourceTemporarilyUnavailable => some 35
  | connectionRefused => some 61
  | badReturnValue => none

/-- The table maps each number to the class that stands for it. -/
theorem errno_exceptionOf (n : ℕ) :
    (exceptionOf n).errno = some n ∨ exceptionOf n = .badReturnValue := by
  unfold exceptionOf exceptions
  -- one comparison for each row of the table
  simp only [List.lookup_cons, List.lookup_nil]
  repeat' split
  all_goals simp_all [ErrnoException.errno]

/-- Two numbers raise the same class only if they are equal or neither is in
the table. -/
theorem exceptionOf_eq_iff (m n : ℕ) :
    exceptionOf m = exceptionOf n ↔
      m = n ∨ exceptionOf m = .badReturnValue ∧ exceptionOf n = .badReturnValue := by
  constructor
  · intro h
    rcases errno_exceptionOf m with hm | hm
    · rcases errno_exceptionOf n with hn | hn
      · rw [h, hn] at hm
        exact Or.inl (Option.some.inj hm).symm
      · exact Or.inr ⟨h.trans hn, hn⟩
    · exact Or.inr ⟨hm, h ▸ hm⟩
  · rintro (rfl | ⟨hm, hn⟩)
    · rfl
    · rw [hm, hn]

/-! ## The server's variable -/

/-- The variable `errno` and the four bytes of memory behind it. -/
structure ErrnoCell where
  errno : ℕ
  adjacent : UInt32
  deriving DecidableEq, Repr

/-- `symbols.errno.getindex(0)`: eight bytes, read as one little-endian number. -/
def ErrnoCell.getErrno (cell : ErrnoCell) : ℕ :=
  ofLE (toLE 4 cell.errno ++ toLE 4 cell.adjacent.toNat)

/-- One request that the server serves: its bytes and how the socket hands them
over, the error number that logging it leaves (if the server logs, and that
sets one), what its routine does to the variable, and its reply. -/
structure Handled where
  incoming : Bytes
  reads : List IoResult
  logged : Option UInt32
  routine : ErrnoCell → ErrnoCell
  reply : Bytes
  writes : List IoResult

/-- Receive a request and log it, up to the call of its routine. -/
def receiveRequest (p : Platform) (r : Handled) (cell : ErrnoCell) : Option ErrnoCell :=
  match protoMsgRecv p (fun _ => true) some r.reads ⟨r.incoming, [], [], cell.errno⟩ with
  | ⟨some (some _), e, _⟩ => some { cell with errno := (r.logged.map UInt32.toNat).getD e.errno }
  | _ => none

def sendReply (p : Platform) (r : Handled) (cell : ErrnoCell) : Option ErrnoCell :=
  match protoMsgSend p r.reply r.writes ⟨[], [], [], cell.errno⟩ with
  | ⟨some true, e, _⟩ => some { cell with errno := e.errno }
  | _ => none

def serve (p : Platform) (cell : ErrnoCell) (r : Handled) : Option ErrnoCell := do
  let cell ← receiveRequest p r cell
  sendReply p r (r.routine cell)

/-- The variable when the last read of `raise_errno_exception` runs: a call has
left it in `cell`, the reply to that call is sent, and the requests between are
served. Among them are the earlier read, the request for the text of the number
and whatever other tasks call. -/
def cellAtRead (p : Platform) (cell : ErrnoCell) (failed : Handled) (between : List Handled)
    (read : Handled) : Option ErrnoCell := do
  let cell ← sendReply p failed cell
  let cell ← between.foldlM (serve p) cell
  receiveRequest p read cell

/-- The class that `raise_errno_exception` raises. -/
def raiseErrnoException (p : Platform) (cell : ErrnoCell) (failed : Handled)
    (between : List Handled) (read : Handled) : Option ErrnoException :=
  (cellAtRead p cell failed between read).map fun cell => exceptionOf cell.getErrno

/-! ## What the last read sees -/

variable {p : Platform} {cell start : ErrnoCell} {failed read : Handled} {between : List Handled}

/-- A received request has overwritten the variable. -/
theorem errno_of_receiveRequest (h : receiveRequest p read start = some cell) :
    (read.logged = none → cell.errno = 0 ∨ p.Retries cell.errno) ∧
      ∀ n, read.logged = some n → cell.errno = n.toNat := by
  unfold receiveRequest at h
  split at h
  · next msg e after hrecv =>
    obtain rfl := Option.some.inj h
    refine ⟨fun hquiet => ?_, fun n hlogged => ?_⟩
    · rw [hquiet]
      exact errno_of_protoMsgRecv hrecv
    · rw [hlogged]
      rfl
  · cases h

/-- Whatever failed and whatever was served since: when the variable is read it
holds zero or the number of a retried receive, or what logging set. -/
theorem errno_of_cellAtRead (h : cellAtRead p start failed between read = some cell) :
    (read.logged = none → cell.errno = 0 ∨ p.Retries cell.errno) ∧
      ∀ n, read.logged = some n → cell.errno = n.toNat := by
  -- only the last receive matters, for it sets the variable anew
  obtain ⟨cell₁, -, h⟩ := Option.bind_eq_some_iff.mp h
  obtain ⟨cell₂, -, h⟩ := Option.bind_eq_some_iff.mp h
  exact errno_of_receiveRequest h

/-- The eight bytes put the memory behind the variable above its number. -/
theorem getErrno_eq (hfits : cell.errno < 2 ^ 32) :
    cell.getErrno = cell.errno + 2 ^ 32 * cell.adjacent.toNat := by
  have hadjacent : cell.adjacent.toNat < 256 ^ 4 :=
    lt_of_lt_of_eq cell.adjacent.toNat_lt (by norm_num)
  rw [ErrnoCell.getErrno, ofLE_append, toLE_length, ofLE_toLE (by norm_num; omega),
    ofLE_toLE hadjacent]
  norm_num

/-- The numbers of the table are small. -/
theorem exceptionOf_of_large {n : ℕ} (hlarge : 66 < n) : exceptionOf n = .badReturnValue := by
  rcases errno_exceptionOf n with h | h
  · cases hclass : exceptionOf n <;> rw [hclass, ErrnoException.errno] at h <;> simp at h <;> omega
  · exact h

/-- Of zero and the retried numbers the table knows Darwin's `EAGAIN` only. -/
theorem exceptionOf_retried {n : ℕ} (h : n = 0 ∨ p.Retries n) :
    exceptionOf n = if p = .darwin ∧ n = 35 then .resourceTemporarilyUnavailable
      else .badReturnValue := by
  rcases h with rfl | rfl | rfl | rfl <;> cases p <;> decide

/-- The class that is raised by a server that does not log. -/
theorem exceptionOf_getErrno (h : cell.errno = 0 ∨ p.Retries cell.errno) :
    exceptionOf cell.getErrno =
      if p = .darwin ∧ cell = ⟨35, 0⟩ then .resourceTemporarilyUnavailable
      else .badReturnValue := by
  have hsmall : cell.errno ≤ 35 := by
    rcases h with h | h | h | h <;> rw [h] <;> cases p <;> decide
  have hvalue : cell.getErrno = cell.errno + 2 ^ 32 * cell.adjacent.toNat :=
    getErrno_eq (by omega)
  obtain ⟨errno, adjacent⟩ := cell
  -- the memory behind the variable lifts any other value out of the table
  by_cases hadjacent : adjacent = 0
  · subst hadjacent
    rw [hvalue]
    simpa using exceptionOf_retried h
  · have hpos : 0 < adjacent.toNat := by
      rw [Nat.pos_iff_ne_zero]
      exact fun hzero => hadjacent (UInt32.toNat_inj.mp hzero)
    have hlarge : 66 < (ErrnoCell.mk errno adjacent).getErrno := by
      rw [hvalue]
      simp only
      omega
    rw [exceptionOf_of_large hlarge, if_neg (by simp [hadjacent])]

/-! ## Attribution -/

/-- When the class of `e` is raised, from the variable as the last read finds
it. Without logging: if a retried `EAGAIN` of Darwin lies alone in the eight
bytes, `e` is that number, and otherwise `e` is not in the table. With logging:
the eight bytes hold `e`, or neither number is in the table. -/
def Attributed (p : Platform) (e : ℕ) (read : Handled) (cell : ErrnoCell) : Prop :=
  match read.logged with
  | none =>
      if p = .darwin ∧ cell = ⟨35, 0⟩ then e = 35 else exceptionOf e = .badReturnValue
  | some n =>
      n.toNat + 2 ^ 32 * cell.adjacent.toNat = e ∨
        exceptionOf (n.toNat + 2 ^ 32 * cell.adjacent.toNat) = .badReturnValue ∧
          exceptionOf e = .badReturnValue

/-- **Attribution.** After a call that failed with `e`, and whatever is served
before the last read, the class of `e` is raised exactly when the last read
finds the variable as `Attributed` says. -/
theorem raised_iff_attributed (e : ℕ) (adjacent : UInt32)
    (h : cellAtRead p ⟨e, adjacent⟩ failed between read = some cell) :
    raiseErrnoException p ⟨e, adjacent⟩ failed between read = some (exceptionOf e) ↔
      Attributed p e read cell := by
  obtain ⟨hquiet, hlogged⟩ := errno_of_cellAtRead h
  rw [raiseErrnoException, h, Option.map_some, Option.some.injEq]
  cases hlog : read.logged with
  | none =>
    rw [Attributed, hlog, exceptionOf_getErrno (hquiet hlog)]
    simp only
    split
    -- the number read is 35, and only 35 itself raises its class
    · rw [show ErrnoException.resourceTemporarilyUnavailable = exceptionOf 35 by decide,
        exceptionOf_eq_iff, eq_comm]
      simp [show exceptionOf 35 ≠ .badReturnValue by decide]
    -- nothing the table knows is read
    · exact eq_comm
  | some n =>
    have hfits : cell.errno < 2 ^ 32 := hlogged n hlog ▸ n.toNat_lt
    rw [Attributed, hlog, getErrno_eq hfits, hlogged n hlog, exceptionOf_eq_iff]

/-- On Linux a server that does not log always makes the client raise
`BadReturnValueError`. -/
theorem raised_linux_quiet (e : ℕ) (adjacent : UInt32) (hquiet : read.logged = none)
    (h : cellAtRead .linux ⟨e, adjacent⟩ failed between read = some cell) :
    raiseErrnoException .linux ⟨e, adjacent⟩ failed between read = some .badReturnValue := by
  rw [raiseErrnoException, h, Option.map_some,
    exceptionOf_getErrno ((errno_of_cellAtRead h).1 hquiet), if_neg (by simp)]

/-- A request of one byte that arrives whole and a reply of one byte. -/
def simpleHandled : Handled :=
  ⟨frame sizeHeader [4], [.moved 7, .moved 0], none, id, [5], [.moved 7, .moved 0]⟩

/-- A call fails with `EEXIST`, and only the client's own read follows. -/
theorem not_raised_fileExists :
    ¬ ∀ (p : Platform) (e : ℕ) (adjacent : UInt32) (failed : Handled) (between : List Handled)
      (read : Handled) (cls : ErrnoException),
      raiseErrnoException p ⟨e, adjacent⟩ failed between read = some cls → cls = exceptionOf e := by
  intro h
  have hclass := h .linux 17 0 simpleHandled [] simpleHandled .badReturnValue (by decide)
  exact absurd hclass (by decide)

/-- A call fails with a number that is not in the table, and another task's
request is served before the read. -/
theorem raised_badReturnValue :
    raiseErrnoException .linux ⟨5, 9⟩ simpleHandled [simpleHandled] simpleHandled =
      some (exceptionOf 5) :=
  (@raised_iff_attributed .linux ⟨0, 9⟩ simpleHandled simpleHandled [simpleHandled] 5 9
    (by decide)).mpr (show exceptionOf 5 = .badReturnValue by decide)

end RpcProject.Session
