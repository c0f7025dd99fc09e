/-
# The server's terminal mode

While a foreground child runs, `enter_pty_mode` forwards what the child prints
to the client and what the client sends to the child. The loop waits until the
PTY master or the client socket is ready and serves the master first. It ends
when `select` fails, when the master or the client is at its end, when a send
fails or when a write to the master fails. In the first two cases it fetches the
child's wait status and sends it; a failed send or write returns at once.

A server started with `-d` handles clients in the process that installed the
`SIGCHLD` handler. The handler waits for any child of the process: it may fetch
the wait status first, and it keeps the thread that it has interrupted for as
long as there are children and none of them has exited. A worker process has no
such handler.

One step of the machine is one turn of the loop, one event of a child, the entry
into the handler or the return from it, or one call behind the loop. The function
may come to rest in a write, in the handler, in `select` or in `waitpid`.
-/

import RpcProject.Foundations.Machine
import RpcProject.Protocol.Messages

namespace RpcProject.Server

open Foundations Protocol

/-! ## Writing to the master -/

/-- What one `write` returns, if it returns. -/
inductive WriteResult
  | wrote (count : ℕ)
  | failed
  | blocks
  deriving DecidableEq, Repr

/-- How `writeall` ends, or that it does not. -/
inductive WriteEnd
  | all
  | failed
  | blocked
  deriving DecidableEq, Repr

/-- `writeall`: what is written, and how it ends. The results are those of the
calls it makes, no more and no fewer. -/
def writeall : Bytes → List WriteResult → Option (Bytes × WriteEnd)
  | [], [] => some ([], .all)
  | [], _ :: _ => none
  | _ :: _, [] => none
  | b :: buf, .wrote count :: results =>
      (writeall ((b :: buf).drop count) results).map fun (written, last) =>
        ((b :: buf).take count ++ written, last)
  | _ :: _, [.failed] => some ([], .failed)
  | _ :: _, .failed :: _ :: _ => none
  | _ :: _, [.blocks] => some ([], .blocked)
  | _ :: _, .blocks :: _ :: _ => none

/-! ## The machine -/

/-- The child of the terminal. A running child goes on by itself; one that waits
does not exit before its terminal is served. A child that is gone has a wait
status, which nobody or somebody has fetched. -/
inductive Child
  | running
  | waiting
  | exited (status : UInt32)
  | reaped (status : UInt32)
  deriving DecidableEq, Repr

/-- The wait status of a child that is gone. -/
def Child.status : Child → Option UInt32
  | running => none
  | waiting => none
  | exited status => some status
  | reaped status => some status

/-- The wait status of a child whose status somebody has fetched. -/
def Child.fetched : Child → Option UInt32
  | reaped status => some status
  | _ => none

/-- A turn of the loop reads from the terminal or writes to it. -/
def Child.served : Child → Child
  | waiting => running
  | child => child

/-- The other children of the process that nobody has waited for yet. -/
structure Siblings where
  running : ℕ
  exited : ℕ
  deriving DecidableEq, Repr

/-- Where the function is: in its loop, in a write that does not return, behind
the loop, behind `waitpid` with the value of `status`, or returned with or
without having sent the exit code. -/
inductive PtyPhase
  | looping
  | blocked
  | leaving
  | reporting (status : UInt32)
  | finished (status : UInt32)
  | aborted
  deriving DecidableEq, Repr

/-- The terminal mode, with all that went through it. -/
structure PtyState where
  phase : PtyPhase
  /-- whether `signal_handler` has interrupted the function -/
  handling : Bool
  child : Child
  siblings : Siblings
  /-- all bytes read from the master -/
  read : Bytes
  /-- all bytes written to the master -/
  written : Bytes
  /-- all messages sent to the client -/
  sent : List RpcPtyMessage
  deriving DecidableEq, Repr

/-- What the `waitpid` of the handler finds: the child of the terminal, another
child, or no child at all. -/
inductive Found
  | child
  | sibling
  | nothing
  deriving DecidableEq, Repr

/-- What happens in it. -/
inductive PtyEvent
  | turn (output : Option Bytes) (input : Option (Bytes × List WriteResult))
  | masterEnds
  | sendFails (output : Bytes)
  | clientEnds (output : Option Bytes)
  | selectFails
  | childWaits
  | childExits (status : UInt32)
  | siblingExits
  | siblingReaped
  | childReapedElsewhere
  | sigchld
  | handlerReturns (found : Found)
  | waitpid
  | finish (sent : Bool)
  deriving DecidableEq, Repr

/-- What a read or a receive with the terminal buffer can return. -/
def FitsBuffer (bytes : Bytes) : Prop := bytes ≠ [] ∧ bytes.length ≤ rpcPtyBufferSize

instance (bytes : Bytes) : Decidable (FitsBuffer bytes) := inferInstanceAs (Decidable (_ ∧ _))

/-- The main thread is in this phase of the function and not in the handler. -/
def PtyState.At (s : PtyState) (phase : PtyPhase) : Prop := s.phase = phase ∧ s.handling = false

instance (s : PtyState) (phase : PtyPhase) : Decidable (s.At phase) :=
  inferInstanceAs (Decidable (_ ∧ _))

/-- The phases in which the handler may interrupt the function. -/
def PtyPhase.Interruptible : PtyPhase → Prop
  | looping => True
  | leaving => True
  | reporting _ => True
  | _ => False

instance : DecidablePred PtyPhase.Interruptible := fun phase => by
  cases phase <;> unfold PtyPhase.Interruptible <;> infer_instance

/-- Serve the master, if it is ready: read and send one buffer. -/
def forwardOutput (s : PtyState) : Option Bytes → Option PtyState
  | none => some s
  | some bytes =>
      if FitsBuffer bytes then
        some { s with read := s.read ++ bytes, sent := s.sent ++ [.buffer bytes] }
      else none

/-- Where the function is after a `writeall`. -/
def WriteEnd.phase : WriteEnd → PtyPhase
  | all => .looping
  | failed => .aborted
  | blocked => .blocked

/-- Serve the client, if it is ready: receive one buffer and write it. -/
def forwardInput (s : PtyState) : Option (Bytes × List WriteResult) → Option PtyState
  | none => some s
  | some (bytes, results) =>
      if FitsBuffer bytes then
        (writeall bytes results).map fun (written, last) =>
          { s with written := s.written ++ written, phase := last.phase }
      else none

/-- The wait status that `waitpid` leaves in `status`, once the child is gone. -/
def fetchStatus : Child → Option UInt32
  | .exited status => some status
  | .reaped _ => some 0 -- there is no child to wait for, and `status` keeps its first value
  | _ => none

/-- Somebody fetches the status of the child of the terminal. -/
def reap (s : PtyState) : Option PtyState :=
  match s.child with
  | .exited status => some { s with child := .reaped status }
  | _ => none

/-- Somebody fetches the status of another child. -/
def reapSibling (s : PtyState) : Option PtyState :=
  if 0 < s.siblings.exited then
    some { s with siblings := { s.siblings with exited := s.siblings.exited - 1 } }
  else none

/-- `waitpid(-1)` returns with a child that has exited, whichever it is, or at
once when there is no child; otherwise it blocks. -/
def waitAny (s : PtyState) : Found → Option PtyState
  | .child => reap s
  | .sibling => reapSibling s
  | .nothing => if s.child.fetched.isSome ∧ s.siblings = ⟨0, 0⟩ then some s else none

/-- What each event does. -/
def ptyStep (direct : Bool) (s : PtyState) : PtyEvent → Option PtyState
  | .turn output input =>
      if s.At .looping ∧ (output.isSome ∨ input.isSome) then
        (forwardOutput { s with child := s.child.served } output).bind fun s => forwardInput s input
      else none
  | .masterEnds => if s.At .looping then some { s with phase := .leaving } else none
  | .sendFails output =>
      if s.At .looping ∧ FitsBuffer output then
        some { s with read := s.read ++ output, phase := .aborted }
      else none
  | .clientEnds output =>
      if s.At .looping then
        (forwardOutput s output).map fun s => { s with phase := .leaving }
      else none
  | .selectFails => if s.At .looping then some { s with phase := .leaving } else none
  | .childWaits => if s.child = .running then some { s with child := .waiting } else none
  | .childExits status =>
    if s.child = .running then some { s with child := .exited status } else none
  | .siblingExits =>
      if 0 < s.siblings.running then
        some { s with siblings := ⟨s.siblings.running - 1, s.siblings.exited + 1⟩ }
      else none
  -- by the thread that waits for this child
  | .siblingReaped => reapSibling s
  -- by a handler that another thread runs
  | .childReapedElsewhere => if direct then reap s else none
  -- the signal is masked while its handler runs; one within a turn counts behind it
  | .sigchld =>
      if direct ∧ s.handling = false ∧ s.phase.Interruptible then some { s with handling := true }
      else none
  | .handlerReturns found =>
      if s.handling then (waitAny s found).map fun s => { s with handling := false } else none
  -- a `waitpid` that the handler has interrupted goes on afterwards
  | .waitpid =>
      if s.At .leaving then
        match fetchStatus s.child, s.child.status with
        | some fetched, some status =>
            some { s with child := .reaped status, phase := .reporting fetched }
        | _, _ => none
      else none
  | .finish sent =>
      match s.phase, s.handling with
      | .reporting status, false =>
          some { s with
            phase := if sent then .finished status else .aborted
            sent := if sent then s.sent ++ [.exitCode status] else s.sent }
      | _, _ => none

/-- The state in which the function is entered. -/
def ptyStart (siblings : Siblings) : PtyState := ⟨.looping, false, .running, siblings, [], [], []⟩

/-- `enter_pty_mode` in a server started with (`direct`) or without `-d`. -/
def ptyMachine (direct : Bool) : Machine PtyState PtyEvent where
  start s := ∃ siblings, s = ptyStart siblings
  step := ptyStep direct

/-! ## Delivery -/

/-- Events of a client that stays connected: it does not end its input, and
what is sent to it arrives. -/
def PtyEvent.Connected : PtyEvent → Prop
  | sendFails _ => False
  | clientEnds _ => False
  | finish sent => sent = true
  | _ => True

/-- Steps that the main thread takes by itself, once it can. -/
def PtyEvent.Own : PtyEvent → Prop
  | handlerReturns _ => True
  | waitpid => True
  | finish _ => True
  | _ => False

/-- Nothing goes on by itself any more: the child is gone or waits for its
terminal, and the main thread has returned from the function or waits too. Only
somebody else can end its wait: another child that exits, a client that sends, a
process that still holds the terminal, a signal. -/
structure PtyState.Rests (direct : Bool) (s : PtyState) : Prop where
  child : s.child ≠ .running
  thread : ∀ event : PtyEvent, event.Own → ptyStep direct s event = none

/-- The client was sent what was read, in order and in buffer messages, and then
one exit code with the child's wait status. -/
def PtyState.Delivered (s : PtyState) : Prop :=
  ∃ (pieces : List Bytes) (status : UInt32), pieces.flatten = s.read ∧
    s.child.status = some status ∧ s.sent = pieces.map .buffer ++ [.exitCode status]

/-- Turns in which a write to the master fails or does not return. -/
def PtyEvent.WriteFails : PtyEvent → Prop
  | turn _ (some (_, results)) => .failed ∈ results ∨ .blocks ∈ results
  | _ => False

/-- Events that end the loop behind which the status is fetched. -/
def PtyEvent.EndsLoop : PtyEvent → Prop
  | masterEnds => True
  | clientEnds _ => True
  | selectFails => True
  | _ => False

/-- Events in which a handler fetches the status of the child of the terminal. -/
def PtyEvent.handlerReaps : PtyEvent → Bool
  | childReapedElsewhere => true
  | handlerReturns .child => true
  | _ => false

/-- Returns of the handler in the main thread. -/
def PtyEvent.isReturn : PtyEvent → Bool
  | handlerReturns _ => true
  | _ => false

/-- What the surroundings of a run, which has led to state `s`, do for it. -/
structure Unhindered (events : List PtyEvent) (s : PtyState) : Prop where
  /-- every write to the master returns and writes something -/
  writes : ∀ event ∈ events, ¬ event.WriteFails
  /-- no handler fetches the status of the child, unless it is zero -/
  status : events.any PtyEvent.handlerReaps = false ∨ s.child.status = some 0
  /-- every handler of the main thread finds a child that has exited, or no child at all -/
  handlers : events.count .sigchld = events.countP PtyEvent.isReturn
  /-- the terminal comes to its end, or `select` fails -/
  ends : ∃ event ∈ events, event.EndsLoop
  /-- the child does not wait for its terminal for ever -/
  child : s.child ≠ .waiting

/-! ## What a run amounts to -/

variable {direct : Bool} {s t : PtyState} {event : PtyEvent} {events : List PtyEvent}
  {siblings : Siblings} {buf written : Bytes} {results : List WriteResult} {last : WriteEnd}

/-- `writeall` writes all, unless a write fails or blocks. -/
theorem writeall_eq_some (h : writeall buf results = some (written, last)) :
    (last = .all → written = buf) ∧ (last ≠ .all ↔ .failed ∈ results ∨ .blocks ∈ results) := by
  -- one call of `write` a turn
  induction buf, results using writeall.induct generalizing written last with
  | case1 => simp_all [writeall]
  | case2 => simp [writeall] at h
  | case3 => simp [writeall] at h
  | case4 b buf count results ih =>
    rw [writeall] at h
    obtain ⟨⟨rest, last'⟩, hrest, hpair⟩ := Option.map_eq_some_iff.mp h
    obtain ⟨rfl, rfl⟩ := Prod.mk.inj hpair
    obtain ⟨hall, hfailed⟩ := ih hrest
    refine ⟨fun hlast => ?_, ?_⟩
    · rw [hall hlast, List.take_append_drop]
    · rw [hfailed, List.mem_cons, List.mem_cons]
      simp
  | case5 =>
    obtain ⟨rfl, rfl⟩ : written = [] ∧ .failed = last := by simpa [writeall] using h
    simp
  | case6 => simp [writeall] at h
  | case7 =>
    obtain ⟨rfl, rfl⟩ : written = [] ∧ .blocked = last := by simpa [writeall] using h
    simp
  | case8 => simp [writeall] at h

/-- What is read is sent, piece by piece. -/
theorem forwardOutput_eq_some {output : Option Bytes} (h : forwardOutput s output = some t) :
    ∃ pieces : List Bytes, t =
      { s with read := s.read ++ pieces.flatten, sent := s.sent ++ pieces.map .buffer } := by
  cases output with
  | none => exact ⟨[], by simpa [forwardOutput] using h.symm⟩
  | some bytes =>
    rw [forwardOutput] at h
    split at h
    · exact ⟨[bytes], by simpa using h.symm⟩
    · cases h

/-- Serving the client touches nothing but the master and, on a write that fails
or blocks, the phase. -/
theorem forwardInput_eq_some {output : Option Bytes} {input : Option (Bytes × List WriteResult)}
    (hs : s.phase = .looping) (h : forwardInput s input = some t) :
    ∃ (written : Bytes) (last : WriteEnd),
      (last ≠ .all ↔ (PtyEvent.turn output input).WriteFails) ∧
      t = { s with written := written, phase := last.phase } := by
  cases input with
  | none =>
    obtain rfl : s = t := by simpa [forwardInput] using h
    exact ⟨s.written, .all, by simp [PtyEvent.WriteFails], by rw [WriteEnd.phase, ← hs]⟩
  | some sent =>
    obtain ⟨bytes, results⟩ := sent
    rw [forwardInput] at h
    split at h
    · obtain ⟨⟨written, last⟩, hwrite, rfl⟩ := Option.map_eq_some_iff.mp h
      exact ⟨s.written ++ written, last, (writeall_eq_some hwrite).2, rfl⟩
    · cases h

/-- The exit code that has been sent. -/
def PtyPhase.exitCode : PtyPhase → List RpcPtyMessage
  | finished status => [.exitCode status]
  | _ => []

/-- The value that `waitpid` has left in `status`. -/
def PtyPhase.status : PtyPhase → Option UInt32
  | reporting status => some status
  | finished status => some status
  | _ => none

/-- The function is behind its loop. -/
def PtyPhase.left : PtyPhase → Bool
  | leaving => true
  | reporting _ => true
  | finished _ => true
  | _ => false

/-- What the trace so far says about the state. -/
structure Account (events : List PtyEvent) (s : PtyState) : Prop where
  /-- what was read has been sent, and an exit code once the function has finished -/
  sent : ∃ pieces : List Bytes, pieces.flatten = s.read ∧
    s.sent = pieces.map .buffer ++ s.phase.exitCode
  /-- `waitpid` gets the status of the child unless a handler has fetched it -/
  status : ∀ fetched, s.phase.status = some fetched → ∃ status, s.child.fetched = some status ∧
    fetched = if events.any PtyEvent.handlerReaps then 0 else status
  /-- before `waitpid`, only a handler has fetched the status -/
  reaped : s.phase.status = none → s.child.fetched.isSome = events.any PtyEvent.handlerReaps
  /-- the function is aborted or blocked by a write, and only so -/
  writes : (s.phase = .aborted ∨ s.phase = .blocked) ↔ ∃ e ∈ events, e.WriteFails
  /-- the loop is left by an event that ends it, and only so -/
  ends : s.phase.left = true ↔ ∃ e ∈ events, e.EndsLoop
  /-- every handler but the one that is running has returned -/
  handlers : events.count .sigchld = events.countP PtyEvent.isReturn + s.handling.toNat
  /-- a handler runs only where it may interrupt the function -/
  inside : s.handling = true → s.phase.Interruptible

/-- One more event is among the events of a trace. -/
theorem exists_mem_snoc {P : PtyEvent → Prop} :
    (∃ e ∈ events ++ [event], P e) ↔ (∃ e ∈ events, P e) ∨ P event := by
  simp [or_and_right, exists_or]

/-- A main thread that is not in the handler neither enters nor leaves it. -/
theorem Account.handlers_snoc (h : Account events s) (henters : event ≠ .sigchld)
    (hreturns : event.isReturn = false) (hhandling : t.handling = s.handling) :
    (events ++ [event]).count .sigchld =
      (events ++ [event]).countP PtyEvent.isReturn + t.handling.toNat := by
  have hcount : [event].count .sigchld = 0 := List.count_eq_zero.mpr (by simpa using henters.symm)
  rw [List.count_append, List.countP_append, h.handlers, hcount, hhandling]
  simp [hreturns]

/-- The child that is fetched has exited. -/
theorem reap_eq_some (h : reap s = some t) :
    ∃ status, s.child = .exited status ∧ t = { s with child := .reaped status } := by
  unfold reap at h
  split at h
  · next status hexited => exact ⟨status, hexited, (Option.some.inj h).symm⟩
  · cases h

/-- Fetching another child changes nothing else. -/
theorem reapSibling_eq_some (h : reapSibling s = some t) :
    ∃ siblings, t = { s with siblings := siblings } := by
  unfold reapSibling at h
  split at h
  · exact ⟨_, (Option.some.inj h).symm⟩
  · cases h

/-- Events outside the function itself: of the children, of whoever waits for them, and of the
handler. -/
def PtyEvent.Aside : PtyEvent → Prop
  | childWaits => True
  | childExits _ => True
  | siblingExits => True
  | siblingReaped => True
  | childReapedElsewhere => True
  | sigchld => True
  | handlerReturns _ => True
  | _ => False

/-- The child's status is fetched with an event, or stays as it is. -/
def Child.FetchedWith (event : PtyEvent) (child next : Child) : Prop :=
  next.fetched = child.fetched ∧ event.handlerReaps = false ∨
    child.fetched = none ∧ next.fetched.isSome = true ∧ event.handlerReaps = true

/-- What an event outside the function leaves as it is, and what it may change. -/
structure StepsAside (event : PtyEvent) (s t : PtyState) : Prop where
  phase : t.phase = s.phase
  read : t.read = s.read
  sent : t.sent = s.sent
  child : s.child.FetchedWith event t.child
  handlers : [event].count .sigchld + s.handling.toNat =
    [event].countP PtyEvent.isReturn + t.handling.toNat
  inside : t.handling = true → s.handling = true ∨ s.phase.Interruptible

/-- The handler fetches one of the children, or finds none. -/
theorem waitAny_eq_some {found : Found} (h : waitAny s found = some t) :
    ∃ child siblings, t = { s with child := child, siblings := siblings } ∧
      s.child.FetchedWith (.handlerReturns found) child := by
  cases found with
  | child =>
    obtain ⟨status, hexited, rfl⟩ := reap_eq_some h
    exact ⟨_, _, rfl, .inr ⟨by rw [hexited]; rfl, rfl, rfl⟩⟩
  | sibling =>
    obtain ⟨siblings, rfl⟩ := reapSibling_eq_some h
    exact ⟨_, _, rfl, .inl ⟨rfl, rfl⟩⟩
  | nothing =>
    rw [waitAny] at h
    split at h
    · obtain rfl := Option.some.inj h
      exact ⟨_, _, rfl, .inl ⟨rfl, rfl⟩⟩
    · cases h

/-- An event that only concerns the children steps aside. -/
theorem stepsAside_of_children {child : Child} {siblings : Siblings} (henters : event ≠ .sigchld)
    (hreturns : event.isReturn = false) (hchild : s.child.FetchedWith event child) :
    StepsAside event s { s with child := child, siblings := siblings } where
  phase := rfl
  read := rfl
  sent := rfl
  child := hchild
  handlers := by
    have hcount : [event].count .sigchld = 0 :=
      List.count_eq_zero.mpr (by simpa using henters.symm)
    simp [hcount, hreturns]
  inside := Or.inl

/-- **Inversion.** Whatever happens outside the function leaves it where it is. -/
theorem ptyStep_aside (haside : event.Aside) (hstep : ptyStep direct s event = some t) :
    StepsAside event s t := by
  cases event with
  | childWaits =>
    obtain ⟨hrunning, heq⟩ := Option.ite_none_right_eq_some.mp hstep
    obtain rfl := Option.some.inj heq
    exact stepsAside_of_children nofun rfl (.inl ⟨by rw [hrunning]; rfl, rfl⟩)
  | childExits status =>
    obtain ⟨hrunning, heq⟩ := Option.ite_none_right_eq_some.mp hstep
    obtain rfl := Option.some.inj heq
    exact stepsAside_of_children nofun rfl (.inl ⟨by rw [hrunning]; rfl, rfl⟩)
  | siblingExits =>
    obtain ⟨-, heq⟩ := Option.ite_none_right_eq_some.mp hstep
    obtain rfl := Option.some.inj heq
    exact stepsAside_of_children nofun rfl (.inl ⟨rfl, rfl⟩)
  | siblingReaped =>
    obtain ⟨siblings, rfl⟩ := reapSibling_eq_some hstep
    exact stepsAside_of_children nofun rfl (.inl ⟨rfl, rfl⟩)
  | childReapedElsewhere =>
    obtain ⟨-, hreap⟩ := Option.ite_none_right_eq_some.mp hstep
    obtain ⟨status, hexited, rfl⟩ := reap_eq_some hreap
    exact stepsAside_of_children nofun rfl (.inr ⟨by rw [hexited]; rfl, rfl, rfl⟩)
  | sigchld =>
    obtain ⟨⟨-, hhandling, hinterruptible⟩, heq⟩ := Option.ite_none_right_eq_some.mp hstep
    obtain rfl := Option.some.inj heq
    exact ⟨rfl, rfl, rfl, .inl ⟨rfl, rfl⟩, by rw [hhandling]; rfl, fun _ => .inr hinterruptible⟩
  | handlerReturns found =>
    obtain ⟨hhandling, hmap⟩ := Option.ite_none_right_eq_some.mp hstep
    obtain ⟨s₁, hwait, rfl⟩ := Option.map_eq_some_iff.mp hmap
    obtain ⟨child, siblings, rfl, hchild⟩ := waitAny_eq_some hwait
    exact ⟨rfl, rfl, rfl, hchild, by rw [hhandling]; rfl, nofun⟩
  | _ => exact haside.elim

/-- What happens outside the function neither fails a write nor ends the loop. -/
theorem PtyEvent.Aside.quiet (h : event.Aside) : ¬ event.WriteFails ∧ ¬ event.EndsLoop := by
  cases event <;> first | exact h.elim | exact ⟨id, id⟩

/-- What happens outside the function keeps the account. -/
theorem Account.aside (h : Account events s) (haside : event.Aside)
    (hsteps : StepsAside event s t) : Account (events ++ [event]) t where
  sent := by
    rw [hsteps.read, hsteps.sent, hsteps.phase]
    exact h.sent
  status fetched hfetched := by
    rw [hsteps.phase] at hfetched
    obtain ⟨status, hreaped, hvalue⟩ := h.status fetched hfetched
    rcases hsteps.child with ⟨hsame, hreaps⟩ | ⟨hnone, -, -⟩
    · exact ⟨status, hsame.trans hreaped, by simpa [hreaps] using hvalue⟩
    · rw [hnone] at hreaped
      cases hreaped
  reaped hnone := by
    rw [hsteps.phase] at hnone
    rw [List.any_append, ← h.reaped hnone]
    rcases hsteps.child with ⟨hsame, hreaps⟩ | ⟨-, hsome, hreaps⟩
    · simp [hsame, hreaps]
    · simp [hsome, hreaps]
  writes := by
    rw [hsteps.phase, h.writes, exists_mem_snoc]
    exact (or_iff_left haside.quiet.1).symm
  ends := by
    rw [hsteps.phase, h.ends, exists_mem_snoc]
    exact (or_iff_left haside.quiet.2).symm
  handlers := by
    have hlast := hsteps.handlers
    rw [List.count_append, List.countP_append, h.handlers]
    omega
  inside hin := by
    rw [hsteps.phase]
    exact (hsteps.inside hin).elim h.inside id

theorem Child.fetched_served (child : Child) : child.served.fetched = child.fetched := by
  cases child <;> rfl

theorem account_turn {output : Option Bytes} {input : Option (Bytes × List WriteResult)}
    (h : Account events s) (hstep : ptyStep direct s (.turn output input) = some t) :
    Account (events ++ [.turn output input]) t := by
  rw [ptyStep] at hstep
  split at hstep
  · next hready =>
    obtain ⟨⟨hphase, hhandling⟩, -⟩ := hready
    obtain ⟨s₁, hout, hin⟩ := Option.bind_eq_some_iff.mp hstep
    obtain ⟨pieces', rfl⟩ := forwardOutput_eq_some hout
    obtain ⟨written, last, hfails, rfl⟩ := @forwardInput_eq_some _ _ output _ (by exact hphase) hin
    obtain ⟨pieces, hpieces, hsent⟩ := h.sent
    have hreaped := h.reaped (by rw [hphase]; rfl)
    have hwrites : ¬ ∃ e ∈ events, e.WriteFails := h.writes.not.mp (by simp [hphase])
    have hends : ¬ ∃ e ∈ events, e.EndsLoop := h.ends.not.mp (by simp [hphase, PtyPhase.left])
    refine ⟨⟨pieces ++ pieces', by simp [hpieces], ?_⟩, ?_, fun _ => ?_, ?_, ?_,
      h.handlers_snoc nofun rfl rfl, ?_⟩
    · rw [hphase] at hsent
      cases last <;> simp [hsent, WriteEnd.phase, PtyPhase.exitCode]
    · cases last <;> simp [WriteEnd.phase, PtyPhase.status]
    · simpa [Child.fetched_served, PtyEvent.handlerReaps] using hreaped
    · -- `writeall` has written everything, or the function goes no further
      rw [exists_mem_snoc, ← hfails]
      cases last <;> simp [hwrites, WriteEnd.phase]
    · rw [exists_mem_snoc]
      exact iff_of_false (by cases last <;> simp [WriteEnd.phase, PtyPhase.left])
        (not_or.mpr ⟨hends, id⟩)
    · intro hin
      cases hhandling.symm.trans hin
  · cases hstep

/-- The loop ends, and the function goes on behind it. -/
theorem account_leaves (h : Account events s) (hends : event.EndsLoop) (hwrite : ¬ event.WriteFails)
    (hreaps : event.handlerReaps = false) (henters : event ≠ .sigchld)
    (hreturns : event.isReturn = false)
    (hstep : (if s.At .looping then some { s with phase := .leaving } else none) = some t) :
    Account (events ++ [event]) t := by
  split at hstep
  · next hat =>
    obtain ⟨hphase, hhandling⟩ := hat
    obtain rfl := Option.some.inj hstep
    obtain ⟨pieces, hpieces, hsent⟩ := h.sent
    have hreaped := h.reaped (by rw [hphase]; rfl)
    have hwrites : ¬ ∃ e ∈ events, e.WriteFails := h.writes.not.mp (by simp [hphase])
    refine ⟨⟨pieces, hpieces, by rw [hphase] at hsent; exact hsent⟩, nofun, fun _ => ?_, ?_, ?_,
      h.handlers_snoc henters hreturns rfl, fun _ => trivial⟩
    · simpa [hreaps] using hreaped
    · rw [exists_mem_snoc]
      simp [hwrites, hwrite]
    · rw [exists_mem_snoc]
      simp [hends, PtyPhase.left]
  · cases hstep

/-- `waitpid` returns once the child is gone, whoever has fetched its status. -/
theorem account_waitpid (h : Account events s) (hstep : ptyStep direct s .waitpid = some t) :
    Account (events ++ [.waitpid]) t := by
  rw [ptyStep] at hstep
  split at hstep
  · next hat =>
    obtain ⟨hphase, hhandling⟩ := hat
    obtain ⟨pieces, hpieces, hsent⟩ := h.sent
    have hreaped := h.reaped (by rw [hphase]; rfl)
    have hwrites : ¬ ∃ e ∈ events, e.WriteFails := h.writes.not.mp (by simp [hphase])
    have hends : ∃ e ∈ events, e.EndsLoop := h.ends.mp (by rw [hphase]; rfl)
    rw [hphase] at hsent
    split at hstep
    · next fetched status hfetched hstatus =>
      obtain rfl := Option.some.inj hstep
      refine ⟨⟨pieces, hpieces, hsent⟩, ?_, nofun, ?_, ?_, h.handlers_snoc nofun rfl rfl,
        fun _ => trivial⟩
      · intro fetched' hfetched'
        obtain rfl : fetched = fetched' := Option.some.inj hfetched'
        refine ⟨status, rfl, ?_⟩
        rw [List.any_append, ← hreaped]
        -- the child is still there, or a handler was faster and `status` is still zero
        cases hc : s.child <;>
          simp_all [fetchStatus, Child.status, Child.fetched, PtyEvent.handlerReaps]
      · rw [exists_mem_snoc]
        exact iff_of_false (by simp) (not_or.mpr ⟨hwrites, id⟩)
      · rw [exists_mem_snoc]
        exact iff_of_true rfl (Or.inl hends)
    · cases hstep
  · cases hstep

theorem account_finish (h : Account events s) (hstep : ptyStep direct s (.finish true) = some t) :
    Account (events ++ [.finish true]) t := by
  rw [ptyStep] at hstep
  split at hstep
  · next fetched hphase hhandling =>
    obtain rfl := Option.some.inj hstep
    obtain ⟨pieces, hpieces, hsent⟩ := h.sent
    have hwrites : ¬ ∃ e ∈ events, e.WriteFails := h.writes.not.mp (by simp [hphase])
    have hends : ∃ e ∈ events, e.EndsLoop := h.ends.mp (by rw [hphase]; rfl)
    simp only [hphase, PtyPhase.exitCode, List.append_nil] at hsent
    refine ⟨⟨pieces, hpieces, ?_⟩, ?_, nofun, ?_, ?_, h.handlers_snoc nofun rfl rfl, ?_⟩
    · change s.sent ++ [.exitCode fetched] = _
      rw [hsent]
      rfl
    · intro fetched' hfetched'
      obtain rfl : fetched = fetched' := Option.some.inj hfetched'
      obtain ⟨status, hstatus, hvalue⟩ := h.status fetched (by rw [hphase]; rfl)
      exact ⟨status, hstatus, by simpa [PtyEvent.handlerReaps] using hvalue⟩
    · rw [exists_mem_snoc]
      exact iff_of_false (by simp) (not_or.mpr ⟨hwrites, id⟩)
    · rw [exists_mem_snoc]
      exact iff_of_true rfl (Or.inl hends)
    · intro hin
      cases hhandling.symm.trans hin
  · cases hstep

/-- **Step lemma.** Every event of a connected client keeps the account. -/
theorem account_step (h : Account events s) (hconn : event.Connected)
    (hstep : ptyStep direct s event = some t) : Account (events ++ [event]) t := by
  cases event with
  | turn output input => exact account_turn h hstep
  | masterEnds => exact account_leaves h trivial id rfl nofun rfl hstep
  | selectFails => exact account_leaves h trivial id rfl nofun rfl hstep
  | sendFails output => exact hconn.elim
  | clientEnds output => exact hconn.elim
  | waitpid => exact account_waitpid h hstep
  | finish sent =>
    obtain rfl : sent = true := hconn
    exact account_finish h hstep
  | _ => exact h.aside trivial (ptyStep_aside trivial hstep)

/-- **Run lemma.** The account holds after every run with a connected client. -/
theorem account_run (hconn : ∀ e ∈ events, e.Connected)
    (hrun : (ptyMachine direct).run (ptyStart siblings) events = some t) : Account events t := by
  have h := @Machine.run_invariant _ _ (ptyMachine direct) (ptyStart siblings) t
    (fun events s => (∀ e ∈ events, e.Connected) → Account events s)
    (fun _ => ⟨⟨[], rfl, rfl⟩, nofun, fun _ => rfl, by simp [ptyStart],
      by simp [ptyStart, PtyPhase.left], rfl, nofun⟩)
    (fun acts s e u ih hstep hconn =>
      account_step (ih fun e he => hconn e (List.mem_append_left _ he)) (hconn e (by simp)) hstep)
    events hrun
  exact h hconn

/-! ## Where the function comes to rest -/

/-- Only a function that has finished has sent an exit code. -/
theorem PtyState.Delivered.finished (h : t.Delivered) (haccount : Account events t) :
    ∃ fetched, t.phase = .finished fetched ∧ t.child.status = some fetched := by
  obtain ⟨pieces, status, -, hstatus, hsent⟩ := h
  obtain ⟨pieces', -, hsent'⟩ := haccount.sent
  rw [hsent] at hsent'
  have hmem : RpcPtyMessage.exitCode status ∈ pieces'.map .buffer ++ t.phase.exitCode := by
    simp [← hsent']
  cases hphase : t.phase with
  | finished fetched =>
    rw [hphase] at hmem
    obtain rfl : status = fetched := by simpa [PtyPhase.exitCode] using hmem
    exact ⟨status, rfl, hstatus⟩
  | _ => simp [hphase, PtyPhase.exitCode] at hmem

/-- A main thread that is in no handler and behind the loop rests only when the
function has finished, or in `waitpid` for a child that waits for its terminal. -/
theorem PtyState.Rests.finished (h : t.Rests direct) (hhandling : t.handling = false)
    (hleft : t.phase.left = true) (hchild : t.child ≠ .waiting) :
    ∃ fetched, t.phase = .finished fetched := by
  cases hphase : t.phase with
  | looping => simp [hphase, PtyPhase.left] at hleft
  | blocked => simp [hphase, PtyPhase.left] at hleft
  | aborted => simp [hphase, PtyPhase.left] at hleft
  | finished fetched => exact ⟨fetched, rfl⟩
  | leaving =>
    -- the child is gone, and `waitpid` returns
    have hwaits := h.thread .waitpid trivial
    have hrunning := h.child
    rw [ptyStep, if_pos ⟨hphase, hhandling⟩] at hwaits
    cases hc : t.child <;> simp_all [fetchStatus, Child.status]
  | reporting fetched =>
    have hfinishes := h.thread (.finish true) trivial
    rw [ptyStep, hphase, hhandling] at hfinishes
    cases hfinishes

/-- A child that was fetched has its status. -/
theorem Child.status_of_fetched {child : Child} {status : UInt32}
    (h : child.fetched = some status) : child.status = some status := by
  cases child <;> simp_all [Child.fetched, Child.status]

/-- **Delivery.** Whenever a run with a connected client comes to rest, the client
has been sent exactly what was read and then the child's wait status, if and only
if the surroundings of the run did not hinder it. -/
theorem delivered_iff (direct : Bool) (siblings : Siblings) (hconn : ∀ e ∈ events, e.Connected)
    (hrun : (ptyMachine direct).run (ptyStart siblings) events = some t)
    (hrests : t.Rests direct) : t.Delivered ↔ Unhindered events t := by
  have haccount := account_run hconn hrun
  constructor
  · intro hdelivered
    obtain ⟨fetched, hphase, hstatus⟩ := hdelivered.finished haccount
    obtain ⟨status, hfetched, hvalue⟩ := haccount.status fetched (by rw [hphase]; rfl)
    have hhandling : t.handling = false := by
      by_contra hin
      have hinside := haccount.inside (by simpa using hin)
      simp [hphase, PtyPhase.Interruptible] at hinside
    refine ⟨?_, ?_, ?_, haccount.ends.mp (by rw [hphase]; rfl), fun hwaiting => ?_⟩
    · intro e he hfails
      have hended := haccount.writes.mpr ⟨e, he, hfails⟩
      simp [hphase] at hended
    · -- the exit code of a function that a handler has overtaken is zero
      cases hreaps : events.any PtyEvent.handlerReaps with
      | false => exact Or.inl rfl
      | true =>
        rw [hreaps, if_pos rfl] at hvalue
        exact Or.inr (hvalue ▸ hstatus)
    · simpa [hhandling] using haccount.handlers
    · simp [hwaiting, Child.fetched] at hfetched
  · intro h
    have hhandling : t.handling = false := by
      have hcount := haccount.handlers
      rw [h.handlers] at hcount
      cases hin : t.handling with
      | false => rfl
      | true => simp [hin] at hcount
    obtain ⟨fetched, hphase⟩ := hrests.finished hhandling (haccount.ends.mpr h.ends) h.child
    obtain ⟨status, hfetched, hvalue⟩ := haccount.status fetched (by rw [hphase]; rfl)
    have hstatus := Child.status_of_fetched hfetched
    obtain ⟨pieces, hpieces, hsent⟩ := haccount.sent
    refine ⟨pieces, status, hpieces, hstatus, ?_⟩
    rw [hsent, hphase, PtyPhase.exitCode, hvalue]
    congr 3
    split
    · next hreaps =>
      -- a handler has fetched the status, and it is zero
      have hzero := h.status.resolve_left (by simp [hreaps])
      exact Option.some.inj (hzero.symm.trans hstatus)
    · rfl

/-- A function that has returned rests, once its child is gone. -/
theorem rests_finished {fetched status : UInt32} (direct : Bool)
    (hphase : t.phase = .finished fetched)
    (hhandling : t.handling = false) (hchild : t.child = .reaped status) : t.Rests direct := by
  refine ⟨by simp [hchild], fun event hown => ?_⟩
  cases event with
  | handlerReturns found => simp [ptyStep, hhandling]
  | waitpid => simp [ptyStep, PtyState.At, hphase]
  | finish sent => simp [ptyStep, hphase]
  | _ => exact hown.elim

/-- In a server started with `-d`, a child prints, exits with status 256 and is
reaped by the handler, whose signal ends `select`: the client is told status 0. -/
theorem not_delivered_handler_reaps :
    ¬ ∀ (direct : Bool) (siblings : Siblings) (events : List PtyEvent) (t : PtyState),
      (∀ e ∈ events, e.Connected) →
      (ptyMachine direct).run (ptyStart siblings) events = some t → t.Rests direct →
      t.Delivered := by
  intro h
  obtain ⟨pieces, status, -, hstatus, hsent⟩ := h true ⟨0, 0⟩
    [.turn (some [104, 105]) none, .childExits 256, .sigchld, .handlerReturns .child,
      .selectFails, .waitpid, .finish true]
    ⟨.finished 0, false, .reaped 256, ⟨0, 0⟩, [104, 105], [], [.buffer [104, 105], .exitCode 0]⟩
    (by simp [PtyEvent.Connected]) (by rfl) (rests_finished true rfl rfl rfl)
  obtain rfl : 256 = status := Option.some.inj hstatus
  have hmem : RpcPtyMessage.exitCode 256 ∈ pieces.map .buffer ++ [.exitCode 256] := by simp
  rw [← hsent] at hmem
  exact absurd hmem (by decide)

/-- In a server started with `-d`, a background child is alive. The child prints,
reads two bytes and exits with status 256; the signal comes when `waitpid` has
returned, and the background child exits in the end, so that the handler returns. -/
theorem delivered_direct :
    PtyState.Delivered
      ⟨.finished 256, false, .reaped 256, ⟨0, 0⟩, [104, 105], [97, 10],
        [.buffer [104, 105], .exitCode 256]⟩ :=
  (@delivered_iff _ [.turn (some [104, 105]) (some ([97, 10], [.wrote 1, .wrote 1])),
    .childExits 256, .masterEnds, .waitpid, .sigchld, .siblingExits, .handlerReturns .sibling,
    .finish true] true ⟨1, 0⟩ (by simp [PtyEvent.Connected]) (by rfl)
    (rests_finished true rfl rfl rfl)).mpr
    ⟨by simp [PtyEvent.WriteFails], Or.inl rfl, rfl, ⟨.masterEnds, by simp, trivial⟩, nofun⟩

/-- The same run before the background child exits: the main thread rests in the
handler, and no exit code has been sent. -/
example : (ptyMachine true).run (ptyStart ⟨1, 0⟩)
    [.turn (some [104, 105]) none, .childExits 256, .masterEnds, .waitpid, .sigchld] =
      some ⟨.reporting 256, true, .reaped 256, ⟨1, 0⟩, [104, 105], [], [.buffer [104, 105]]⟩ := by
  rfl

end RpcProject.Server
