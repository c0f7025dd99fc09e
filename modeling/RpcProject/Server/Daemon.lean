/-
# The server process and its clients

A server started with `-d` handles its clients one after the other, in its own process;
otherwise it starts a worker process for each of them. Either process holds the record
of a pending terminal in a global variable: `routine_exec` fills it in, and
`handle_client` enters the terminal as soon as the reply is sent.

When the reply cannot be sent, the client is dropped, and the record stays. In a worker
this is the end of the process. A server with `-d` carries the record over to its next
client, which is put into the terminal of a child that it has not asked for, or forgets
the master of that child.
-/

import Mathlib.Algebra.Order.Group.Multiset
import Mathlib.Tactic.Abel
import RpcProject.Foundations.Machine
import RpcProject.Server.Spawn

namespace RpcProject.Server

open Foundations Protocol

/-! ## The process -/

/-- How the process was started. -/
inductive Mode
  /-- `-d` -/
  | direct
  | parent
  /-- `-w` -/
  | worker
  deriving DecidableEq, Repr

/-- How the process is started: the descriptors it gets, and the socket it listens on
or, for a worker, the socket of its client. -/
structure Setting where
  mode : Mode
  base : Finset ℕ
  socket : ℕ
  fresh : socket ∉ base

/-- What the process is at. -/
inductive DaemonPhase
  | accepting
  | serving (sockfd : ℕ)
  | stopped
  deriving DecidableEq, Repr

/-- A process of the server: its descriptors, its variables and what has become of its
clients and terminals. -/
structure Daemon where
  exec : ExecState
  phase : DaemonPhase
  /-- the number of clients so far, the last of which is served -/
  clients : ℕ
  /-- the client that asked for the pending terminal -/
  spawner : ℕ
  /-- every terminal entered: the client in it, and the client that asked for it -/
  terminals : List (ℕ × ℕ)
  /-- masters that no record mentions any more -/
  forgotten : Multiset ℕ
  /-- what other requests have left open -/
  strays : Finset ℕ
  deriving DecidableEq

/-- A request, as far as it matters to the process.

A request that spawns nothing can leave descriptors open: a listing that fails forgets its
stream, and a call of `open` is there to leave one. A later one can close what was left
open so, as a call of `close` does. `strays` is what is open of that kind behind the
request. It closes no descriptor of the process itself. -/
inductive DaemonRequest
  | exec (host : ExecHost) (request : Api.RequestExec)
  | other (strays : Finset ℕ)

/-- What happens to the process. -/
inductive DaemonEvent
  | acceptFails
  /-- whether the new socket can be prepared, and then whether the handshake is sent or,
  in a parent, the worker is spawned -/
  | accept (prepared passed : Bool)
  | recvFails
  /-- whether the reply is sent, and whether the request is taken for a close -/
  | serve (request : DaemonRequest) (sent closes : Bool)

namespace Daemon

/-- A descriptor is closed. -/
def close (fd : ℕ) (s : Daemon) : Daemon :=
  { s with exec := { s.exec with table := s.exec.table.close fd } }

/-- The master that the record mentions. -/
def pendingMaster (s : Daemon) : Option ℕ :=
  if s.exec.pending.valid = true then s.exec.pending.master else none

/-- Other requests close some of what they have opened, and open more. -/
def exchange (s : Daemon) (strays : Finset ℕ) : Daemon :=
  { s with
    exec := { s.exec with table := s.exec.table.exchange s.strays strays }
    strays := strays \ (s.exec.table.opened \ s.strays) }

/-- A request changes descriptors and variables. -/
def dispatch (s : Daemon) : DaemonRequest → Daemon
  | .other strays => s.exchange strays
  | .exec host request =>
      match routineExec host request s.exec with
      | (some _, exec) =>
          if request.background = true then { s with exec := exec }
          else { s with
            exec := exec
            spawner := s.clients
            forgotten := s.pendingMaster.elim 0 singleton + s.forgotten }
      | (none, exec) => { s with exec := exec }

/-- `enter_pty_mode`, up to what it does to the process. -/
def enterPtyMode (s : Daemon) : Daemon :=
  { s with
    exec := { table := closeIf s.exec.pending.master s.exec.table, pending := {} }
    terminals := s.terminals ++ [(s.clients, s.spawner)] }

/-- `if (g_pending_pty.valid) enter_pty_mode(sockfd);` -/
def enterPending (s : Daemon) : Daemon :=
  if s.exec.pending.valid = true then s.enterPtyMode else s

/-- The end of `handle_client`. -/
def leave (mode : Mode) (sockfd : ℕ) (s : Daemon) : Daemon :=
  { s.close sockfd with phase := if mode = .worker then .stopped else .accepting }

/-- The end of `main`. -/
def stop (s : Daemon) : Daemon := { s with phase := .stopped }

/-- One turn of the loop of `handle_client`. -/
def serve (mode : Mode) (sockfd : ℕ) (request : DaemonRequest) (sent closes : Bool)
    (s : Daemon) : Daemon :=
  let s := s.dispatch request
  if sent = true then
    let s := s.enterPending
    if closes = true then s.leave mode sockfd else s
  else s.leave mode sockfd

/-- A client that `accept` has given a socket. -/
def welcome (mode : Mode) (passed : Bool) (s : Daemon) : Daemon :=
  let sockfd := s.exec.table.lowest
  let s := { s with
    exec := { s.exec with table := s.exec.table.new }
    clients := s.clients + 1 }
  match mode, passed with
  | .parent, true => s.close sockfd
  | .parent, false => (s.close sockfd).stop
  | _, true => { s with phase := .serving sockfd }
  | _, false => s.close sockfd

end Daemon

open Daemon

/-- What each event does. -/
def daemonStep (setting : Setting) (s : Daemon) (event : DaemonEvent) : Option Daemon :=
  match s.phase, event with
  | .accepting, .acceptFails => some s.stop
  | .accepting, .accept prepared passed =>
      if prepared = true then some (s.welcome setting.mode passed) else some s.stop
  | .serving sockfd, .recvFails => some (s.leave setting.mode sockfd)
  | .serving sockfd, .serve request sent closes =>
      some (s.serve setting.mode sockfd request sent closes)
  | _, _ => none

/-- A process behind the preparations of `main`; a worker has sent its handshake. -/
def Daemon.init (setting : Setting) : Daemon where
  exec := { table := ⟨insert setting.socket setting.base, 0⟩ }
  phase := if setting.mode = .worker then .serving setting.socket else .accepting
  clients := if setting.mode = .worker then 1 else 0
  spawner := 0
  terminals := []
  forgotten := 0
  strays := ∅

/-- The runs of a process. -/
def daemon (setting : Setting) : Machine Daemon DaemonEvent where
  start s := s = .init setting
  step := daemonStep setting

variable {setting : Setting} {s t : Daemon} {event : DaemonEvent} {request : DaemonRequest}

/-! ## Dispatching a request -/

/-- Whether a request makes a foreground child. -/
def OpensTerminal : DaemonRequest → Prop
  | .other _ => False
  | .exec host request => Executes host request ∧ request.background = false

instance : DecidablePred OpensTerminal
  | .other _ => inferInstanceAs (Decidable False)
  | .exec _ _ => inferInstanceAs (Decidable (_ ∧ _))

/-- A request that makes a foreground child records its master. Another one changes nothing
but, at most, what requests have left open. -/
theorem dispatch_cases (s : Daemon) (request : DaemonRequest) :
    (OpensTerminal request ∧ ∃ pid, s.dispatch request =
      { s with
        exec := ⟨s.exec.table.new, ⟨pid, some s.exec.table.lowest, true⟩⟩
        spawner := s.clients
        forgotten := s.pendingMaster.elim 0 singleton + s.forgotten }) ∨
    (¬ OpensTerminal request ∧
      (s.dispatch request = s ∨ ∃ strays, s.dispatch request = s.exchange strays)) := by
  cases request with
  | other strays => exact Or.inr ⟨id, Or.inr ⟨strays, rfl⟩⟩
  | exec host request =>
    by_cases hexecutes : Executes host request
    · by_cases hbackground : request.background = true
      · refine Or.inr ⟨fun h => by simp [h.2] at hbackground, Or.inl ?_⟩
        simp [dispatch, routineExec_eq, hexecutes, hbackground]
      · refine Or.inl ⟨⟨hexecutes, by simpa using hbackground⟩, host.pid, ?_⟩
        simp [dispatch, routineExec_eq, hexecutes, hbackground]
    · refine Or.inr ⟨fun h => hexecutes h.1, Or.inl ?_⟩
      simp [dispatch, routineExec_eq, hexecutes]

/-! ## The ledger of the process -/

/-- The open descriptors: some that the process needs, the master of the pending terminal,
the masters that are forgotten, and what other requests have left open. No close has
missed. -/
def Balanced (rest : Multiset ℕ) (s : Daemon) : Prop :=
  s.exec.table.Owes (s.pendingMaster.elim 0 singleton + (s.forgotten + (s.strays.val + rest)))

section Balanced

variable {rest : Multiset ℕ}

/-- A descriptor that is closed is owed no more. -/
theorem Balanced.close {fd : ℕ} (h : Balanced ({fd} + rest) s) : Balanced rest (s.close fd) := by
  refine Descriptors.Owes.close (h.congr ?_)
  show _ = {fd} + (s.pendingMaster.elim 0 singleton + (s.forgotten + (s.strays.val + rest)))
  abel

/-- What other requests open and close they account for themselves. -/
theorem Balanced.exchange (h : Balanced rest s) (strays : Finset ℕ) :
    Balanced rest (s.exchange strays) := by
  have hown : s.exec.table.Owes
      (s.strays.val + (s.pendingMaster.elim 0 singleton + (s.forgotten + rest))) :=
    Descriptors.Owes.congr h (by abel)
  refine (hown.exchange strays).congr ?_
  show _ = s.pendingMaster.elim 0 singleton +
    (s.forgotten + ((strays \ (s.exec.table.opened \ s.strays)).val + rest))
  abel

theorem Balanced.dispatch (h : Balanced rest s) : Balanced rest (s.dispatch request) := by
  rcases dispatch_cases s request with ⟨-, pid, heq⟩ | ⟨-, heq | ⟨strays, heq⟩⟩
  · rw [heq]
    refine h.new.congr ?_
    show _ = {s.exec.table.lowest} +
      (s.pendingMaster.elim 0 singleton + s.forgotten + (s.strays.val + rest))
    abel
  · rwa [heq]
  · rw [heq]
    exact h.exchange strays

theorem Balanced.enterPtyMode (hvalid : s.exec.pending.valid = true) (h : Balanced rest s) :
    Balanced rest s.enterPtyMode := by
  rw [Balanced, pendingMaster, if_pos hvalid] at h
  show (closeIf s.exec.pending.master s.exec.table).Owes
    (0 + (s.forgotten + (s.strays.val + rest)))
  rw [zero_add]
  cases hmaster : s.exec.pending.master with
  | none => simpa [hmaster, closeIf] using h
  | some master =>
    rw [hmaster] at h
    exact h.close

theorem Balanced.new (h : Balanced rest s) {clients : ℕ} :
    Balanced ({s.exec.table.lowest} + rest)
      { s with exec := { s.exec with table := s.exec.table.new }, clients := clients } := by
  refine (Descriptors.Owes.new h).congr ?_
  show _ = s.pendingMaster.elim 0 singleton +
    (s.forgotten + (s.strays.val + ({s.exec.table.lowest} + rest)))
  abel

end Balanced

/-- What stays open between two clients. -/
def Setting.kept (setting : Setting) : Multiset ℕ :=
  (if setting.mode = .worker then 0 else {setting.socket}) + setting.base.val

/-- The descriptors of a process that runs are accounted for. -/
def Ledger (setting : Setting) (s : Daemon) : Prop :=
  match s.phase with
  | .accepting => Balanced setting.kept s
  | .serving sockfd => Balanced ({sockfd} + setting.kept) s
  | .stopped => True

theorem accounts_init (setting : Setting) : Ledger setting (.init setting) := by
  have hopened : (insert setting.socket setting.base).val =
      {setting.socket} + setting.base.val := by
    rw [Finset.insert_val_of_notMem setting.fresh, Multiset.singleton_add]
  by_cases hworker : setting.mode = .worker
  · simp only [Ledger, Daemon.init, if_pos hworker, Setting.kept]
    refine ⟨?_, rfl⟩
    rw [hopened]
    show _ = 0 + (0 + (0 + ({setting.socket} + (0 + setting.base.val))))
    simp
  · simp only [Ledger, Daemon.init, if_neg hworker, Setting.kept]
    refine ⟨?_, rfl⟩
    rw [hopened]
    show _ = 0 + (0 + (0 + ({setting.socket} + setting.base.val)))
    simp

theorem accounts_leave {sockfd : ℕ} (h : Balanced ({sockfd} + setting.kept) s) :
    Ledger setting (s.leave setting.mode sockfd) := by
  unfold Ledger leave
  by_cases hworker : setting.mode = .worker
  · simp [hworker]
  · simp only [if_neg hworker]
    exact h.close

theorem accounts_welcome {passed : Bool} (h : Balanced setting.kept s)
    (hphase : s.phase = .accepting) :
    Ledger setting (s.welcome setting.mode passed) := by
  have hnew : Balanced ({s.exec.table.lowest} + setting.kept)
      { s with exec := { s.exec with table := s.exec.table.new }, clients := s.clients + 1 } :=
    h.new
  have hclosed := hnew.close
  unfold Ledger welcome
  cases setting.mode <;> cases passed <;> simp only [hphase, stop, Daemon.close] <;>
    first | exact hclosed | exact hnew

/-- A terminal that is pending is entered and left. -/
theorem Balanced.enterPending {rest : Multiset ℕ} (h : Balanced rest s) :
    Balanced rest s.enterPending := by
  rw [Daemon.enterPending]
  split
  · next hvalid => exact h.enterPtyMode hvalid
  · exact h

/-- What a step can do. -/
theorem daemonStep_cases (h : daemonStep setting s event = some t) :
    (s.phase = .accepting ∧ (event = .acceptFails ∨ ∃ passed, event = .accept false passed) ∧
      t = s.stop) ∨
    (s.phase = .accepting ∧ ∃ passed, event = .accept true passed ∧
      t = s.welcome setting.mode passed) ∨
    ∃ sockfd, s.phase = .serving sockfd ∧
      ((event = .recvFails ∧ t = s.leave setting.mode sockfd) ∨
        ∃ request sent closes, event = .serve request sent closes ∧
          t = s.serve setting.mode sockfd request sent closes) := by
  cases hphase : s.phase with
  | stopped => cases event <;> simp [daemonStep, hphase] at h
  | accepting =>
    cases event with
    | recvFails => simp [daemonStep, hphase] at h
    | serve request sent closes => simp [daemonStep, hphase] at h
    | acceptFails =>
      simp only [daemonStep, hphase, Option.some.injEq] at h
      exact Or.inl ⟨rfl, Or.inl rfl, h.symm⟩
    | accept prepared passed =>
      cases prepared with
      | true =>
        simp only [daemonStep, hphase, if_true, Option.some.injEq] at h
        exact Or.inr (Or.inl ⟨rfl, passed, rfl, h.symm⟩)
      | false =>
        simp only [daemonStep, hphase, Bool.false_eq_true, if_false, Option.some.injEq] at h
        exact Or.inl ⟨rfl, Or.inr ⟨passed, rfl⟩, h.symm⟩
  | serving sockfd =>
    cases event with
    | acceptFails => simp [daemonStep, hphase] at h
    | accept prepared passed => simp [daemonStep, hphase] at h
    | recvFails =>
      simp only [daemonStep, hphase, Option.some.injEq] at h
      exact Or.inr (Or.inr ⟨sockfd, rfl, Or.inl ⟨rfl, h.symm⟩⟩)
    | serve request sent closes =>
      simp only [daemonStep, hphase, Option.some.injEq] at h
      exact Or.inr (Or.inr ⟨sockfd, rfl, Or.inr ⟨request, sent, closes, rfl, h.symm⟩⟩)

/-- No request changes what the process is at. -/
theorem dispatch_phase (s : Daemon) (request : DaemonRequest) :
    (s.dispatch request).phase = s.phase := by
  rcases dispatch_cases s request with ⟨-, _, heq⟩ | ⟨-, heq | ⟨_, heq⟩⟩ <;> rw [heq]
  rfl

theorem enterPending_phase (s : Daemon) : s.enterPending.phase = s.phase := by
  rw [enterPending]
  split <;> rfl

theorem accounts_serve {sockfd : ℕ} {sent closes : Bool} (hphase : s.phase = .serving sockfd)
    (h : Balanced ({sockfd} + setting.kept) s) :
    Ledger setting (s.serve setting.mode sockfd request sent closes) := by
  cases sent with
  | false => exact accounts_leave h.dispatch
  | true =>
    have hentered : Balanced ({sockfd} + setting.kept) (s.dispatch request).enterPending :=
      h.dispatch.enterPending
    cases closes with
    | true => exact accounts_leave hentered
    | false =>
      show Ledger setting (s.dispatch request).enterPending
      rw [Ledger, enterPending_phase, dispatch_phase, hphase]
      exact hentered

theorem accounts_step (hs : Ledger setting s) (h : daemonStep setting s event = some t) :
    Ledger setting t := by
  rcases daemonStep_cases h with ⟨-, -, rfl⟩ | ⟨hphase, passed, -, rfl⟩ |
    ⟨sockfd, hphase, ⟨-, rfl⟩ | ⟨request, sent, closes, -, rfl⟩⟩
  · trivial
  · rw [Ledger, hphase] at hs
    exact accounts_welcome hs hphase
  · rw [Ledger, hphase] at hs
    exact accounts_leave hs
  · rw [Ledger, hphase] at hs
    exact accounts_serve hphase hs

/-! ## Terminals and the clients that asked for them -/

/-- A turn that makes a foreground child and cannot say so. -/
def Loses : DaemonEvent → Prop
  | .serve request false _ => OpensTerminal request
  | _ => False

/-- A turn that gets as far as entering a pending terminal. -/
def Answers : DaemonEvent → Prop
  | .serve _ true _ => True
  | _ => False

/-- The last reply to a foreground child is lost, and no request has been answered since. -/
def Stale (events : List DaemonEvent) : Prop :=
  ∃ before event after, events = before ++ event :: after ∧ Loses event ∧
    ∀ later ∈ after, ¬ Answers later

/-- A client is in the terminal that it has asked for. -/
def Own (entry : ℕ × ℕ) : Prop := entry.1 = entry.2

/-- Whether a run ends with a stale record. -/
theorem stale_append_singleton {events : List DaemonEvent} :
    Stale (events ++ [event]) ↔ Loses event ∨ (¬ Answers event ∧ Stale events) := by
  constructor
  · rintro ⟨before, lost, after, heq, hlost, hafter⟩
    rcases List.eq_nil_or_concat after with rfl | ⟨after, last, rfl⟩
    · obtain ⟨-, hlast⟩ := List.append_inj' heq rfl
      exact Or.inl (List.singleton_inj.mp hlast ▸ hlost)
    · rw [List.concat_eq_append, ← List.cons_append, ← List.append_assoc] at heq
      obtain ⟨rfl, hlast⟩ := List.append_inj' heq rfl
      obtain rfl := List.singleton_inj.mp hlast
      exact Or.inr ⟨hafter event (by simp), before, lost, after, rfl, hlost,
        fun later hlater => hafter later (by simp [hlater])⟩
  · rintro (hloses | ⟨hanswers, before, lost, after, rfl, hlost, hafter⟩)
    · exact ⟨events, event, [], rfl, hloses, fun _ h => absurd h List.not_mem_nil⟩
    · refine ⟨before, lost, after ++ [event], by simp, hlost, fun later hlater => ?_⟩
      rcases List.mem_append.mp hlater with h | h
      · exact hafter later h
      · exact List.mem_singleton.mp h ▸ hanswers

/-- A record is there after a request that opens a terminal, or if one was. -/
theorem valid_dispatch :
    (s.dispatch request).exec.pending.valid = true ↔
      OpensTerminal request ∨ s.exec.pending.valid = true := by
  rcases dispatch_cases s request with ⟨hopens, _, heq⟩ | ⟨hnot, heq | ⟨strays, heq⟩⟩
  · rw [heq]
    exact iff_of_true rfl (Or.inl hopens)
  · rw [heq, or_iff_right hnot]
  · rw [heq, or_iff_right hnot]
    rfl

theorem valid_enterPending : s.enterPending.exec.pending.valid = false := by
  rw [enterPending]
  split
  · rfl
  · next h => exact Bool.not_eq_true _ ▸ h

/-- When the record of a terminal is there behind a step. -/
theorem valid_step (h : daemonStep setting s event = some t) :
    t.exec.pending.valid = true ↔
      Loses event ∨ (¬ Answers event ∧ s.exec.pending.valid = true) := by
  rcases daemonStep_cases h with ⟨-, hevent, rfl⟩ | ⟨hphase, passed, rfl, rfl⟩ |
    ⟨sockfd, hphase, ⟨rfl, rfl⟩ | ⟨request, sent, closes, rfl, rfl⟩⟩
  · rcases hevent with rfl | ⟨passed, rfl⟩ <;> simp [Loses, Answers, stop]
  · rw [show (s.welcome setting.mode passed).exec.pending = s.exec.pending by
      unfold welcome; cases setting.mode <;> cases passed <;> rfl]
    simp [Loses, Answers]
  · simp [Loses, Answers, leave, Daemon.close]
  · cases sent with
    | false =>
      show (s.dispatch request).exec.pending.valid = true ↔ _
      simp [valid_dispatch, Loses, Answers]
    | true =>
      have hnot : (s.serve setting.mode sockfd request true closes).exec.pending.valid = false := by
        cases closes <;> exact valid_enterPending
      simp [hnot, Loses, Answers]

theorem valid_iff_stale {events : List DaemonEvent}
    (h : (daemon setting).run (.init setting) events = some s) :
    s.exec.pending.valid = true ↔ Stale events := by
  refine Machine.run_invariant (P := fun events s => s.exec.pending.valid = true ↔ Stale events)
    ?_ ?_ h
  · simp [Daemon.init, Stale]
  · intro events s event t ih hstep
    rw [valid_step hstep, stale_append_singleton, ih]

/-- From one state to a later one, all terminals entered are entered by the client that
asked for them, and no master is forgotten. -/
structure Undisturbed (s t : Daemon) : Prop where
  terminals : ∃ entered, t.terminals = s.terminals ++ entered ∧ ∀ entry ∈ entered, Own entry
  forgotten : t.forgotten = s.forgotten

/-- What touches no terminal disturbs none. -/
theorem Undisturbed.of_eq (hterminals : t.terminals = s.terminals)
    (hforgotten : t.forgotten = s.forgotten) :
    Undisturbed s t :=
  ⟨⟨[], by rw [hterminals, List.append_nil], fun _ h => absurd h List.not_mem_nil⟩, hforgotten⟩

theorem Undisturbed.trans {u : Daemon} (h : Undisturbed s t) (h' : Undisturbed t u) :
    Undisturbed s u := by
  obtain ⟨⟨entered, hentered, hown⟩, hforgotten⟩ := h
  obtain ⟨⟨entered', hentered', hown'⟩, hforgotten'⟩ := h'
  refine ⟨⟨entered ++ entered', by rw [hentered', hentered, List.append_assoc], ?_⟩,
    hforgotten'.trans hforgotten⟩
  exact List.forall_mem_append.mpr ⟨hown, hown'⟩

theorem undisturbed_welcome {mode : Mode} {passed : Bool} (s : Daemon) :
    Undisturbed s (s.welcome mode passed) := by
  unfold welcome
  cases mode <;> cases passed <;> exact .of_eq rfl rfl

/-- A request that is answered while no record is there. -/
theorem undisturbed_enterPending (hvalid : s.exec.pending.valid = false) :
    Undisturbed s (s.dispatch request).enterPending := by
  rcases dispatch_cases s request with ⟨-, pid, heq⟩ | ⟨-, heq | ⟨strays, heq⟩⟩
  · rw [heq]
    refine ⟨⟨[(s.clients, s.clients)], rfl, ?_⟩, ?_⟩
    · simp [Own]
    · simp [enterPending, enterPtyMode, pendingMaster, hvalid]
  · rw [heq, enterPending, hvalid]
    exact .of_eq rfl rfl
  · have hnone : (s.exchange strays).exec.pending.valid = false := hvalid
    rw [heq, enterPending, hnone]
    exact .of_eq rfl rfl

theorem undisturbed_dispatch (hvalid : s.exec.pending.valid = false) :
    Undisturbed s (s.dispatch request) := by
  rcases dispatch_cases s request with ⟨-, pid, heq⟩ | ⟨-, heq | ⟨strays, heq⟩⟩
  · rw [heq]
    exact .of_eq rfl (by simp [pendingMaster, hvalid])
  · rw [heq]
    exact .of_eq rfl rfl
  · rw [heq]
    exact .of_eq rfl rfl

theorem undisturbed_step (hvalid : s.exec.pending.valid = false)
    (h : daemonStep setting s event = some t) : Undisturbed s t := by
  rcases daemonStep_cases h with ⟨-, -, rfl⟩ | ⟨-, passed, -, rfl⟩ |
    ⟨sockfd, -, ⟨-, rfl⟩ | ⟨request, sent, closes, rfl, rfl⟩⟩
  · exact .of_eq rfl rfl
  · exact undisturbed_welcome s
  · exact .of_eq rfl rfl
  · cases sent with
    | false => exact (undisturbed_dispatch hvalid).trans (.of_eq rfl rfl)
    | true =>
      cases closes with
      | true => exact (undisturbed_enterPending hvalid).trans (.of_eq rfl rfl)
      | false => exact undisturbed_enterPending hvalid

/-- As long as no reply to a foreground child is lost, a process without a record stays
undisturbed. -/
theorem undisturbed_run {events : List DaemonEvent} (hvalid : s.exec.pending.valid = false)
    (h : (daemon setting).run s events = some t) (hkept : ∀ event ∈ events, ¬ Loses event) :
    t.exec.pending.valid = false ∧ Undisturbed s t := by
  refine Machine.run_invariant (P := fun events t => (∀ event ∈ events, ¬ Loses event) →
    t.exec.pending.valid = false ∧ Undisturbed s t) ?_ ?_ h hkept
  · exact fun _ => ⟨hvalid, .of_eq rfl rfl⟩
  · intro events u event v ih hstep hkept
    obtain ⟨hbefore, hlast⟩ := List.forall_mem_append.mp hkept
    have hloses := hlast event (List.mem_singleton_self event)
    obtain ⟨hu, hundisturbed⟩ := ih hbefore
    refine ⟨?_, hundisturbed.trans (undisturbed_step hu hstep)⟩
    rw [← Bool.not_eq_true, valid_step hstep, hu]
    simp [hloses]

/-- The client that a record is from has been accepted before. -/
theorem spawner_le_step (hs : s.spawner ≤ s.clients) (h : daemonStep setting s event = some t) :
    t.spawner ≤ t.clients := by
  have hdispatch : ∀ request, (s.dispatch request).spawner ≤ (s.dispatch request).clients := by
    intro request
    rcases dispatch_cases s request with ⟨-, pid, heq⟩ | ⟨-, heq | ⟨strays, heq⟩⟩
    · rw [heq]
    · rwa [heq]
    · rw [heq]
      exact hs
  rcases daemonStep_cases h with ⟨-, -, rfl⟩ | ⟨-, passed, -, rfl⟩ |
    ⟨sockfd, -, ⟨-, rfl⟩ | ⟨request, sent, closes, rfl, rfl⟩⟩
  · exact hs
  · unfold welcome
    cases setting.mode <;> cases passed <;> exact Nat.le_succ_of_le hs
  · exact hs
  · have hpending : (s.dispatch request).enterPending.spawner ≤
        (s.dispatch request).enterPending.clients := by
      rw [enterPending]
      split <;> exact hdispatch request
    cases sent <;> cases closes <;> first | exact hpending | exact hdispatch request

/-- **Terminals stay with their clients** exactly when no lost reply is outstanding. A server
with `-d` that is between two clients keeps every further client in terminals of its own,
and forgets no further master, for as long as no reply to a foreground child is lost, if and
only if no such reply was lost since a request was answered last. -/
theorem undisturbed_iff_not_stale {events : List DaemonEvent} (hmode : setting.mode = .direct)
    (hrun : (daemon setting).run (.init setting) events = some s) (hphase : s.phase = .accepting) :
    (∀ later t, (∀ event ∈ later, ¬ Loses event) → (daemon setting).run s later = some t →
      Undisturbed s t) ↔ ¬ Stale events := by
  rw [← valid_iff_stale hrun, Bool.not_eq_true]
  constructor
  · intro hundisturbed
    by_contra hvalid
    rw [Bool.not_eq_false] at hvalid
    -- a client that sends any request at all enters the terminal of an earlier one
    have hspawner : s.spawner ≤ s.clients :=
      Machine.run_invariant (P := fun _ s => s.spawner ≤ s.clients) (Nat.zero_le _)
        (fun _ _ _ _ hs h => spawner_le_step hs h) hrun
    have hnext : ∃ t, (daemon setting).run s
        [.accept true true, .serve (.other s.strays) true false] = some t ∧
        t.terminals = s.terminals ++ [(s.clients + 1, s.spawner)] := by
      simp [Machine.run, daemon, daemonStep, hphase, hmode, welcome, serve, dispatch, exchange,
        enterPending, hvalid, enterPtyMode]
    obtain ⟨t, hnext, hterminals⟩ := hnext
    obtain ⟨⟨entered, hentered, hown⟩, -⟩ := hundisturbed _ t (by simp [Loses, OpensTerminal]) hnext
    obtain rfl : [(s.clients + 1, s.spawner)] = entered :=
      List.append_cancel_left (hterminals.symm.trans hentered)
    have hself : s.clients + 1 = s.spawner := hown _ (List.mem_singleton_self _)
    omega
  · exact fun hvalid later t hkept hlater => (undisturbed_run hvalid hlater hkept).2

/-- A server with `-d` on the socket 3. -/
def directSetting : Setting := ⟨.direct, {0, 1, 2}, 3, by decide⟩

/-- A request for a child with a terminal. -/
def foregroundRequest : DaemonRequest :=
  .exec ⟨⟨fun _ => true, 77⟩, true, true⟩ ⟨false, [[97]], []⟩

/-- A client whose request makes a foreground child, and the reply is lost. -/
def lostTerminal : List DaemonEvent := [.accept true true, .serve foregroundRequest false false]

theorem undisturbed_iff_not_stale_lostTerminal :
    ∃ s, (daemon directSetting).run (.init directSetting) lostTerminal = some s ∧
      ¬ ∀ later t, (∀ event ∈ later, ¬ Loses event) → (daemon directSetting).run s later = some t →
        Undisturbed s t := by
  have hopens : OpensTerminal foregroundRequest := by decide
  have hstale : Stale lostTerminal := ⟨[.accept true true], _, [], rfl, hopens, by simp⟩
  exact ⟨_, rfl, fun h =>
    (@undisturbed_iff_not_stale directSetting _ lostTerminal rfl rfl rfl).mp h hstale⟩

/-- A worker that has lost a reply is at its end. -/
theorem undisturbed_of_worker (hmode : setting.mode = .worker) (hs : (daemon setting).Reachable s) :
    (s.phase ≠ .stopped → s.exec.pending.valid = false) ∧ Undisturbed (.init setting) s := by
  refine hs.invariant (P := fun s => (s.phase ≠ .stopped → s.exec.pending.valid = false) ∧
    Undisturbed (.init setting) s) ?_ ?_
  · intro s hstart
    obtain rfl : s = .init setting := hstart
    exact ⟨fun _ => rfl, .of_eq rfl rfl⟩
  · intro s event t hs _ hstep
    have hrunning : s.phase ≠ .stopped := by
      intro hstopped
      cases event <;> simp [daemon, daemonStep, hstopped] at hstep
    have hvalid := hs.1 hrunning
    refine ⟨fun hphase => ?_, hs.2.trans (undisturbed_step hvalid hstep)⟩
    rw [← Bool.not_eq_true, valid_step hstep, hvalid]
    rintro (hloses | ⟨-, ⟨⟩⟩)
    -- the turn that loses a reply ends the process
    rcases daemonStep_cases hstep with ⟨-, -, rfl⟩ | ⟨-, passed, rfl, -⟩ |
      ⟨sockfd, -, ⟨rfl, -⟩ | ⟨request, sent, closes, rfl, rfl⟩⟩
    · exact hphase rfl
    · exact hloses
    · exact hloses
    · cases sent with
      | false => exact hphase (by simp [serve, leave, hmode])
      | true => exact hloses

/-- **No descriptor is lost from sight.** At any time the open descriptors of a process that
runs are those it needs, the socket of its client, the master of the pending terminal, the
masters of overwritten records and what requests that spawn nothing have left open, each
once, and no close has missed. A worker overwrites no record, and keeps its client in
terminals of its own. -/
theorem accounts_of_reachable (hs : (daemon setting).Reachable s) :
    Ledger setting s ∧ (setting.mode = .worker → Undisturbed (.init setting) s) := by
  refine ⟨?_, fun hmode => (undisturbed_of_worker hmode hs).2⟩
  exact hs.invariant (fun s (hstart : s = .init setting) => hstart ▸ accounts_init setting)
    fun _ _ _ hs _ h => accounts_step hs h

/-- A client that leaves a file open before it loses its terminal. -/
def openedThenLost : List DaemonEvent :=
  [.accept true true, .serve (.other {5}) true false, .serve foregroundRequest false false]

theorem accounts_of_reachable_openedThenLost :
    ∃ s, (daemon directSetting).run (.init directSetting) openedThenLost = some s ∧
      Ledger directSetting s :=
  ⟨_, rfl, (accounts_of_reachable
    (@Machine.reachable_of_run _ _ (daemon directSetting) _ _ rfl openedThenLost rfl)).1⟩

end RpcProject.Server
