/-
# The locks of a connection

The socket's lock is held by the call that sends or receives, and a client's
lock by its `spawn` from the call of `REQ_EXEC` to the end of the terminal.
Every step keeps both locks in step with where the calls are.

The two locks overlap during the exchange of `REQ_EXEC` only. While a call is in
terminal mode it holds the lock of its client, which other calls do not take,
and not the lock of the socket, which they do. So the terminal has the socket to
itself if no other call is waiting for the socket when the terminal opens, and
none is begun until it closes, other than a `spawn` of the same client.
-/

import RpcProject.Session.Model

namespace RpcProject.Session

open Foundations Protocol Client

/-! ## Who holds and who waits -/

namespace Phase

def HoldsSocket : Phase → Prop
  | sending _ _ => True
  | receiving _ _ => True
  | _ => False

def WaitsSocket : Phase → Prop
  | awaitSocket _ => True
  | _ => False

def HoldsClient (client : ClientId) : Phase → Prop
  | awaitSocket call => call.client = some client
  | sending call _ => call.client = some client
  | receiving call _ => call.client = some client
  | terminal call _ => call.client = some client
  | _ => False

def WaitsClient (client : ClientId) : Phase → Prop
  | awaitClient call => call.client = some client
  | _ => False

end Phase

namespace State

variable {σ : Type} {P : Peers σ} {s t : State σ} {c u : CallId} {call : Call} {phase : Phase}
  {lock : FairLock CallId} {request : RpcMessage} {client : ClientId}

/-- The lock of the socket knows who sends or receives and who waits to, and
the lock of each client knows its `spawn`s. -/
structure Locks (s : State σ) : Prop where
  socket : s.lock.Follows Phase.HoldsSocket Phase.WaitsSocket s.phase
  client : ∀ k, (s.clientLock k).Follows (Phase.HoldsClient k) (Phase.WaitsClient k) s.phase

theorem locks_initial (process : σ) : (initial process).Locks where
  socket := FairLock.Tracks.free.congr (fun _ => Iff.rfl) fun _ => Iff.rfl
  client _ := FairLock.Tracks.free.congr (fun _ => Iff.rfl) fun _ => Iff.rfl

/-! ## What the steps do to the locks -/

/-- A call moves between phases that hold and wait for the same. -/
theorem Locks.setPhase (h : s.Locks)
    (hholds : phase.HoldsSocket ↔ (s.phase c).HoldsSocket)
    (hwaits : phase.WaitsSocket ↔ (s.phase c).WaitsSocket)
    (hholdsClient : ∀ k, phase.HoldsClient k ↔ (s.phase c).HoldsClient k)
    (hwaitsClient : ∀ k, phase.WaitsClient k ↔ (s.phase c).WaitsClient k) :
    (s.setPhase c phase).Locks where
  socket := h.socket.keep hholds hwaits
  client k := (h.client k).keep (hholdsClient k) (hwaitsClient k)

/-- A step that touches no call. -/
theorem Locks.congr (h : s.Locks) (hlock : t.lock = s.lock) (hclient : t.clientLock = s.clientLock)
    (hphase : t.phase = s.phase) : t.Locks where
  socket := by
    rw [hlock, hphase]
    exact h.socket
  client k := by
    rw [hclient, hphase]
    exact h.client k

/-- The lock of one client changes for one of its `spawn`s; other clients have
nothing to do with it. -/
theorem client_update (client : ClientId) (c : CallId) (h : s.Locks)
    (hclient : ∀ k, k ≠ client → t.clientLock k = s.clientLock k)
    (hphase : t.phase = Function.update s.phase c phase)
    (hone : (t.clientLock client).Follows (Phase.HoldsClient client) (Phase.WaitsClient client)
      t.phase)
    (hholds : ∀ k, k ≠ client → (phase.HoldsClient k ↔ (s.phase c).HoldsClient k))
    (hwaits : ∀ k, k ≠ client → (phase.WaitsClient k ↔ (s.phase c).WaitsClient k)) :
    ∀ k, (t.clientLock k).Follows (Phase.HoldsClient k) (Phase.WaitsClient k) t.phase := by
  intro k
  by_cases hk : k = client
  · exact hk ▸ hone
  · rw [hclient k hk, hphase]
    exact (h.client k).keep (hholds k hk) (hwaits k hk)

/-- A call that is over has released the lock of its client. -/
theorem client_leave (c : CallId) (call : Call) (phase : Phase) (h : s.Locks)
    (hclient : t.clientLock = s.releaseClient call)
    (hphase : t.phase = Function.update s.phase c phase)
    (hheld : ∀ k, (s.phase c).HoldsClient k ↔ call.client = some k)
    (hnone : ∀ k, ¬ (s.phase c).WaitsClient k)
    (hholds : ∀ k, ¬ phase.HoldsClient k) (hwaits : ∀ k, ¬ phase.WaitsClient k) :
    ∀ k, (t.clientLock k).Follows (Phase.HoldsClient k) (Phase.WaitsClient k) t.phase := by
  intro k
  rw [hclient, hphase, releaseClient]
  cases hcall : call.client with
  | none =>
    have hother : ¬ (s.phase c).HoldsClient k := by simp [hheld, hcall]
    exact (h.client k).keep (iff_of_false (hholds k) hother) (iff_of_false (hwaits k) (hnone k))
  | some client =>
    -- `spawn` releases the lock of its own client only
    by_cases hk : k = client
    · subst hk
      simp only [Function.update_self]
      exact (h.client k).release ((hheld k).mpr hcall) (hnone k) (hholds k) (hwaits k)
    · have hother : ¬ (s.phase c).HoldsClient k := by simp [hheld, hcall, Ne.symm hk]
      simp only [Function.update_of_ne hk]
      exact (h.client k).keep (iff_of_false (hholds k) hother) (iff_of_false (hwaits k) (hnone k))

/-- The way a call asks for the lock of the socket, once the locks of the
clients are right for it. -/
theorem locks_acquireSocket (hsocket : s.lock.Follows Phase.HoldsSocket Phase.WaitsSocket s.phase)
    (hholds : ¬ (s.phase c).HoldsSocket) (hwaits : ¬ (s.phase c).WaitsSocket)
    (hclient : ∀ phase, (phase = .awaitSocket call ∨
        phase = .sending call (frame sizeHeader call.request.pack)) →
      ∀ k, (s.clientLock k).Follows (Phase.HoldsClient k) (Phase.WaitsClient k)
        (Function.update s.phase c phase)) :
    (s.acquireSocket c call).Locks := by
  -- the lock is free, or the call joins the queue
  rcases acquireSocket_cases s c call with ⟨lock, hlock, heq⟩ | ⟨-, heq⟩
  · rw [heq]
    exact ⟨hsocket.tryAcquire hlock trivial id, hclient _ (Or.inr rfl)⟩
  · rw [heq]
    exact ⟨hsocket.enqueue hholds hwaits id trivial, hclient _ (Or.inl rfl)⟩

theorem locks_rpcCall (h : s.Locks) (hstep : s.rpcCall c request = some t) : t.Locks := by
  obtain ⟨hidle, -, -, rfl⟩ := rpcCall_eq_some hstep
  apply locks_acquireSocket h.socket
  · simp [hidle, Phase.HoldsSocket]
  · simp [hidle, Phase.WaitsSocket]
  · rintro phase hphase k
    apply (h.client k).keep
    · rcases hphase with rfl | rfl <;> simp [hidle, Phase.HoldsClient]
    · rcases hphase with rfl | rfl <;> simp [hidle, Phase.WaitsClient]

/-- The lock of a client passes to one of its `spawn`s, which asks for the socket. -/
theorem locks_clientLock (h : s.Locks) (hcall : call.client = some client)
    (hholds : ¬ (s.phase c).HoldsSocket) (hwaits : ¬ (s.phase c).WaitsSocket)
    (hnone : ∀ k, ¬ (s.phase c).HoldsClient k)
    (hothers : ∀ k, k ≠ client → ¬ (s.phase c).WaitsClient k)
    (hone : ∀ phase : Phase, phase.HoldsClient client → ¬ phase.WaitsClient client →
      lock.Follows (Phase.HoldsClient client) (Phase.WaitsClient client)
        (Function.update s.phase c phase)) :
    ((s.setClientLock client lock).acquireSocket c call).Locks := by
  apply locks_acquireSocket
  · exact h.socket
  · exact hholds
  · exact hwaits
  · rintro phase hphase k
    -- sending or waiting for the socket, the call holds the lock of its client
    have hnew : ∀ k, phase.HoldsClient k ↔ call.client = some k := by
      rcases hphase with rfl | rfl <;> intro k <;> rfl
    have hnewWaits : ∀ k, ¬ phase.WaitsClient k := by
      rcases hphase with rfl | rfl <;> intro k <;> exact id
    by_cases hk : k = client
    · subst hk
      simp only [setClientLock, Function.update_self]
      exact hone phase ((hnew k).mpr hcall) (hnewWaits k)
    · simp only [setClientLock, Function.update_of_ne hk]
      apply (h.client k).keep
      · rw [hnew, hcall]
        exact iff_of_false (by simpa using Ne.symm hk) (hnone k)
      · exact iff_of_false (hnewWaits k) (hothers k hk)

theorem locks_spawn (h : s.Locks) (hstep : s.spawn c client request = some t) : t.Locks := by
  obtain ⟨hidle, -, -, ⟨lock, hlock, rfl⟩ | ⟨-, rfl⟩⟩ := spawn_eq_some hstep
  · apply locks_clientLock h rfl
    · simp [hidle, Phase.HoldsSocket]
    · simp [hidle, Phase.WaitsSocket]
    · simp [hidle, Phase.HoldsClient]
    · simp [hidle, Phase.WaitsClient]
    · intro phase hholds hwaits
      exact (h.client client).tryAcquire hlock hholds hwaits
  -- the `spawn` joins the queue of its client
  · refine ⟨h.socket.keep ?_ ?_, client_update client c h ?_ rfl ?_ ?_ ?_⟩
    · simp [hidle, Phase.HoldsSocket]
    · simp [hidle, Phase.WaitsSocket]
    · intro k hk
      simp [setPhase, setClientLock, Function.update_of_ne hk]
    · simp only [setPhase, setClientLock, Function.update_self]
      apply (h.client client).enqueue <;> simp [hidle, Phase.HoldsClient, Phase.WaitsClient]
    · simp [hidle, Phase.HoldsClient]
    · intro k hk
      simp [hidle, Phase.WaitsClient, Ne.symm hk]

theorem locks_clientLockGranted (h : s.Locks) (hstep : s.clientLockGranted c = some t) :
    t.Locks := by
  obtain ⟨call, client, lock, hphase, hcall, hlock, rfl⟩ := clientLockGranted_eq_some hstep
  apply locks_clientLock h hcall
  · simp [hphase, Phase.HoldsSocket]
  · simp [hphase, Phase.WaitsSocket]
  · simp [hphase, Phase.HoldsClient]
  · intro k hk
    simp [hphase, Phase.WaitsClient, hcall, Ne.symm hk]
  · intro phase hholds hwaits
    exact (h.client client).grant hlock hholds hwaits

theorem locks_socketLockGranted (h : s.Locks) (hstep : s.socketLockGranted c = some t) :
    t.Locks := by
  obtain ⟨call, lock, hphase, hlock, rfl⟩ := socketLockGranted_eq_some hstep
  refine ⟨h.socket.grant hlock trivial id, fun k => (h.client k).keep ?_ ?_⟩
  · simp [hphase, Phase.HoldsClient]
  · simp [hphase, Phase.WaitsClient]

theorem locks_sockSendall {count : ℕ} (h : s.Locks) (hstep : s.sockSendall c count = some t) :
    t.Locks := by
  obtain ⟨call, rest, hphase, -, -, rfl⟩ := sockSendall_eq_some hstep
  have hup : ({ s with up := s.up ++ marked (Origin.request c) (rest.take count) } : State
      σ).Locks :=
    h.congr rfl rfl rfl
  apply hup.setPhase
  all_goals simp only [hphase]
  · split <;> simp [Phase.HoldsSocket]
  · split <;> simp [Phase.WaitsSocket]
  · intro k
    split <;> simp [Phase.HoldsClient]
  · intro k
    split <;> simp [Phase.WaitsClient]

/-- A call that sends or receives leaves: it gives back both locks. -/
theorem locks_releaseSocket_leave (phase : Phase) (h : s.Locks) (hphase : (s.phase c).HoldsSocket)
    (hheld : ∀ k, (s.phase c).HoldsClient k ↔ call.client = some k)
    (hover : phase = .returned ∨ phase = .raised) :
    (s.releaseSocket.leave c call phase).Locks := by
  -- a call that holds the lock of the socket waits for nothing
  have hwaits : ¬ (s.phase c).WaitsSocket ∧ ∀ k, ¬ (s.phase c).WaitsClient k := by
    cases hp : s.phase c <;> simp_all [Phase.HoldsSocket, Phase.WaitsSocket, Phase.WaitsClient]
  refine ⟨h.socket.release hphase hwaits.1 ?_ ?_,
    client_leave c call phase h rfl rfl hheld hwaits.2 ?_ ?_⟩ <;>
  rcases hover with rfl | rfl <;>
  simp [Phase.HoldsSocket, Phase.WaitsSocket, Phase.HoldsClient, Phase.WaitsClient]

/-- A call in terminal mode leaves: it gives back the lock of its client. -/
theorem locks_leave {got : List DownByte} (h : s.Locks) (hphase : s.phase c = .terminal call got)
    (hover : phase = .returned ∨ phase = .raised) : (s.leave c call phase).Locks := by
  refine ⟨h.socket.keep ?_ ?_, client_leave c call phase h rfl rfl ?_ ?_ ?_ ?_⟩ <;>
  rcases hover with rfl | rfl <;>
  simp [hphase, Phase.HoldsSocket, Phase.WaitsSocket, Phase.HoldsClient, Phase.WaitsClient]

theorem locks_receiveReply {got bytes : List DownByte} (h : s.Locks)
    (hphase : s.phase c = .receiving call got) : (s.receiveReply P c call bytes).Locks := by
  have hholds : (s.phase c).HoldsSocket := by simp [hphase, Phase.HoldsSocket]
  have hheld : ∀ k, (s.phase c).HoldsClient k ↔ call.client = some k := by
    simp [hphase, Phase.HoldsClient]
  rcases receiveReply_cases P s c call bytes with heq | heq | ⟨reply, -, heq⟩
  · rw [heq]
    exact locks_releaseSocket_leave .raised h hholds hheld (Or.inr rfl)
  · rw [heq]
    apply h.setPhase <;>
    simp [hphase, Phase.HoldsSocket, Phase.WaitsSocket, Phase.HoldsClient, Phase.WaitsClient]
  · rw [heq, replyReceived]
    split
    -- the terminal keeps the lock of the client only
    · refine ⟨h.socket.release hholds ?_ ?_ ?_, fun k => (h.client k).keep ?_ ?_⟩ <;>
      simp [hphase, Phase.HoldsSocket, Phase.WaitsSocket, Phase.HoldsClient, Phase.WaitsClient]
    · have hleft := locks_releaseSocket_leave .returned h hholds hheld (Or.inl rfl)
      exact ⟨hleft.socket, hleft.client⟩

theorem locks_receiveTerminal {got bytes : List DownByte} (h : s.Locks)
    (hphase : s.phase c = .terminal call got) : (s.receiveTerminal P c call bytes).Locks := by
  rcases receiveTerminal_cases P s c call bytes with ⟨phase, hover, heq⟩ | ⟨got', heq⟩
  · rw [heq]
    exact locks_leave h hphase hover
  · rw [heq]
    apply h.setPhase <;>
    simp [hphase, Phase.HoldsSocket, Phase.WaitsSocket, Phase.HoldsClient, Phase.WaitsClient]

theorem locks_sockRecv {count : ℕ} (h : s.Locks) (hstep : s.sockRecv P c count = some t) :
    t.Locks := by
  have hdown : (s.takeDown count).Locks := h.congr rfl rfl rfl
  obtain ⟨call, got, -, ⟨hphase, rfl⟩ | ⟨hphase, rfl⟩⟩ := sockRecv_eq_some hstep
  · exact locks_receiveReply hdown hphase
  · exact locks_receiveTerminal hdown hphase

theorem locks_raise (h : s.Locks) (hstep : s.raise c = some t) : t.Locks := by
  unfold raise at hstep
  split at hstep
  · next call hphase =>
    split at hstep
    · cases hstep
    · next client hcall =>
      obtain rfl := Option.some.inj hstep
      refine ⟨h.socket.keep ?_ ?_, client_update client c h ?_ rfl ?_ ?_ ?_⟩
      · simp [hphase, Phase.HoldsSocket]
      · simp [hphase, Phase.WaitsSocket]
      · intro k hk
        simp [setPhase, setClientLock, Function.update_of_ne hk]
      · simp only [setPhase, setClientLock, Function.update_self]
        apply (h.client client).withdraw <;> simp [hphase, Phase.HoldsClient, Phase.WaitsClient]
      · simp [hphase, Phase.HoldsClient]
      · intro k hk
        simp [hphase, Phase.WaitsClient, hcall, Ne.symm hk]
  · next call hphase =>
    obtain rfl := Option.some.inj hstep
    refine ⟨h.socket.withdraw ?_ ?_ ?_,
      client_leave c call .raised h rfl rfl ?_ ?_ ?_ ?_⟩ <;>
    simp [hphase, Phase.HoldsSocket, Phase.WaitsSocket, Phase.HoldsClient, Phase.WaitsClient]
  · next call rest hphase =>
    obtain rfl := Option.some.inj hstep
    apply locks_releaseSocket_leave .raised h _ _ (Or.inr rfl) <;>
    simp [hphase, Phase.HoldsSocket, Phase.HoldsClient]
  · next call got hphase =>
    obtain rfl := Option.some.inj hstep
    apply locks_releaseSocket_leave .raised h _ _ (Or.inr rfl) <;>
    simp [hphase, Phase.HoldsSocket, Phase.HoldsClient]
  · next call got hphase =>
    obtain rfl := Option.some.inj hstep
    exact locks_leave h hphase (Or.inr rfl)
  · cases hstep

/-- **Step lemma.** Every step keeps the locks in step with the calls. -/
theorem locks_step {a : Action} (h : s.Locks) (hstep : step P s a = some t) : t.Locks := by
  induction a using action_cases with
  | server a ha =>
    obtain ⟨hlock, hclient, hphase, -⟩ := step_server hstep ha
    exact h.congr hlock hclient hphase
  | rpcCall c request => exact locks_rpcCall h hstep
  | spawn c client request => exact locks_spawn h hstep
  | clientLockGranted c => exact locks_clientLockGranted h hstep
  | socketLockGranted c => exact locks_socketLockGranted h hstep
  | sockSendall c count => exact locks_sockSendall h hstep
  | sockRecv c count => exact locks_sockRecv h hstep
  | raise c => exact locks_raise h hstep
  | forwardStdin c buf =>
    obtain ⟨call, -, -, rfl⟩ := forwardStdin_eq_some hstep
    exact h.congr rfl rfl rfl

end State

/-- **Run lemma.** In every reachable state the locks know where the calls are. -/
theorem locks_of_reaches {σ : Type} {P : Peers σ} {ok : State σ → Action → Prop} {s : State σ}
    (h : (machine P).Reaches ok s) : s.Locks := by
  refine h.invariant (P := State.Locks) ?_ ?_
  · rintro s ⟨process, rfl⟩
    exact State.locks_initial process
  · intro s a t hlocks _ hstep
    exact State.locks_step hlocks hstep

/-! ## The terminal and the socket -/

namespace Phase

/-- Calls that have nothing to do with the socket. -/
def Aside : Phase → Prop
  | idle => True
  | awaitClient _ => True
  | returned => True
  | raised => True
  | _ => False

/-- Calls in terminal mode. -/
def InTerminal : Phase → Prop
  | terminal _ _ => True
  | _ => False

end Phase

namespace State

variable {σ : Type} {P : Peers σ} {s t : State σ} {c u : CallId} {call : Call} {phase : Phase}
  {got : List DownByte}

/-- With these bytes the reply of a `spawn` is there, and its terminal opens. -/
def OpensAt (P : Peers σ) (s : State σ) (c : CallId) (count : ℕ) : Prop :=
  ∃ call got reply, s.phase c = .receiving call got ∧ call.client.isSome = true ∧
    P.parser.parse (frameBody sizeHeader (unmarked (got ++ s.down.take count))) = some reply ∧
    opensTerminal call.request reply = true

/-- Steps that leave a terminal the socket: none begins a call while it is
open, other than a `spawn` of the same client, which has to wait, and none opens
it while a call waits for the socket. -/
def Undisturbed (P : Peers σ) (s : State σ) : Action → Prop
  | .rpcCall _ _ => ∀ u, ¬ (s.phase u).InTerminal
  | .spawn _ client _ => ∀ u call got, s.phase u = .terminal call got → call.client = some client
  | .clientLockGranted c => ∀ u call got, s.phase u = .terminal call got →
      ∃ own, s.phase c = .awaitClient own ∧ own.client = call.client
  | .sockRecv c count => s.OpensAt P c count → s.lock.waiters = []
  | _ => True

/-- While a terminal is open, every other call keeps aside. -/
def Exclusive (s : State σ) : Prop :=
  ∀ c, (s.phase c).InTerminal → ∀ u, u ≠ c → (s.phase u).Aside

theorem not_aside_of_inTerminal (h : phase.InTerminal) : ¬ phase.Aside := by
  cases phase <;> simp_all [Phase.InTerminal, Phase.Aside]

/-- A call that does not keep aside excludes terminals of other calls. -/
theorem Exclusive.not_inTerminal (h : s.Exclusive) (hc : ¬ (s.phase c).Aside) (hu : u ≠ c) :
    ¬ (s.phase u).InTerminal :=
  fun hterminal => hc (h u hterminal c hu.symm)

theorem Exclusive.congr (h : s.Exclusive) (hphase : t.phase = s.phase) : t.Exclusive := by
  unfold Exclusive
  rw [hphase]
  exact h

/-- A call that steps aside, or stays where it may be. -/
theorem Exclusive.update (h : s.Exclusive) (hphase : t.phase = Function.update s.phase c phase)
    (haside : (∀ u, u ≠ c → ¬ (s.phase u).InTerminal) ∨ phase.Aside)
    (hterminal : phase.InTerminal → ∀ u, u ≠ c → (s.phase u).Aside) : t.Exclusive := by
  -- the terminal may be that of the call itself or of another one
  intro v hv u hu
  rcases phase_update hphase v with ⟨rfl, hnew⟩ | ⟨hvc, hold⟩
  · rw [hnew] at hv
    rw [((phase_update hphase u).resolve_left fun heq => hu heq.1).2]
    exact hterminal hv u hu
  · rw [hold] at hv
    rcases phase_update hphase u with ⟨rfl, hnew⟩ | ⟨-, hother⟩
    · rw [hnew]
      exact haside.resolve_left fun hnone => hnone v hvc hv
    · rw [hother]
      exact h v hv u hu

/-- A call that asks for the socket while no terminal is open. -/
theorem Exclusive.acquireSocket (h : s.Exclusive) (hnone : ∀ u, u ≠ c → ¬ (s.phase u).InTerminal) :
    (s.acquireSocket c call).Exclusive := by
  rcases acquireSocket_cases s c call with ⟨lock, -, heq⟩ | ⟨-, heq⟩
  · rw [heq]
    exact h.update rfl (Or.inl hnone) False.elim
  · rw [heq]
    exact h.update rfl (Or.inl hnone) False.elim

/-- A terminal of a client keeps every other `spawn` of that client waiting. -/
theorem Locks.client_held (h : s.Locks) {client : ClientId}
    (hphase : s.phase u = .terminal call got)
    (hcall : call.client = some client) :
    (s.clientLock client).tryAcquire c = none ∧ (s.clientLock client).grant c = none := by
  have hheld : (s.phase u).HoldsClient client := by
    rw [hphase]
    exact hcall
  exact ⟨(h.client client).tryAcquire_eq_none hheld, (h.client client).grant_eq_none hheld⟩

theorem exclusive_spawn {client : ClientId} {request : RpcMessage} (hlocks : s.Locks)
    (h : s.Exclusive) (hok : s.Undisturbed P (.spawn c client request))
    (hstep : s.spawn c client request = some t) : t.Exclusive := by
  obtain ⟨hidle, -, -, ⟨lock, hlock, rfl⟩ | ⟨-, rfl⟩⟩ := spawn_eq_some hstep
  · apply Exclusive.acquireSocket (s := s.setClientLock client lock) (h.congr rfl)
    intro u _ hu
    -- an open terminal is one of the same client and holds its lock
    cases hphase : s.phase u with
    | terminal call got =>
      have hheld := (hlocks.client_held (c := c) hphase (hok u call got hphase)).1
      rw [hheld] at hlock
      cases hlock
    | _ =>
      change (s.phase u).InTerminal at hu
      rw [hphase] at hu
      exact hu
  · exact h.update rfl (Or.inr trivial) False.elim

theorem exclusive_clientLockGranted (hlocks : s.Locks) (h : s.Exclusive)
    (hok : s.Undisturbed P (.clientLockGranted c)) (hstep : s.clientLockGranted c = some t) :
    t.Exclusive := by
  obtain ⟨call, client, lock, hphase, hcall, hlock, rfl⟩ := clientLockGranted_eq_some hstep
  apply Exclusive.acquireSocket (s := s.setClientLock client lock) (h.congr rfl)
  intro u _ hu
  cases hterminal : s.phase u with
  | terminal other got =>
    obtain ⟨own, hown, hsame⟩ := hok u other got hterminal
    obtain rfl : call = own := by
      rw [hphase] at hown
      exact Phase.awaitClient.inj hown
    have hheld := (hlocks.client_held (c := c) hterminal (hsame ▸ hcall)).2
    rw [hheld] at hlock
    cases hlock
  | _ =>
    change (s.phase u).InTerminal at hu
    rw [hterminal] at hu
    exact hu

/-- When a terminal opens, the lock of the socket is all that keeps others away,
so nobody may be waiting for it. -/
theorem aside_of_opening (hlocks : s.Locks) (h : s.Exclusive)
    (hphase : s.phase c = .receiving call got)
    (hwaiters : s.lock.waiters = []) (hu : u ≠ c) : (s.phase u).Aside := by
  -- the call that receives holds the lock itself
  have hholder : ¬ (s.phase u).HoldsSocket := fun hholds =>
    hu (hlocks.socket.unique hholds (by simp [hphase, Phase.HoldsSocket]))
  -- and nobody is queued for it
  have hwaiter : ¬ (s.phase u).WaitsSocket := by
    rw [← hlocks.socket.mem_waiters_iff u, hwaiters]
    exact List.not_mem_nil
  have hterminal : ¬ (s.phase u).InTerminal :=
    h.not_inTerminal (by simp [hphase, Phase.Aside]) hu
  cases hp : s.phase u <;>
    simp_all [Phase.HoldsSocket, Phase.WaitsSocket, Phase.InTerminal, Phase.Aside]

theorem exclusive_sockRecv {count : ℕ} (hlocks : s.Locks) (h : s.Exclusive)
    (hok : s.Undisturbed P (.sockRecv c count)) (hstep : s.sockRecv P c count = some t) :
    t.Exclusive := by
  have hdown : (s.takeDown count).Exclusive := h.congr rfl
  obtain ⟨call, got, -, ⟨hphase, rfl⟩ | ⟨hphase, rfl⟩⟩ := sockRecv_eq_some hstep
  · have hnone : ∀ u, u ≠ c → ¬ (s.phase u).InTerminal := fun u hu =>
      h.not_inTerminal (by simp [hphase, Phase.Aside]) hu
    rcases receiveReply_cases P (s.takeDown count) c call (got ++ s.down.take count) with
      heq | heq | ⟨reply, hreply, heq⟩
    · rw [heq]
      exact hdown.update rfl (Or.inr trivial) False.elim
    · rw [heq]
      exact hdown.update rfl (Or.inl hnone) False.elim
    · rw [heq, replyReceived]
      split
      · next hopens =>
        rw [Bool.and_eq_true] at hopens
        -- the terminal opens, so the discipline speaks
        have hwaiters := hok ⟨call, got, reply, hphase, hopens.1, hreply, hopens.2⟩
        have haside : ∀ u, u ≠ c → (s.phase u).Aside := fun u hu =>
          aside_of_opening hlocks h hphase hwaiters hu
        exact hdown.update rfl (Or.inl hnone) fun _ => haside
      · exact hdown.update rfl (Or.inr trivial) False.elim
  · have haside : ∀ u, u ≠ c → (s.phase u).Aside := fun u hu =>
      h c (by simp [hphase, Phase.InTerminal]) u hu
    rcases receiveTerminal_cases P (s.takeDown count) c call (got ++ s.down.take count) with
      ⟨phase, rfl | rfl, heq⟩ | ⟨got', heq⟩
    · rw [heq]
      exact hdown.update rfl (Or.inr trivial) False.elim
    · rw [heq]
      exact hdown.update rfl (Or.inr trivial) False.elim
    · rw [heq]
      exact hdown.update rfl
        (Or.inl fun u hu hterminal => not_aside_of_inTerminal hterminal (haside u hu))
        fun _ => haside

theorem exclusive_raise (h : s.Exclusive) (hstep : s.raise c = some t) : t.Exclusive := by
  obtain ⟨lock, clientLock, rfl⟩ := raise_eq_some hstep
  exact h.update rfl (Or.inr trivial) False.elim

/-- **Step lemma.** An undisturbed step keeps the terminal to itself. -/
theorem exclusive_step {a : Action} (hlocks : s.Locks) (h : s.Exclusive) (hok : s.Undisturbed P a)
    (hstep : step P s a = some t) : t.Exclusive := by
  induction a using action_cases with
  | server a ha => exact h.congr (step_server hstep ha).2.2.1
  | rpcCall c request =>
    obtain ⟨-, -, -, rfl⟩ := rpcCall_eq_some hstep
    exact h.acquireSocket fun u _ => hok u
  | spawn c client request => exact exclusive_spawn hlocks h hok hstep
  | clientLockGranted c => exact exclusive_clientLockGranted hlocks h hok hstep
  | socketLockGranted c =>
    obtain ⟨call, lock, hphase, -, rfl⟩ := socketLockGranted_eq_some hstep
    exact h.update rfl
      (Or.inl fun u hu => h.not_inTerminal (by simp [hphase, Phase.Aside]) hu) False.elim
  | sockSendall c count =>
    obtain ⟨call, rest, hphase, -, -, rfl⟩ := sockSendall_eq_some hstep
    refine h.update rfl
      (Or.inl fun u hu => h.not_inTerminal (by simp [hphase, Phase.Aside]) hu) ?_
    split <;> exact False.elim
  | sockRecv c count => exact exclusive_sockRecv hlocks h hok hstep
  | raise c => exact exclusive_raise h hstep
  | forwardStdin c buf =>
    obtain ⟨call, -, -, rfl⟩ := forwardStdin_eq_some hstep
    exact h.congr rfl

end State

open State

/-- **Run lemma.** In every undisturbed run an open terminal is alone. -/
theorem exclusive_of_reaches {σ : Type} {P : Peers σ} {ok : State σ → Action → Prop}
    {s : State σ} (hok : ∀ s a, ok s a → s.Undisturbed P a) (h : (machine P).Reaches ok s) :
    s.Exclusive := by
  refine h.invariant_of (P := Locks) (Q := Exclusive) (fun _ => locks_of_reaches) ?_ ?_
  · rintro s ⟨process, rfl⟩ c hc
    exact hc.elim
  · intro s a t hlocks hexclusive ha hstep
    exact exclusive_step hlocks hexclusive (hok s a ha) hstep

namespace State

variable {σ : Type} {P : Peers σ} {s t : State σ} {c u : CallId}

/-- A call that keeps aside moves no byte of the streams in its next step, and
receives nothing. -/
theorem streams_of_aside {a : Action} (haside : (s.phase u).Aside) (ha : actor a = some u)
    (hstep : step P s a = some t) :
    t.up = s.up ∧ t.down = s.down ∧ t.delivered = s.delivered := by
  -- asking for the lock of the socket sends nothing, whether it is free or not
  have hacquire : ∀ (s : State σ) (call : Call), (s.acquireSocket u call).up = s.up ∧
      (s.acquireSocket u call).down = s.down ∧
      (s.acquireSocket u call).delivered = s.delivered := by
    intro s call
    rcases acquireSocket_cases s u call with ⟨lock, -, heq⟩ | ⟨-, heq⟩ <;> rw [heq] <;>
      exact ⟨rfl, rfl, rfl⟩
  cases a with
  | rpcCall c request =>
    obtain rfl : c = u := Option.some.inj ha
    obtain ⟨-, -, -, rfl⟩ := rpcCall_eq_some hstep
    exact hacquire s _
  | spawn c client request =>
    obtain rfl : c = u := Option.some.inj ha
    obtain ⟨-, -, -, ⟨lock, -, rfl⟩ | ⟨-, rfl⟩⟩ := spawn_eq_some hstep
    · exact hacquire _ _
    · exact ⟨rfl, rfl, rfl⟩
  | clientLockGranted c =>
    obtain rfl : c = u := Option.some.inj ha
    obtain ⟨call, client, lock, -, -, -, rfl⟩ := clientLockGranted_eq_some hstep
    exact hacquire _ _
  | socketLockGranted c =>
    obtain rfl : c = u := Option.some.inj ha
    obtain ⟨call, lock, hphase, -⟩ := socketLockGranted_eq_some hstep
    simp [hphase, Phase.Aside] at haside
  | sockSendall c count =>
    obtain rfl : c = u := Option.some.inj ha
    obtain ⟨call, rest, hphase, -⟩ := sockSendall_eq_some hstep
    simp [hphase, Phase.Aside] at haside
  | sockRecv c count =>
    obtain rfl : c = u := Option.some.inj ha
    obtain ⟨call, got, -, ⟨hphase, -⟩ | ⟨hphase, -⟩⟩ := sockRecv_eq_some hstep <;>
      simp [hphase, Phase.Aside] at haside
  | raise c =>
    obtain rfl : c = u := Option.some.inj ha
    obtain ⟨lock, clientLock, rfl⟩ := raise_eq_some hstep
    exact ⟨rfl, rfl, rfl⟩
  | forwardStdin c buf =>
    obtain rfl : c = u := Option.some.inj ha
    obtain ⟨call, hphase, -⟩ := forwardStdin_eq_some hstep
    simp [hphase, Phase.Aside] at haside
  | serverRecv count readBack => cases ha
  | childOutput buf => cases ha
  | childInput count => cases ha
  | childRefuses count readBack => cases ha
  | childExit status readBack => cases ha
  | serverDies => cases ha

end State

/-- **Exclusion.** In every run whose steps leave the terminal undisturbed, no
step of another call sends bytes on the socket or receives any from it while a
call is in terminal mode. -/
theorem terminal_has_socket {σ : Type} {P : Peers σ} {s t : State σ} {c u : CallId} {a : Action}
    (h : (machine P).Reaches (State.Undisturbed P) s) (hterminal : (s.phase c).InTerminal)
    (hstep : step P s a = some t) (ha : actor a = some u) (hu : u ≠ c) :
    t.up = s.up ∧ t.down = s.down ∧ t.delivered = s.delivered :=
  streams_of_aside (exclusive_of_reaches (fun _ _ => id) h c hterminal u hu) ha hstep

/-- A terminal is open and has received the size of a message, and another call
is begun: it finds the lock of the socket free and sends. -/
theorem not_terminal_has_socket :
    ¬ ∀ (σ : Type) (P : Peers σ) (s t : State σ) (c u : CallId) (a : Action),
      (machine P).Reachable s → (s.phase c).InTerminal → step P s a = some t →
      actor a = some u → u ≠ c → t.up = s.up ∧ t.down = s.down ∧ t.delivered = s.delivered := by
  intro h
  have hrun : ((machine quietPeers).run (initial ()) (openTerminal ++
      [.childOutput [104, 105], .sockRecv 0 8, .rpcCall 1 (bareRequest .reqPeek)])).map
        (fun s => (s.phase 0, s.up, (step quietPeers s (.sockSendall 1 1)).map State.up)) =
      some (.terminal ⟨bareRequest .reqExec, some 0⟩
        (marked Source.terminal [4, 0, 0, 0, 0, 0, 0, 0]), [], some [(9, .request 1)]) := by
    decide
  obtain ⟨s, hs, hproj⟩ := Option.map_eq_some_iff.mp hrun
  obtain ⟨hphase, hup, hsend⟩ : s.phase 0 = _ ∧ s.up = _ ∧ _ = _ := by
    simpa only [Prod.mk.injEq] using hproj
  obtain ⟨t, ht, htup⟩ := Option.map_eq_some_iff.mp hsend
  have hsame := (h Unit quietPeers s t 0 1 _ (Machine.reachable_of_run ⟨(), rfl⟩ hs)
    (by simp [hphase, Phase.InTerminal]) ht rfl (by decide)).1
  rw [htup, hup] at hsame
  cases hsame

/-- A test for undisturbed steps: no call begins, and nobody waits for the socket. -/
def unqueued {σ : Type} (s : State σ) : Action → Bool
  | .sockSendall _ _ => true
  | .serverRecv _ _ => true
  | .sockRecv _ _ => s.lock.waiters.isEmpty
  | _ => false

theorem undisturbed_of_unqueued {σ : Type} {P : Peers σ} {s : State σ} {a : Action}
    (h : unqueued s a = true) : s.Undisturbed P a := by
  cases a with
  | sockRecv c count => exact fun _ => List.isEmpty_iff.mp h
  | sockSendall c count => trivial
  | serverRecv count readBack => trivial
  | _ => cases h

/-- The same terminal, and a second `spawn` of its client is begun: it waits. -/
theorem terminal_has_socket_second_spawn :
    ∃ s t, (machine quietPeers).run (initial ()) openTerminal = some s ∧
      step quietPeers s (.spawn 1 0 (bareRequest .reqExec)) = some t ∧
      t.up = s.up ∧ t.down = s.down ∧ t.delivered = s.delivered := by
  have hrun : ((machine quietPeers).run (initial ()) openTerminal).map
      (fun s => (s.phase 0, (step quietPeers s (.spawn 1 0 (bareRequest .reqExec))).isSome)) =
      some (.terminal ⟨bareRequest .reqExec, some 0⟩ [], true) := by
    decide
  obtain ⟨s, hs, hproj⟩ := Option.map_eq_some_iff.mp hrun
  obtain ⟨hphase, hspawn⟩ := Prod.mk.inj hproj
  obtain ⟨t, ht⟩ := Option.isSome_iff_exists.mp hspawn
  -- no call is in terminal mode at first, and nobody ever waits for the socket
  have hfirst : (initial ()).Undisturbed quietPeers (.spawn 0 0 (bareRequest .reqExec)) := by
    intro u call got hnone
    cases hnone
  have hstart : (machine quietPeers).Reaches (Undisturbed quietPeers) (initial ()) :=
    .start ⟨(), rfl⟩
  have hreaches := hstart.of_step_passes (fun _ _ => undisturbed_of_unqueued) hfirst (by decide) hs
  have hterminal : (s.phase 0).InTerminal := by simp [hphase, Phase.InTerminal]
  exact ⟨s, t, hs, ht, terminal_has_socket hreaches hterminal ht rfl (by decide)⟩

end RpcProject.Session
