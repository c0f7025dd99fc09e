/-
# The terminal loop on the connection

The connection describes the server's terminal mode by what it does to the
streams: it sends output, reads input for the child, and ends with an exit code
or without one. The function `enter_pty_mode` does just that. Every run of it
with a client that stays connected is a run of the connection in which the
server sends the same messages, reads the same bytes and ends in the same way.
-/

import RpcProject.Session.Streams

namespace RpcProject.Session

open Foundations Protocol Server State

variable {σ : Type} {P : Peers σ} {s t : State σ} {p q : PtyState} {direct readBack : Bool}
  {input : Bytes} {siblings : Siblings}

/-- What the loop receives from the client with an event. -/
def received : PtyEvent → Bytes
  | .turn _ (some (bytes, _)) => bytes
  | _ => []

/-- Where `handle_client` is while the function is in a phase and after it. -/
def modeOf (readBack : Bool) : PtyPhase → ServerMode
  | .looping => .terminal
  | .blocked => .terminal
  | .leaving => .terminal
  | .reporting _ => .terminal
  | .finished _ => afterRequest readBack
  | .aborted => afterRequest readBack

/-- The connection, which was in state `s` when the function was entered, shows
in state `t` what the function has done since: `input` is what it has received. -/
structure Shows (s : State σ) (readBack : Bool) (input : Bytes) (p : PtyState) (t : State σ) :
    Prop where
  mode : t.mode = modeOf readBack p.phase
  down : t.down = s.down ++ terminalFrames p.sent
  up : t.up = s.up.drop input.length
  childInput : t.childInput = s.childInput ++ s.up.take input.length

/-- Some steps of the server lead to a state that shows so much. -/
def ShowsNext (P : Peers σ) (s t : State σ) (readBack : Bool) (input : Bytes) (q : PtyState) :
    Prop :=
  ∃ acts u, (machine P).run t acts = some u ∧ (∀ a ∈ acts, actor a = none) ∧
    Shows s readBack input q u

/-- What the connection does not show may change freely. -/
theorem Shows.silent (h : Shows s readBack input p t) (hsent : q.sent = p.sent)
    (hphase : modeOf readBack q.phase = modeOf readBack p.phase) :
    ShowsNext P s t readBack input q :=
  ⟨[], t, rfl, fun _ ha => absurd ha List.not_mem_nil,
    h.mode.trans hphase.symm, hsent ▸ h.down, h.up, h.childInput⟩

/-- One step of the server. -/
theorem showsNext_step {a : Action} {u : State σ} (hstep : step P t a = some u)
    (ha : actor a = none) (hu : Shows s readBack input q u) : ShowsNext P s t readBack input q := by
  refine ⟨[a], u, ?_, ?_, hu⟩
  · rw [Machine.run_cons, show (machine P).step t a = some u from hstep]
    rfl
  · intro b hb
    rw [List.mem_singleton.mp hb]
    exact ha

/-- Steps of the server that follow one another. -/
theorem ShowsNext.trans {input' : Bytes} (h : ShowsNext P s t readBack input p)
    (hnext : ∀ u, Shows s readBack input p u → ShowsNext P s u readBack input' q) :
    ShowsNext P s t readBack input' q := by
  obtain ⟨acts, u, hrun, hacts, hu⟩ := h
  obtain ⟨acts', v, hrun', hacts', hv⟩ := hnext u hu
  refine ⟨acts ++ acts', v, ?_, ?_, hv⟩
  · rw [Machine.run_append, hrun]
    exact hrun'
  · intro a ha
    rcases List.mem_append.mp ha with ha | ha
    · exact hacts a ha
    · exact hacts' a ha

/-- The loop serves the master. -/
theorem shows_output {output : Option Bytes} (h : Shows s readBack input p t)
    (hphase : p.phase = .looping) (hout : forwardOutput p output = some q) :
    ShowsNext P s t readBack input q := by
  cases output with
  | none =>
    obtain rfl := Option.some.inj hout
    exact h.silent rfl rfl
  | some bytes =>
    rw [forwardOutput] at hout
    split at hout
    · next fits =>
      obtain rfl := Option.some.inj hout
      have hmode : t.mode = .terminal := by rw [h.mode, hphase, modeOf]
      refine showsNext_step (a := .childOutput bytes) (if_pos ⟨hmode, fits⟩) rfl ?_
      refine ⟨h.mode, ?_, h.up, h.childInput⟩
      rw [terminalFrames_append, terminalFrames_singleton, ← List.append_assoc, ← h.down]
    · cases hout

/-- The loop reads some input, and the bytes go from the stream to the child. -/
theorem Shows.readInput {bytes : Bytes} (h : Shows s readBack input p t)
    (hup : input.length + bytes.length ≤ s.up.length) :
    bytes.length ≤ t.up.length ∧
      (t.readInput bytes.length).up = s.up.drop (input ++ bytes).length ∧
      (t.readInput bytes.length).childInput =
        s.childInput ++ s.up.take (input ++ bytes).length := by
  refine ⟨?_, ?_, ?_⟩
  · rw [h.up, List.length_drop]
    omega
  · change t.up.drop bytes.length = _
    rw [h.up, List.drop_drop, List.length_append]
  · change t.childInput ++ t.up.take bytes.length = _
    rw [h.childInput, h.up, List.append_assoc, List.length_append, List.take_add]

/-- The loop serves the client. -/
theorem shows_input {output : Option Bytes} {sent : Option (Bytes × List WriteResult)}
    (h : Shows s readBack input p t) (hphase : p.phase = .looping)
    (hin : forwardInput p sent = some q)
    (hup : input.length + (received (.turn output sent)).length ≤ s.up.length) :
    ShowsNext P s t readBack (input ++ received (.turn output sent)) q := by
  cases sent with
  | none =>
    obtain rfl := Option.some.inj hin
    simp only [received, List.append_nil]
    exact h.silent rfl rfl
  | some pair =>
    obtain ⟨bytes, results⟩ := pair
    rw [forwardInput] at hin
    split at hin
    · next fits =>
      obtain ⟨⟨written, last⟩, -, rfl⟩ := Option.map_eq_some_iff.mp hin
      have hmode : t.mode = .terminal := by rw [h.mode, hphase, modeOf]
      obtain ⟨hcount, hdrop, htake⟩ := h.readInput hup
      have hguard : t.mode = .terminal ∧ 0 < bytes.length ∧ bytes.length ≤ rpcPtyBufferSize ∧
          bytes.length ≤ t.up.length :=
        ⟨hmode, List.length_pos_iff.mpr fits.1, fits.2, hcount⟩
      -- a failed write ends the function without an exit code, one that blocks does not end it
      cases last with
      | all =>
        exact showsNext_step (a := .childInput bytes.length) (if_pos hguard) rfl
          ⟨hmode, h.down, hdrop, htake⟩
      | blocked =>
        exact showsNext_step (a := .childInput bytes.length) (if_pos hguard) rfl
          ⟨hmode, h.down, hdrop, htake⟩
      | failed =>
        exact showsNext_step (a := .childRefuses bytes.length readBack) (if_pos hguard) rfl
          ⟨rfl, h.down, hdrop, htake⟩
    · cases hin

/-- The connection takes any exit code, also one that the handler has spoilt. -/
theorem shows_finish (h : Shows s readBack input p t)
    (hstep : ptyStep direct p (.finish true) = some q) : ShowsNext P s t readBack input q := by
  rw [ptyStep] at hstep
  split at hstep
  · next fetched hphase _ =>
    obtain rfl := Option.some.inj hstep
    have hmode : t.mode = .terminal := by rw [h.mode, hphase, modeOf]
    apply showsNext_step (a := .childExit fetched readBack) (if_pos hmode) rfl
    refine ⟨rfl, ?_, h.up, h.childInput⟩
    change t.down ++ terminalFrame (.exitCode fetched) =
      s.down ++ terminalFrames (p.sent ++ [.exitCode fetched])
    rw [terminalFrames_append, terminalFrames_singleton, ← List.append_assoc, ← h.down]
  · cases hstep

/-- The loop ends, and `waitpid` comes next. -/
theorem Shows.leaves (h : Shows s readBack input p t)
    (hstep : (if p.At .looping then some { p with phase := .leaving } else none) = some q) :
    ShowsNext P s t readBack input q := by
  split at hstep
  · next hat =>
    obtain rfl := Option.some.inj hstep
    exact h.silent rfl (by rw [hat.1]; rfl)
  · cases hstep

/-- What happens outside the function does not show. -/
theorem Shows.aside {event : PtyEvent} (h : Shows s readBack input p t)
    (hsteps : StepsAside event p q) : ShowsNext P s t readBack input q :=
  h.silent hsteps.sent (by rw [hsteps.phase])

/-- **Step lemma.** What an event of the loop does, steps of the server show. -/
theorem shows_event {event : PtyEvent} (h : Shows s readBack input p t)
    (hconnected : event.Connected) (hstep : ptyStep direct p event = some q)
    (hup : input.length + (received event).length ≤ s.up.length) :
    ShowsNext P s t readBack (input ++ received event) q := by
  cases event with
  | turn output sent =>
    rw [ptyStep] at hstep
    split at hstep
    · next hready =>
      obtain ⟨p₁, hout, hin⟩ := Option.bind_eq_some_iff.mp hstep
      have hphase : p₁.phase = .looping := by
        obtain ⟨pieces, rfl⟩ := forwardOutput_eq_some hout
        exact hready.1.1
      -- that the child is served does not show
      have hserved := @Shows.silent _ P _ _ _ { p with child := p.child.served } _ _ h rfl rfl
      exact (hserved.trans fun u hu => shows_output hu hready.1.1 hout).trans
        fun u hu => shows_input hu hphase hin hup
    · cases hstep
  | finish sent =>
    obtain rfl : sent = true := hconnected
    simp only [received, List.append_nil]
    exact shows_finish h hstep
  | sendFails output => exact hconnected.elim
  | clientEnds output => exact hconnected.elim
  | masterEnds =>
    simp only [received, List.append_nil]
    exact h.leaves hstep
  | selectFails =>
    simp only [received, List.append_nil]
    exact h.leaves hstep
  | waitpid =>
    simp only [received, List.append_nil]
    rw [ptyStep] at hstep
    split at hstep
    · next hat =>
      split at hstep
      · obtain rfl := Option.some.inj hstep
        exact h.silent rfl (by rw [hat.1]; rfl)
      · cases hstep
    · cases hstep
  | _ =>
    simp only [received, List.append_nil]
    refine h.aside (ptyStep_aside ?_ hstep)
    trivial

/-- **The loop on the connection.** Every run of `enter_pty_mode` with a
connected client that has sent all that the run receives is a run of the server
on the connection. -/
theorem shows_run {events : List PtyEvent} (hmode : s.mode = .terminal)
    (hrun : (ptyMachine direct).run (ptyStart siblings) events = some p)
    (hconnected : ∀ event ∈ events, event.Connected)
    (hup : (events.flatMap received).length ≤ s.up.length) :
    ShowsNext P s s readBack (events.flatMap received) p := by
  refine Machine.run_invariant (M := ptyMachine direct)
    (P := fun events p => (∀ event ∈ events, event.Connected) →
      (events.flatMap received).length ≤ s.up.length →
      ShowsNext P s s readBack (events.flatMap received) p) ?_ ?_ hrun hconnected hup
  · intro _ _
    refine ⟨[], s, rfl, fun _ ha => absurd ha List.not_mem_nil, hmode, ?_, rfl, ?_⟩
    · exact (List.append_nil _).symm
    · exact (List.append_nil _).symm
  · intro events p event q ih hstep hconnected hup
    rw [List.flatMap_append, List.flatMap_singleton] at hup ⊢
    rw [List.length_append] at hup
    -- the run so far, and then the event
    have hso_far := ih (fun e he => hconnected e (List.mem_append_left _ he))
      (le_trans (Nat.le_add_right _ _) hup)
    exact hso_far.trans fun u hu => shows_event hu (hconnected event (by simp)) hstep hup

end RpcProject.Session
