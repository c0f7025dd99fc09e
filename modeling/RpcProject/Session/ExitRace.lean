/-
# The end of a terminal

The server leaves its terminal mode when the child is at its end. The client
forwards terminal input until it has received the exit code. Neither waits for
the other, so input may still be on its way when the server goes back to reading
requests, and it is then read as one.

When the terminal mode ends with all input read, and no input is forwarded
afterwards, all of it has gone to the terminal mode, and the server finds
requests only.
-/

import RpcProject.Session.Streams

namespace RpcProject.Session

open Foundations Protocol Client

/-- The terminal input among the bytes that were sent to the server. -/
def inputs (bytes : List UpByte) : List UpByte := bytes.filter fun b => b.2.IsInput

section Inputs

variable {bytes more : List UpByte} {c : CallId} {buf : Bytes}

@[simp] theorem inputs_append : inputs (bytes ++ more) = inputs bytes ++ inputs more :=
  List.filter_append _ _

theorem inputs_eq_nil_iff : inputs bytes = [] ↔ ∀ b ∈ bytes, ¬ b.2.IsInput := by
  simp [inputs, List.filter_eq_nil_iff]

@[simp] theorem inputs_request : inputs (marked (.request c) buf) = [] := by
  rw [inputs_eq_nil_iff]
  intro b hb
  rw [mark_of_mem hb]
  exact id

@[simp] theorem inputs_input : inputs (marked (.input c) buf) = marked (.input c) buf := by
  rw [inputs, List.filter_eq_self]
  intro b hb
  rw [mark_of_mem hb]
  rfl

theorem inputs_take_drop (count : ℕ) :
    inputs (bytes.take count) ++ inputs (bytes.drop count) = inputs bytes := by
  rw [← inputs_append, List.take_append_drop]

end Inputs

namespace State

variable {σ : Type} {P : Peers σ} {s t : State σ} {c : CallId} {a : Action} {count : ℕ}
  {readBack : Bool}

/-- Terminal input is read in the server's terminal mode only: `handle_client`
has read none of it, all of it was read before `handle_client` reads on, and
what `handle_client` will read is from requests. -/
structure InputStaysInTerminal (s : State σ) : Prop where
  consumed : ∀ b ∈ s.consumed, ¬ b.2.IsInput
  read : ∀ got, s.mode = .serving got → inputs s.childInput = s.forwarded
  next : ∀ got, s.mode = .serving got → ∀ b ∈ s.up, ¬ b.2.IsInput

/-- The invariant: no input was read by `handle_client` or is there for it, and
none was lost. -/
structure InputKept (s : State σ) : Prop where
  consumed : inputs s.consumed = []
  forwarded : s.forwarded = inputs s.childInput ++ inputs s.up
  next : ∀ got, s.mode = .serving got → inputs s.up = []

theorem inputKept_initial (process : σ) : (initial process).InputKept where
  consumed := rfl
  forwarded := rfl
  next _ _ := rfl

theorem InputKept.inputStaysInTerminal (h : s.InputKept) : s.InputStaysInTerminal where
  consumed := inputs_eq_nil_iff.mp h.consumed
  read got hmode := by rw [h.forwarded, h.next got hmode, List.append_nil]
  next got hmode := inputs_eq_nil_iff.mp (h.next got hmode)

theorem InputKept.congr (h : s.InputKept) (hmode : t.mode = s.mode) (hup : t.up = s.up)
    (hconsumed : t.consumed = s.consumed) (hforwarded : t.forwarded = s.forwarded)
    (hinput : t.childInput = s.childInput) : t.InputKept where
  consumed := hconsumed ▸ h.consumed
  forwarded := by rw [hforwarded, hinput, hup, h.forwarded]
  next := by
    rw [hmode, hup]
    exact h.next

theorem inputKept_sockSendall (h : s.InputKept) (hstep : s.sockSendall c count = some t) :
    t.InputKept := by
  obtain ⟨call, rest, -, -, -, rfl⟩ := sockSendall_eq_some hstep
  refine ⟨h.consumed, ?_, ?_⟩
  · simpa [setPhase] using h.forwarded
  · simpa [setPhase] using h.next

/-- Input is forwarded while the server is in terminal mode. -/
theorem inputKept_forwardStdin {buf : Bytes} (h : s.InputKept)
    (hok : s.DrainsInput (.forwardStdin c buf)) (hstep : s.forwardStdin c buf = some t) :
    t.InputKept := by
  obtain ⟨call, -, -, rfl⟩ := forwardStdin_eq_some hstep
  refine ⟨h.consumed, ?_, ?_⟩
  · simp [h.forwarded]
  · intro got hmode
    cases hmode.symm.trans (hok : s.mode = .terminal)

/-- The server reads from a stream without input. -/
theorem inputKept_consume {got : List UpByte} (h : s.InputKept) (hmode : s.mode = .serving got)
    (hup : t.up = s.up.drop count) (hconsumed : t.consumed = s.consumed ++ s.up.take count)
    (hforwarded : t.forwarded = s.forwarded) (hinput : t.childInput = s.childInput) :
    t.InputKept := by
  -- there is no input on the stream, so none in either part of it
  obtain ⟨htake, hdrop⟩ : inputs (s.up.take count) = [] ∧ inputs (s.up.drop count) = [] := by
    rw [← List.append_eq_nil_iff, inputs_take_drop]
    exact h.next got hmode
  refine ⟨?_, ?_, fun _ _ => hup ▸ hdrop⟩
  · rw [hconsumed, inputs_append, h.consumed, htake, List.append_nil]
  · rw [hforwarded, hinput, hup, hdrop, h.forwarded, h.next got hmode]

theorem inputKept_serverRecv (h : s.InputKept) (hstep : s.serverRecv P count readBack = some t) :
    t.InputKept := by
  obtain ⟨got, hmode, -, -, -, rfl⟩ := serverRecv_eq_some hstep
  split
  · rcases handleRequest_cases (s.consume count) P (got ++ s.up.take count) readBack with
      heq | ⟨request, -, heq⟩ <;> rw [heq] <;> exact inputKept_consume h hmode rfl rfl rfl rfl
  · exact inputKept_consume h hmode rfl rfl rfl rfl

/-- The terminal mode takes input from the stream in order. -/
theorem InputKept.readInput (h : s.InputKept) (count : ℕ) :
    s.forwarded = inputs (s.readInput count).childInput ++ inputs (s.readInput count).up := by
  change _ = inputs (s.childInput ++ s.up.take count) ++ inputs (s.up.drop count)
  rw [inputs_append, List.append_assoc, inputs_take_drop, h.forwarded]

theorem InputKept.acquireSocket {call : Call} (h : s.InputKept) :
    (s.acquireSocket c call).InputKept := by
  rcases acquireSocket_cases s c call with ⟨lock, -, heq⟩ | ⟨-, heq⟩ <;> rw [heq] <;>
    exact h.congr rfl rfl rfl rfl rfl

theorem inputKept_sockRecv (h : s.InputKept) (hstep : s.sockRecv P c count = some t) :
    t.InputKept := by
  obtain ⟨call, got, -, ⟨-, rfl⟩ | ⟨-, rfl⟩⟩ := sockRecv_eq_some hstep
  · rcases receiveReply_cases P (s.takeDown count) c call (got ++ s.down.take count) with
      heq | heq | ⟨reply, -, heq⟩
    · rw [heq]
      exact h.congr rfl rfl rfl rfl rfl
    · rw [heq]
      exact h.congr rfl rfl rfl rfl rfl
    · rw [heq, replyReceived]
      split <;> exact h.congr rfl rfl rfl rfl rfl
  · rcases receiveTerminal_cases P (s.takeDown count) c call (got ++ s.down.take count) with
      ⟨phase, -, heq⟩ | ⟨got', heq⟩ <;> rw [heq] <;> exact h.congr rfl rfl rfl rfl rfl

theorem inputKept_raise (h : s.InputKept) (hstep : s.raise c = some t) : t.InputKept := by
  obtain ⟨lock, clientLock, rfl⟩ := raise_eq_some hstep
  exact h.congr rfl rfl rfl rfl rfl

/-- **Step lemma.** A step that drains the input keeps it in the terminal. -/
theorem inputKept_step (h : s.InputKept) (hok : s.DrainsInput a) (hstep : step P s a = some t) :
    t.InputKept := by
  cases a with
  | rpcCall c request =>
    obtain ⟨-, -, -, rfl⟩ := rpcCall_eq_some hstep
    exact h.acquireSocket
  | spawn c client request =>
    obtain ⟨-, -, -, ⟨lock, -, rfl⟩ | ⟨-, rfl⟩⟩ := spawn_eq_some hstep
    · exact InputKept.acquireSocket (h.congr rfl rfl rfl rfl rfl)
    · exact h.congr rfl rfl rfl rfl rfl
  | clientLockGranted c =>
    obtain ⟨call, client, lock, -, -, -, rfl⟩ := clientLockGranted_eq_some hstep
    exact InputKept.acquireSocket (h.congr rfl rfl rfl rfl rfl)
  | socketLockGranted c =>
    obtain ⟨call, lock, -, -, rfl⟩ := socketLockGranted_eq_some hstep
    exact h.congr rfl rfl rfl rfl rfl
  | sockSendall c count => exact inputKept_sockSendall h hstep
  | sockRecv c count => exact inputKept_sockRecv h hstep
  | raise c => exact inputKept_raise h hstep
  | forwardStdin c buf => exact inputKept_forwardStdin h hok hstep
  | serverRecv count readBack => exact inputKept_serverRecv h hstep
  | childOutput buf =>
    obtain ⟨-, -, rfl⟩ := childOutput_eq_some hstep
    exact h.congr rfl rfl rfl rfl rfl
  | childInput count =>
    obtain ⟨hmode, -, -, rfl⟩ := childInputStep_eq_some hstep
    -- the terminal mode goes on
    refine ⟨h.consumed, h.readInput count, fun got hserving => ?_⟩
    cases hmode.symm.trans hserving
  | childRefuses count readBack =>
    obtain ⟨-, -, -, rfl⟩ := childRefuses_eq_some hstep
    -- what the terminal mode has not read is no input
    exact ⟨h.consumed, h.readInput count, fun _ _ => inputs_eq_nil_iff.mpr hok⟩
  | childExit status readBack =>
    obtain ⟨-, rfl⟩ := childExit_eq_some hstep
    exact ⟨h.consumed, h.forwarded, fun _ _ => inputs_eq_nil_iff.mpr hok⟩
  | serverDies =>
    obtain rfl := Option.some.inj hstep
    refine ⟨h.consumed, h.forwarded, fun got hserving => ?_⟩
    cases hserving

end State

open State

/-- **Exit race.** In every run in which the server's terminal mode ends with
all terminal input read, and none is forwarded outside it, `handle_client` reads
no terminal input, and all of it has been read before `handle_client` reads on. -/
theorem inputStaysInTerminal_of_drains {σ : Type} {P : Peers σ} {s : State σ}
    (h : (machine P).Reaches DrainsInput s) : s.InputStaysInTerminal := by
  apply InputKept.inputStaysInTerminal
  refine h.invariant (P := InputKept) ?_ ?_
  · rintro s ⟨process, rfl⟩
    exact inputKept_initial process
  · intro s a t hkept hok hstep
    exact inputKept_step hkept hok hstep

/-- The child exits. The client, which has yet to receive the exit code,
forwards a byte, and `handle_client` reads it. -/
theorem not_inputStaysInTerminal_late :
    ¬ ∀ (σ : Type) (P : Peers σ) (s : State σ), (machine P).Reachable s →
      s.InputStaysInTerminal := by
  intro h
  have hrun : ((machine quietPeers).run (initial ()) (openTerminal ++
      [.childExit 0 false, .forwardStdin 0 [120], .serverRecv 1 false])).map
        (fun s => s.consumed.getLast?) = some (some (120, .input 0)) := by
    decide
  obtain ⟨s, hs, hlast⟩ := Option.map_eq_some_iff.mp hrun
  have hmem : (120, .input 0) ∈ s.consumed := List.mem_of_getLast? hlast
  exact (h Unit quietPeers s (Machine.reachable_of_run ⟨(), rfl⟩ hs)).consumed _ hmem trivial

/-- A test for steps that drain the input. -/
def draining {σ : Type} (s : State σ) : Action → Bool
  | .forwardStdin _ _ => s.mode = .terminal
  | .childExit _ _ => s.up.isEmpty
  | .childRefuses count _ => (s.up.drop count).isEmpty
  | _ => true

theorem drainsInput_of_draining {σ : Type} {s : State σ} {a : Action} (h : draining s a = true) :
    s.DrainsInput a := by
  have hempty : ∀ bytes : List UpByte, bytes.isEmpty = true → ∀ b ∈ bytes, ¬ b.2.IsInput := by
    intro bytes hnil b hb
    rw [List.isEmpty_iff.mp hnil] at hb
    cases hb
  cases a with
  | forwardStdin c buf => exact (of_decide_eq_true h : s.mode = .terminal)
  | childExit status readBack => exact hempty _ h
  | childRefuses count readBack => exact hempty _ h
  | _ => trivial

/-- The child gets its input before it exits, and the server reads the next request. -/
theorem inputStaysInTerminal_next_request :
    ∃ s, (machine quietPeers).run (initial ()) (openTerminal ++ [.forwardStdin 0 [120],
        .childInput 1, .childExit 0 false, .rpcCall 1 (bareRequest .reqPeek), .sockSendall 1 17,
        .serverRecv 8 false]) = some s ∧
      s.childInput = [(120, .input 0)] ∧ s.InputStaysInTerminal := by
  have hrun : ((machine quietPeers).run (initial ()) (openTerminal ++ [.forwardStdin 0 [120],
      .childInput 1, .childExit 0 false, .rpcCall 1 (bareRequest .reqPeek), .sockSendall 1 17,
      .serverRecv 8 false])).map (fun s => s.childInput) = some [(120, .input 0)] := by
    decide
  obtain ⟨s, hs, hinput⟩ := Option.map_eq_some_iff.mp hrun
  have hstart : (machine quietPeers).Reaches DrainsInput (initial ()) := .start ⟨(), rfl⟩
  have hreaches := hstart.of_passes (fun _ _ => drainsInput_of_draining) (by decide) hs
  exact ⟨s, hs, hinput, inputStaysInTerminal_of_drains hreaches⟩

end RpcProject.Session
