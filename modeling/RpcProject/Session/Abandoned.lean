/-
# Exchanges and terminals that are abandoned

An exception gives the lock of the socket back wherever it ends a call. If the
request was sent and its reply not received, the next call finds that reply on
the stream and takes it for its own. If the exception ends the terminal of a
`spawn` while the server is still in terminal mode, the next request goes to the
child.

When every exception leaves before the first byte is sent, or when nothing can
come any more, and terminals are undisturbed and drained, each call gets its own
reply only, and the child gets terminal input only.
-/

import RpcProject.Session.Pairing

namespace RpcProject.Session

open Foundations Protocol Client

namespace State

variable {σ : Type} {P : Peers σ} {s : State σ} {u : Turns σ} {c : CallId} {call : Call}
  {got : List DownByte} {count : ℕ}

/-! ## Own replies -/

/-- Calls receive their own replies and no part of another, whether they return
in the end or not. -/
structure OwnReplies (s : State σ) : Prop where
  delivered : ∀ d ∈ s.delivered, s.Own d
  received : ∀ c call got count, s.phase c = .receiving call got → s.Receives got count →
    ∀ b ∈ got ++ s.down.take count, b.2 = .reply (some c)

/-- What a call receives next is part of its own reply. -/
theorem Agree.received (h : s.Agree u) (hphase : s.phase c = .receiving call got)
    (hreceives : s.Receives got count) :
    ∀ b ∈ got ++ s.down.take count, b.2 = .reply (some c) := by
  obtain ⟨hpos, hneed, hcount⟩ := hreceives
  rcases h.turn_of_receiving hphase with ⟨-, hasking⟩ | ⟨reply, left, msgs, -, hanswering⟩
  -- nothing has come yet
  · rw [hasking.down, List.length_nil] at hcount
    omega
  have hfront : unmarked (marked (Source.reply (some c)) (frame sizeHeader reply.pack)) =
      frame sizeHeader reply.pack := unmarked_marked
  have hreceive := receive_within (terminalFrames msgs)
    (RpcMessage.pack_fits hanswering.fits) hfront hanswering.whole hanswering.unread hneed
  rw [← hanswering.down] at hreceive
  intro b hb
  rcases hreceive with ⟨hall, -⟩ | ⟨left', -, hmore, -⟩
  · exact mark_of_mem (hall ▸ hb)
  · exact mark_of_mem (hmore ▸ List.mem_append_left left' hb)

theorem Agree.ownReplies (h : s.Agree u) (hledger : u.Ledger P.service) : s.OwnReplies where
  delivered _ hd := h.own hledger hd
  received _ _ _ _ hphase hreceives := h.received hphase hreceives

/-! ## Modes -/

/-- Client and server agree about what the bytes between them are. -/
structure ModesAgree (s : State σ) : Prop where
  ownReplies : s.OwnReplies
  /-- A call that raised was not served, or it had received its reply before. -/
  raised : ∀ c, s.phase c = .raised →
    (∀ e ∈ s.served, e.author ≠ some c) ∨ ∃ d ∈ s.delivered, d.call = c
  /-- The child gets no byte of a request. -/
  childInput : ∀ b ∈ s.childInput, b.2.IsInput

end State

open State

/-- **Own replies.** In every run whose exceptions end no exchange that has
begun and can still be answered, and whose terminals are undisturbed and
drained, calls receive their own replies only. -/
theorem ownReplies_of_orderly {σ : Type} {P : Peers σ} {s : State σ}
    (h : (machine P).Reaches (Orderly P) s) : s.OwnReplies := by
  obtain ⟨u, hu, hagree⟩ := agree_of_reaches h
  exact hagree.ownReplies (TurnState.ledger_of_reachable hu)

/-- Call 0 raises when its request is sent. Call 1 receives the reply to it. -/
theorem not_ownReplies_abandoned :
    ¬ ∀ (σ : Type) (P : Peers σ) (s : State σ), (machine P).Reachable s → s.OwnReplies := by
  intro h
  have hrun : ((machine quietPeers).run (initial ()) [.rpcCall 0 (bareRequest .reqPeek),
      .sockSendall 0 17, .raise 0, .rpcCall 1 (bareRequest .reqDlsym), .sockSendall 1 17,
      .serverRecv 8 false, .serverRecv 9 false, .sockRecv 1 8, .sockRecv 1 8]).map
        (fun s => s.delivered.map fun d => (d.call, d.bytes.map Prod.snd)) =
      some [(1, List.replicate 16 (.reply (some 0)))] := by
    decide
  obtain ⟨s, hs, hdelivered⟩ := Option.map_eq_some_iff.mp hrun
  obtain ⟨d, hd, heq⟩ := List.mem_map.mp (hdelivered ▸ List.mem_singleton_self _)
  obtain ⟨hcall, hmarks⟩ := Prod.mk.inj heq
  -- the bytes bear the mark of call 0
  have hmark : Source.reply (some 0) ∈ d.bytes.map Prod.snd := by
    rw [hmarks]
    decide
  obtain ⟨b, hb, hsource⟩ := List.mem_map.mp hmark
  rw [((h Unit quietPeers s (Machine.reachable_of_run ⟨(), rfl⟩ hs)).delivered d hd).bytes] at hb
  rw [mark_of_mem hb, hcall] at hsource
  exact absurd hsource (by decide)

/-- Call 0 raises before it has sent anything, and call 1 receives its own reply. -/
theorem ownReplies_unsent :
    ∃ s, (machine quietPeers).run (initial ()) [.rpcCall 0 (bareRequest .reqPeek),
        .rpcCall 1 (bareRequest .reqDlsym), .raise 0, .socketLockGranted 1, .sockSendall 1 17,
        .serverRecv 8 false, .serverRecv 9 false, .sockRecv 1 8, .sockRecv 1 8] = some s ∧
      s.phase 0 = .raised ∧ s.phase 1 = .returned ∧ s.OwnReplies := by
  have hrun : ((machine quietPeers).run (initial ()) [.rpcCall 0 (bareRequest .reqPeek),
      .rpcCall 1 (bareRequest .reqDlsym), .raise 0, .socketLockGranted 1, .sockSendall 1 17,
      .serverRecv 8 false, .serverRecv 9 false, .sockRecv 1 8, .sockRecv 1 8]).map
        (fun s => (s.phase 0, s.phase 1)) = some (.raised, .returned) := by
    decide
  obtain ⟨s, hs, hphases⟩ := Option.map_eq_some_iff.mp hrun
  obtain ⟨hfirst, hsecond⟩ := Prod.mk.inj hphases
  have hstart : (machine quietPeers).Reaches Plain (initial ()) := .start ⟨(), rfl⟩
  have hplain := hstart.of_passes (fun _ _ => plain_of_plainly) (by decide) hs
  exact ⟨s, hs, hfirst, hsecond, ownReplies_of_orderly (orderly_of_plain hplain).1⟩

/-- **Modes.** In the same runs, which include those where an exception ends a
terminal that the server has left and whose messages were all received, client
and server agree about the bytes between them. -/
theorem modesAgree_of_orderly {σ : Type} {P : Peers σ} {s : State σ}
    (h : (machine P).Reaches (Orderly P) s) : s.ModesAgree := by
  obtain ⟨u, hu, hagree⟩ := agree_of_reaches h
  have hledger := TurnState.ledger_of_reachable hu
  exact ⟨hagree.ownReplies hledger, fun c hc => hagree.raised hledger hc, hagree.records.childInput⟩

/-- The `spawn` of client 0 raises in terminal mode, while the server stays in
it. The request of call 1 goes to the child. -/
theorem not_modesAgree_abandoned :
    ¬ ∀ (σ : Type) (P : Peers σ) (s : State σ), (machine P).Reachable s → s.ModesAgree := by
  intro h
  have hrun : ((machine quietPeers).run (initial ()) (openTerminal ++
      [.raise 0, .rpcCall 1 (bareRequest .reqPeek), .sockSendall 1 17, .childInput 17])).map
        (fun s => s.childInput.map Prod.snd) = some (List.replicate 17 (.request 1)) := by
    decide
  obtain ⟨s, hs, hinput⟩ := Option.map_eq_some_iff.mp hrun
  have hmark : Origin.request 1 ∈ s.childInput.map Prod.snd := by
    rw [hinput]
    decide
  obtain ⟨b, hb, horigin⟩ := List.mem_map.mp hmark
  have hagree := (h Unit quietPeers s (Machine.reachable_of_run ⟨(), rfl⟩ hs)).childInput b hb
  rw [horigin] at hagree
  exact hagree

/-- A test for orderly steps of one `spawn` and its terminal. -/
def inOrder {σ : Type} (s : State σ) : Action → Bool
  | .sockSendall _ _ => true
  | .serverRecv _ _ => true
  | .childOutput _ => true
  | .sockRecv c count =>
      s.lock.waiters.isEmpty &&
        match s.phase c with
        | .receiving _ [] => count = sizeHeader
        | .terminal _ [] => count = sizeHeader
        | _ => true
  | .forwardStdin _ _ => s.mode = .terminal
  | .childRefuses count _ => (s.up.drop count).isEmpty
  | .raise c =>
      match s.phase c with
      | .terminal _ [] => s.down.isEmpty && s.up.isEmpty && s.mode = .serving []
      | _ => false
  | _ => false

theorem orderly_of_inOrder {σ : Type} {P : Peers σ} {s : State σ} {a : Action}
    (h : inOrder s a = true) :
    s.Orderly P a := by
  cases a with
  | sockSendall c count => exact ⟨trivial, trivial, trivial⟩
  | serverRecv count readBack => exact ⟨trivial, trivial, trivial⟩
  | childOutput buf => exact ⟨trivial, trivial, trivial⟩
  | sockRecv c count =>
    obtain ⟨hwaiters, hsize⟩ := Bool.and_eq_true_iff.mp h
    refine ⟨fun _ => List.isEmpty_iff.mp hwaiters, ?_, trivial⟩
    rintro call (hphase | hphase) <;> rw [hphase] at hsize <;> exact of_decide_eq_true hsize
  | forwardStdin c buf => exact ⟨trivial, trivial, (of_decide_eq_true h : s.mode = .terminal)⟩
  | childRefuses count readBack =>
    refine ⟨trivial, trivial, fun b hb => ?_⟩
    rw [List.isEmpty_iff.mp h] at hb
    cases hb
  | raise c =>
    refine ⟨trivial, ?_, trivial⟩
    simp only [inOrder] at h
    change s.MayLeave (s.phase c)
    split at h
    · next hphase =>
      simp only [Bool.and_eq_true, List.isEmpty_iff, decide_eq_true_eq] at h
      rw [hphase]
      exact ⟨rfl, h.1.1, Or.inr ⟨h.2, h.1.2⟩⟩
    · cases h
  | _ => cases h

/-- What a terminal may go through before its `spawn` raises: the child prints,
input is forwarded, and the server cannot write it to the child. -/
def brokenTerminal : List Action :=
  opening ++ [.childOutput [104, 105], .sockRecv 0 8, .sockRecv 0 4, .forwardStdin 0 [120],
    .childRefuses 1 false, .raise 0]

/-- A `spawn` raises when the server has left its terminal mode. -/
theorem modesAgree_broken_terminal :
    ∃ s, (machine quietPeers).run (initial ())
        (.spawn 0 0 (bareRequest .reqExec) :: brokenTerminal) = some s ∧
      s.phase 0 = .raised ∧ s.ModesAgree := by
  have hrun : ((machine quietPeers).run (initial ())
      (.spawn 0 0 (bareRequest .reqExec) :: brokenTerminal)).map (fun s => s.phase 0) =
        some .raised := by
    decide
  obtain ⟨s, hs, hphase⟩ := Option.map_eq_some_iff.mp hrun
  -- no call is in terminal mode at first
  have hfirst : (initial ()).Orderly quietPeers (.spawn 0 0 (bareRequest .reqExec)) := by
    refine ⟨?_, trivial, trivial⟩
    intro u call got hnone
    cases hnone
  have hstart : (machine quietPeers).Reaches (Orderly quietPeers) (initial ()) := .start ⟨(), rfl⟩
  have hreaches := hstart.of_step_passes (fun _ _ => orderly_of_inOrder) hfirst (by decide) hs
  exact ⟨s, hs, hphase, modesAgree_of_orderly hreaches⟩

end RpcProject.Session
