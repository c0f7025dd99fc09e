/-
# Replies without a correlation id

A client does not check whose reply it receives. Yet as long as no exchange is
abandoned and no child is started in the foreground, the lock of the socket
pairs replies with requests: when it is free, every request that was sent has
been served and its reply received, and the streams are empty.

Runs of this kind are orderly, for they never reach a terminal, so the pairing
is that of the service whose clients take turns.
-/

import RpcProject.Session.Dialogue

namespace RpcProject.Session

open Foundations Protocol Client

/-! ## Runs without a terminal -/

/-- Calls that ask for no child in the foreground. -/
def Phase.Background : Phase → Prop
  | awaitClient call => foreground call.request = false
  | awaitSocket call => foreground call.request = false
  | sending call _ => foreground call.request = false
  | receiving call _ => foreground call.request = false
  | terminal _ _ => False
  | _ => True

theorem Phase.Background.not_inTerminal {phase : Phase} (h : phase.Background) :
    ¬ phase.InTerminal := by
  cases phase <;> simp_all [Phase.Background, Phase.InTerminal]

namespace State

variable {σ : Type} {P : Peers σ} {s t : State σ} {u : Turns σ} {c : CallId} {call : Call}
  {phase : Phase} {a : Action}

/-- Steps that start no child in the foreground and abandon no exchange. -/
def Plain (s : State σ) (a : Action) : Prop :=
  s.LeavesCleanly a ∧
    match a with
    | .spawn _ _ request => foreground request = false
    | _ => True

/-- Neither party is in terminal mode or will be. -/
structure Background (s : State σ) : Prop where
  phase : ∀ c, (s.phase c).Background
  mode : s.mode ≠ .terminal

theorem background_initial (process : σ) : (initial process).Background where
  phase _ := trivial
  mode := by rintro ⟨⟩

theorem Background.update (h : s.Background) (hmode : t.mode = s.mode)
    (hphase : t.phase = Function.update s.phase c phase) (hnew : phase.Background) :
    t.Background where
  phase v := by
    rcases phase_update hphase v with ⟨-, heq⟩ | ⟨-, heq⟩ <;> rw [heq]
    · exact hnew
    · exact h.phase v
  mode := hmode ▸ h.mode

theorem Background.acquireSocket (h : s.Background) (hcall : foreground call.request = false) :
    (s.acquireSocket c call).Background := by
  rcases acquireSocket_cases s c call with ⟨lock, -, heq⟩ | ⟨-, heq⟩ <;> rw [heq] <;>
    exact h.update rfl rfl hcall

/-- No reply to such a call opens a terminal. -/
theorem opensTerminal_eq_false {request reply : RpcMessage} (h : foreground request = false) :
    opensTerminal request reply = false := by
  rw [opensTerminal, h, Bool.false_and]

/-- Every such step is orderly. -/
theorem Background.orderly (h : s.Background) (hok : s.Plain a) (hstep : step P s a = some t) :
    s.Orderly P a where
  undisturbed := by
    cases a with
    | rpcCall c request => exact fun u => (h.phase u).not_inTerminal
    | spawn c client request =>
      intro u call got hterminal
      exact (hterminal ▸ h.phase u : (Phase.terminal call got).Background).elim
    | clientLockGranted c =>
      intro u call got hterminal
      exact (hterminal ▸ h.phase u : (Phase.terminal call got).Background).elim
    | sockRecv c count =>
      rintro ⟨call, got, reply, hphase, -, -, hopens⟩
      have hcall : foreground call.request = false :=
        (hphase ▸ h.phase c : (Phase.receiving call got).Background)
      -- no child runs in the foreground, so no terminal opens
      rw [opensTerminal_eq_false hcall] at hopens
      cases hopens
    | _ => trivial
  leavesCleanly := hok.1
  drainsInput := by
    cases a with
    | forwardStdin c buf =>
      obtain ⟨call, hphase, -⟩ := forwardStdin_eq_some hstep
      exact (hphase ▸ h.phase c : (Phase.terminal call []).Background).elim
    | childExit status readBack => exact absurd (childExit_eq_some hstep).1 h.mode
    | childRefuses count readBack => exact absurd (childRefuses_eq_some hstep).1 h.mode
    | _ => trivial

/-- The server reads only when a call has asked. -/
theorem Agree.asking_of_serverRecv {count : ℕ} {readBack : Bool} (h : s.Agree u)
    (hstep : s.serverRecv P count readBack = some t) :
    ∃ c call rest, u.turn = .asked c call.request ∧ s.Asking c call rest := by
  -- after a reply the server is idle or in terminal mode
  have hsequel : ∀ opens msgs, ¬ s.Sequel opens msgs := by
    rintro opens msgs (⟨-, hterminal, -⟩ | ⟨hidle, -⟩)
    · obtain ⟨got, hmode, -⟩ := serverRecv_eq_some hstep
      cases hterminal.symm.trans hmode
    · exact not_serverRecv_of_idle hidle hstep
  have hsituation := h.situation
  cases hturn : u.turn with
  | free =>
    rw [hturn] at hsituation
    exact absurd hstep (not_serverRecv_of_idle hsituation.2)
  | asked c request =>
    rw [hturn] at hsituation
    obtain ⟨call, rest, rfl, hasking⟩ := hsituation
    exact ⟨c, call, rest, rfl, hasking⟩
  | answered e =>
    rw [hturn] at hsituation
    obtain ⟨call, got, left, msgs, -, hanswering⟩ := hsituation
    exact absurd hanswering.sequel (hsequel _ _)
  | session c =>
    rw [hturn] at hsituation
    obtain ⟨call, got, msgs, hwindow⟩ := hsituation
    exact absurd hwindow.sequel (hsequel _ _)

theorem background_server (h : s.Background) (hagree : s.Agree u) (ha : actor a = none)
    (hstep : step P s a = some t) : t.Background := by
  obtain ⟨-, -, hphase, -⟩ := step_server hstep ha
  refine ⟨hphase ▸ h.phase, ?_⟩
  cases a with
  | serverRecv count readBack =>
    obtain ⟨c, call, rest, -, hasking⟩ := hagree.asking_of_serverRecv hstep
    rcases (asking_serverRecv hasking hstep).2 with ⟨hmore, -⟩ | ⟨rfl, -, hmode, -⟩
    -- the server still waits for the request
    · rcases hmore.up with hmode | ⟨got, hmode, -⟩ <;> rw [hmode] <;> rintro ⟨⟩
    -- the request that is dispatched is that of the call
    · have hcall : foreground call.request = false := by
        have hreceiving := h.phase c
        rwa [hasking.phase] at hreceiving
      rw [hmode, opensTerminal_eq_false hcall]
      cases readBack <;> rintro ⟨⟩
  | childOutput buf => exact absurd (childOutput_eq_some hstep).1 h.mode
  | childInput count => exact absurd (childInputStep_eq_some hstep).1 h.mode
  | childRefuses count readBack => exact absurd (childRefuses_eq_some hstep).1 h.mode
  | childExit status readBack => exact absurd (childExit_eq_some hstep).1 h.mode
  | serverDies =>
    obtain rfl := Option.some.inj hstep
    rintro ⟨⟩
  | _ => cases ha

theorem background_sockRecv {count : ℕ} (h : s.Background) (hstep : s.sockRecv P c count = some t) :
    t.Background := by
  obtain ⟨call, got, -, ⟨hphase, rfl⟩ | ⟨hphase, -⟩⟩ := sockRecv_eq_some hstep
  · have hcall : foreground call.request = false :=
      (hphase ▸ h.phase c : (Phase.receiving call got).Background)
    rcases receiveReply_cases P (s.takeDown count) c call (got ++ s.down.take count) with
      heq | heq | ⟨reply, -, heq⟩
    · rw [heq]
      exact h.update rfl rfl trivial
    · rw [heq]
      exact h.update rfl rfl hcall
    · rw [heq, replyReceived, opensTerminal_eq_false hcall, Bool.and_false]
      exact h.update rfl rfl trivial
  · exact (hphase ▸ h.phase c : (Phase.terminal call got).Background).elim

theorem background_raise (h : s.Background) (hstep : s.raise c = some t) : t.Background := by
  obtain ⟨lock, clientLock, rfl⟩ := raise_eq_some hstep
  exact h.update rfl rfl trivial

theorem background_step (h : s.Background) (hagree : s.Agree u) (hok : s.Plain a)
    (hstep : step P s a = some t) : t.Background := by
  induction a using action_cases with
  | server a ha => exact background_server h hagree ha hstep
  | rpcCall c request =>
    obtain ⟨-, -, hbackground, rfl⟩ := rpcCall_eq_some hstep
    exact h.acquireSocket hbackground
  | spawn c client request =>
    obtain ⟨-, -, -, ⟨lock, -, rfl⟩ | ⟨-, rfl⟩⟩ := spawn_eq_some hstep
    · exact Background.acquireSocket (s := s.setClientLock client lock) ⟨h.phase, h.mode⟩ hok.2
    · exact h.update rfl rfl hok.2
  | clientLockGranted c =>
    obtain ⟨call, client, lock, hphase, -, -, rfl⟩ := clientLockGranted_eq_some hstep
    have hcall : foreground call.request = false :=
      (hphase ▸ h.phase c : (Phase.awaitClient call).Background)
    exact Background.acquireSocket (s := s.setClientLock client lock) ⟨h.phase, h.mode⟩ hcall
  | socketLockGranted c =>
    obtain ⟨call, lock, hphase, -, rfl⟩ := socketLockGranted_eq_some hstep
    exact h.update rfl rfl (hphase ▸ h.phase c : (Phase.awaitSocket call).Background)
  | sockSendall c count =>
    obtain ⟨call, rest, hphase, -, -, rfl⟩ := sockSendall_eq_some hstep
    have hcall : foreground call.request = false :=
      (hphase ▸ h.phase c : (Phase.sending call rest).Background)
    refine h.update rfl rfl ?_
    split <;> exact hcall
  | sockRecv c count => exact background_sockRecv h hstep
  | raise c => exact background_raise h hstep
  | forwardStdin c buf =>
    obtain ⟨call, hphase, -⟩ := forwardStdin_eq_some hstep
    exact (hphase ▸ h.phase c : (Phase.terminal call []).Background).elim

end State

open State

/-- **Run lemma.** Plain runs are orderly, and never reach a terminal. -/
theorem orderly_of_plain {σ : Type} {P : Peers σ} {s : State σ}
    (h : (machine P).Reaches Plain s) : (machine P).Reaches (Orderly P) s ∧ s.Background := by
  refine h.disciplined (Q := State.Background) ?_ ?_
  · rintro s ⟨process, rfl⟩
    exact background_initial process
  · intro s a t hs hbackground hok hstep
    -- the run so far is orderly, so the request that is dispatched is known
    obtain ⟨u, -, hagree⟩ := agree_of_reaches hs
    exact ⟨hbackground.orderly hok hstep, background_step hbackground hagree hok hstep⟩

/-! ## Nobody is stuck -/

namespace State

variable {σ : Type} {P : Peers σ} {s : State σ} {u : Turns σ} {c : CallId} {call : Call}
  {rest : Bytes} {got left : List DownByte} {reply : RpcMessage} {msgs : List RpcPtyMessage}

/-- A step of an exchange: the call sends, the server reads or the call receives. -/
def Moves (P : Peers σ) (s : State σ) (c : CallId) : Prop :=
  ∃ a count, (a = .sockSendall c count ∨ a = .serverRecv count false ∨ a = .sockRecv c count) ∧
    s.Plain a ∧ (step P s a).isSome = true

theorem moves_of_sending (hphase : s.phase c = .sending call rest) (hrest : rest ≠ []) :
    s.Moves P c := by
  refine ⟨.sockSendall c 1, 1, Or.inl rfl, ⟨trivial, trivial⟩, ?_⟩
  have hlength : 0 < 1 ∧ 1 ≤ rest.length := ⟨Nat.one_pos, List.length_pos_iff.mpr hrest⟩
  simp only [step, sockSendall, hphase, if_pos hlength, Option.isSome_some]

/-- The server can read what has been sent of a request. -/
theorem Asking.serverRecv_isSome (h : s.Asking c call []) (hopen : s.mode ≠ .closed) :
    (s.serverRecv P 1 false).isSome = true := by
  obtain ⟨got, hmode, hunread, hwhole⟩ := h.up.resolve_left hopen
  rw [marked_nil, List.append_nil] at hunread hwhole
  have hframe : unmarked got ++ unmarked s.up = frame sizeHeader call.request.pack := by
    rw [← unmarked_append, hwhole, unmarked_marked, Call.frame]
  have hneed := (frameNeed_pos_le (RpcMessage.pack_fits h.wellFormed.admissible.2) hframe
    (by simpa [unmarked] using hunread)).1
  have hcount : 0 < 1 ∧ 1 ≤ frameNeed sizeHeader (unmarked got) ∧ 1 ≤ s.up.length :=
    ⟨Nat.one_pos, hneed, List.length_pos_iff.mpr hunread⟩
  simp only [serverRecv, hmode, if_pos hcount]
  split <;> rfl

/-- The call can receive what has come of its reply: the whole size first. -/
theorem Answering.moves (h : s.Answering c call got left reply msgs) : s.Moves P c := by
  have hframe : unmarked got ++ unmarked left = frame sizeHeader reply.pack := by
    rw [← unmarked_append, h.whole, unmarked_marked]
  have hneed := (frameNeed_pos_le (RpcMessage.pack_fits h.fits) hframe
    (by simpa [unmarked] using h.unread)).1
  have hdown : left.length ≤ s.down.length := by
    rw [h.down, List.length_append]
    exact Nat.le_add_right _ _
  have hreceives : ∃ count, s.Receives got count ∧ (got = [] → count = sizeHeader) := by
    -- the whole size is there, for the server has sent all of its reply
    by_cases hgot : got = []
    · subst hgot
      have hleft : sizeHeader ≤ left.length := by
        have hlength := congrArg List.length h.whole
        rw [List.nil_append, marked_length, frame_length] at hlength
        rw [hlength]
        exact Nat.le_add_right _ _
      exact ⟨sizeHeader, ⟨by decide, le_rfl, le_trans hleft hdown⟩, fun _ => rfl⟩
    · exact ⟨1, ⟨Nat.one_pos, hneed, le_trans (List.length_pos_iff.mpr h.unread) hdown⟩,
        fun hnil => absurd hnil hgot⟩
  obtain ⟨count, hcount, hsize⟩ := hreceives
  refine ⟨.sockRecv c count, count, Or.inr (Or.inr rfl), ⟨?_, trivial⟩, ?_⟩
  · rintro call' (hphase | hphase)
    · exact hsize (Phase.receiving.inj (h.phase.symm.trans hphase)).2
    · cases h.phase.symm.trans hphase
  · simp only [step, sockRecv, h.phase, if_pos hcount, Option.isSome_some]

/-- While the server is there, the exchange of the call that holds the lock of
the socket can go on. -/
theorem Agree.moves (h : s.Agree u) (hopen : s.mode ≠ .closed) (hholds : (s.phase c).HoldsSocket) :
    s.Moves P c := by
  -- the holder of the lock sends or receives
  cases hphase : s.phase c with
  | sending call rest =>
    rcases h.turn_of_sending hphase with ⟨-, hfresh⟩ | ⟨-, hasking⟩
    · rw [hphase] at hfresh
      exact moves_of_sending hphase (hfresh.2 ▸ call.frame_ne_nil)
    · apply moves_of_sending hphase
      rintro rfl
      cases hasking.phase.symm.trans hphase
  | receiving call got =>
    rcases h.turn_of_receiving hphase with ⟨-, hasking⟩ | ⟨reply, left, msgs, -, hanswering⟩
    · exact ⟨.serverRecv 1 false, 1, Or.inr (Or.inl rfl), ⟨trivial, trivial⟩,
        hasking.serverRecv_isSome hopen⟩
    · exact hanswering.moves
  | _ =>
    rw [hphase] at hholds
    exact hholds.elim

/-! ## The pairing -/

/-- Requests and replies are paired. -/
structure Paired (P : Peers σ) (s : State σ) : Prop where
  /-- Every reply that a call received is the whole reply to its own request. -/
  own : ∀ d ∈ s.delivered, s.Own d
  /-- A call that returned received one reply, and its request was processed once. -/
  returned : ∀ c, s.phase c = .returned → (s.served.map Served.author).count (some c) = 1 ∧
    (s.delivered.map Delivered.call).count c = 1
  /-- Requests are processed at most once, and replies delivered at most once. -/
  once : (s.served.map Served.author).Nodup ∧ (s.delivered.map Delivered.call).Nodup
  /-- What is sent of a request is on its way until the request is processed. -/
  processed : s.mode ≠ .closed → ∀ c, (s.phase c).Begun →
    (s.served.map Served.author).count (some c) = 1 ∨ ∃ call rest, s.Asking c call rest
  /-- A reply is on its way to the call that sent the request until it is delivered. -/
  kept : ∀ e ∈ s.served, ∃ c, e.author = some c ∧
    ((∃ d ∈ s.delivered, d.call = c ∧ d.request = e.request ∧ d.reply = e.reply) ∨
      ∃ call got left msgs, call.request = e.request ∧ s.Answering c call got left e.reply msgs)
  /-- The server replies as it does to the same requests one by one. -/
  serial : ∃ first, s.served.map Served.reply =
    P.service.replies first (s.served.map Served.request)
  /-- An exchange that has begun can go on. -/
  moves : s.mode ≠ .closed → ∀ c, (s.phase c).HoldsSocket → s.Moves P c

end State

/-- **Pairing.** In every run in which no child is started in the foreground and
no exchange is abandoned, requests and replies are paired, in whatever order
the calls take their steps. -/
theorem paired_of_plain {σ : Type} {P : Peers σ} {s : State σ} (h : (machine P).Reaches Plain s) :
    s.Paired P := by
  obtain ⟨u, hu, hagree⟩ := agree_of_reaches (orderly_of_plain h).1
  have hledger := TurnState.ledger_of_reachable hu
  exact
    { own := fun d hd => hagree.own hledger hd
      returned := fun c hc => hagree.answered_once hledger (by rw [hc]; trivial)
      once := ⟨hagree.served_nodup hledger, hagree.delivered_nodup hledger⟩
      processed := fun hopen c hbegun => hagree.processed hledger hopen hbegun
      kept := fun e he => hagree.kept hledger he
      serial := hagree.serial hledger
      moves := fun hopen c hholds => hagree.moves hopen hholds }

/-- A test for plain steps: exceptions end only calls that have sent nothing. -/
def plainly {σ : Type} (s : State σ) : Action → Bool
  | .rpcCall _ _ => true
  | .socketLockGranted _ => true
  | .sockSendall _ _ => true
  | .serverRecv _ _ => true
  | .sockRecv _ count => count = sizeHeader
  | .raise c =>
      match s.phase c with
      | .awaitSocket _ => true
      | .sending call rest => rest = call.frame
      | _ => false
  | _ => false

theorem plain_of_plainly {σ : Type} {s : State σ} {a : Action} (h : plainly s a = true) :
    s.Plain a := by
  refine ⟨?_, ?_⟩
  · cases a with
    | sockRecv c count => exact fun _ _ => of_decide_eq_true h
    | raise c =>
      simp only [plainly] at h
      change s.MayLeave (s.phase c)
      split at h
      · next hphase =>
        rw [hphase]
        trivial
      · next hphase =>
        rw [hphase]
        exact Or.inl (of_decide_eq_true h)
      · cases h
    | _ => trivial
  · cases a with
    | spawn c client request => cases h
    | _ => trivial

/-- Two calls; the second waits for the lock of the socket, and both return. -/
theorem paired_two_calls :
    ∃ s, (machine quietPeers).run (initial ()) (.rpcCall 0 (bareRequest .reqPeek) ::
        .rpcCall 1 (bareRequest .reqDlsym) :: (opening ++ [.socketLockGranted 1, .sockSendall 1 17,
          .serverRecv 8 false, .serverRecv 9 false, .sockRecv 1 8, .sockRecv 1 8])) = some s ∧
      s.phase 0 = .returned ∧ s.phase 1 = .returned ∧ s.Paired quietPeers := by
  have hrun : ((machine quietPeers).run (initial ()) (.rpcCall 0 (bareRequest .reqPeek) ::
      .rpcCall 1 (bareRequest .reqDlsym) :: (opening ++ [.socketLockGranted 1, .sockSendall 1 17,
        .serverRecv 8 false, .serverRecv 9 false, .sockRecv 1 8, .sockRecv 1 8]))).map
          (fun s => (s.phase 0, s.phase 1)) = some (.returned, .returned) := by
    decide
  obtain ⟨s, hs, hphases⟩ := Option.map_eq_some_iff.mp hrun
  obtain ⟨hfirst, hsecond⟩ := Prod.mk.inj hphases
  have hstart : (machine quietPeers).Reaches Plain (initial ()) := .start ⟨(), rfl⟩
  have hreaches := hstart.of_passes (fun _ _ => plain_of_plainly) (by decide) hs
  exact ⟨s, hs, hfirst, hsecond, paired_of_plain hreaches⟩

end RpcProject.Session
