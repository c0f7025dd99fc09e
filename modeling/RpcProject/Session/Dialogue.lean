/-
# Calls take turns

Along orderly runs the connection behaves as its service. A call asks with the
first byte it sends, the server serves when it dispatches, the call collects
when its reply is whole, and closes the terminal that its exchange opened, if it
did. An exception after the server is gone withdraws. All other steps change
nothing that the service shows.
-/

import RpcProject.Session.Agreement

namespace RpcProject.Session

open Foundations Foundations.Wire Protocol Client Server

namespace State

variable {σ : Type} {P : Peers σ} {s t : State σ} {u : Turns σ} {c : CallId} {call : Call}
  {phase : Phase} {rest : Bytes} {got left : List DownByte} {reply : RpcMessage}
  {msgs : List RpcPtyMessage} {count : ℕ}

/-! ## On the way to the socket -/

/-- The call that has the turn has sent something. -/
theorem Situation.owner_not_fresh {turn : Turn CallId RpcMessage RpcMessage}
    (h : s.Situation turn) (howner : owner turn = some c) : ¬ (s.phase c).Fresh := by
  rcases h.owner_cases howner with ⟨call, rest, -, hasking⟩ |
    ⟨call, got, left, reply, msgs, -, hanswering⟩ | ⟨call, got, msgs, -, hwindow⟩
  · rw [hasking.phase]
    split
    · exact id
    · rintro ⟨-, hrest⟩
      exact absurd hasking.begun (by rw [hrest]; exact lt_irrefl _)
  · rw [hanswering.phase]
    exact id
  · rw [hwindow.phase]
    exact id

/-- The locks do not matter. -/
theorem Agree.locks (h : s.Agree u) (lock : FairLock CallId)
    (clientLock : ClientId → FairLock CallId) :
    ({ s with lock := lock, clientLock := clientLock } : State σ).Agree u where
  records := ⟨h.records.process, h.records.served, h.records.delivered, h.records.asked,
    h.records.begun, h.records.answered, h.records.withdrawn, h.records.childInput⟩
  situation := h.situation.congr rfl rfl rfl fun _ _ => rfl
  resting := h.resting

/-- A call that has sent nothing goes on to send nothing, or raises. -/
theorem Agree.setPhase_fresh (h : s.Agree u) (hold : (s.phase c).Fresh)
    (hnew : phase.Fresh ∨ phase = .raised) : (s.setPhase c phase).Agree u := by
  -- the call has not the turn, so the situation is about others
  have howner : owner u.turn ≠ some c := fun howner => h.situation.owner_not_fresh howner hold
  have hnotBegun : ¬ phase.Begun := by
    rcases hnew with hnew | rfl
    · exact hnew.not_begun
    · exact id
  have hresting : phase.Resting := hnew.imp_right Or.inr
  refine ⟨h.records.unnoticed ⟨rfl, rfl, rfl, rfl, rfl, rfl⟩ ?_ ?_ ?_,
    h.situation.congr rfl rfl rfl ?_, resting_update h.resting rfl (Or.inr (Or.inr rfl))
      (Or.inr hresting)⟩
  · rintro (hbegun | hraised)
    · exact absurd hbegun hold.not_begun
    · exact absurd hraised hold.ne_raised
  · exact fun hbegun => absurd hbegun hnotBegun
  · exact fun hanswered => absurd (Phase.Answered.begun hanswered) hnotBegun
  · intro v hv
    apply Function.update_of_ne
    rintro rfl
    exact howner hv

theorem Agree.startSending (h : s.Agree u) (hold : (s.phase c).Fresh) (hcall : call.WellFormed)
    (lock : FairLock CallId) : (s.startSending c call lock).Agree u :=
  (h.locks lock s.clientLock).setPhase_fresh hold (Or.inl ⟨hcall, rfl⟩)

theorem Agree.acquireSocket (h : s.Agree u) (hold : (s.phase c).Fresh) (hcall : call.WellFormed) :
    (s.acquireSocket c call).Agree u := by
  rcases acquireSocket_cases s c call with ⟨lock, -, heq⟩ | ⟨-, heq⟩
  · rw [heq]
    exact h.startSending hold hcall lock
  · rw [heq]
    exact (h.locks (s.lock.enqueue c) s.clientLock).setPhase_fresh hold (Or.inl hcall)

theorem agree_rpcCall {request : RpcMessage} (h : s.Agree u)
    (hstep : s.rpcCall c request = some t) : t.Agree u := by
  obtain ⟨hidle, hadmissible, hbackground, rfl⟩ := rpcCall_eq_some hstep
  apply h.acquireSocket
  · rw [hidle]
    trivial
  · exact ⟨hadmissible, fun hforeground => absurd (hforeground.symm.trans hbackground) (by decide)⟩

theorem agree_spawn {client : ClientId} {request : RpcMessage} (h : s.Agree u)
    (hstep : s.spawn c client request = some t) : t.Agree u := by
  obtain ⟨hidle, hadmissible, -, ⟨lock, -, rfl⟩ | ⟨-, rfl⟩⟩ := spawn_eq_some hstep
  · apply (h.locks s.lock (Function.update s.clientLock client lock)).acquireSocket
    · change (s.phase c).Fresh
      rw [hidle]
      trivial
    · exact ⟨hadmissible, fun _ => rfl⟩
  · apply (h.locks s.lock (Function.update s.clientLock client _)).setPhase_fresh
    · change (s.phase c).Fresh
      rw [hidle]
      trivial
    · exact Or.inl ⟨hadmissible, fun _ => rfl⟩

/-- A waiting call rests. -/
theorem Agree.fresh_of_waits (h : s.Agree u)
    (hphase : s.phase c = .awaitClient call ∨ s.phase c = .awaitSocket call) :
    (s.phase c).Fresh ∧ call.WellFormed := by
  have hresting : (s.phase c).Resting := by
    apply h.resting_of <;> rcases hphase with hphase | hphase <;> rw [hphase] <;> exact id
  rcases hphase with hphase | hphase <;> rw [hphase] at hresting ⊢ <;>
    rcases hresting with hfresh | heq | heq
  · exact ⟨hfresh, hfresh⟩
  · cases heq
  · cases heq
  · exact ⟨hfresh, hfresh⟩
  · cases heq
  · cases heq

theorem agree_clientLockGranted (h : s.Agree u) (hstep : s.clientLockGranted c = some t) :
    t.Agree u := by
  obtain ⟨call, client, lock, hphase, -, -, rfl⟩ := clientLockGranted_eq_some hstep
  obtain ⟨hfresh, hcall⟩ := h.fresh_of_waits (Or.inl hphase)
  exact (h.locks s.lock (Function.update s.clientLock client lock)).acquireSocket hfresh hcall

theorem agree_socketLockGranted (h : s.Agree u) (hstep : s.socketLockGranted c = some t) :
    t.Agree u := by
  obtain ⟨call, lock, hphase, -, rfl⟩ := socketLockGranted_eq_some hstep
  obtain ⟨hfresh, hcall⟩ := h.fresh_of_waits (Or.inr hphase)
  exact h.startSending hfresh hcall lock

/-! ## Sending -/

/-- More of a request is sent. -/
theorem asking_send (hcall : call.WellFormed) (hdown : s.down = [])
    (hrest : rest.length ≤ call.frame.length) (hpos : 0 < count) (hcount : count ≤ rest.length)
    (hup : s.mode = .closed ∨ ∃ got, s.mode = .serving got ∧
      got ++ (s.up ++ marked (.request c) rest) = marked (.request c) call.frame) :
    ({ s with up := s.up ++ marked (Origin.request c) (rest.take count) }.setPhase c
      (if rest.drop count = [] then .receiving call [] else .sending call (rest.drop count))).Asking
        c call (rest.drop count) where
  phase := Function.update_self _ _ _
  wellFormed := hcall
  begun := by
    rw [List.length_drop]
    omega
  down := hdown
  up := by
    apply hup.imp_right
    rintro ⟨got, hmode, hwhole⟩
    refine ⟨got, hmode, ?_, ?_⟩
    -- what was sent is still there
    · apply List.ne_nil_of_length_pos
      simp only [setPhase, List.length_append, marked_length, List.length_take]
      omega
    · change got ++ (s.up ++ marked (.request c) (rest.take count) ++
        marked (.request c) (rest.drop count)) = _
      rwa [List.append_assoc, ← marked_append, List.take_append_drop]

/-- The records after a call has asked. -/
theorem Records.ask (h : s.Records u) (ht : Unnoticed s t c phase) (hnew : phase.Begun)
    (hanswered : ¬ phase.Answered) (turn : Turn CallId RpcMessage RpcMessage) :
    t.Records { u with turn := turn, asked := u.asked ++ [c] } where
  process := ht.process.trans h.process
  served := ht.served.trans h.served
  delivered := ht.delivered.trans h.delivered
  asked v hv := by
    rcases phase_update ht.phase v with ⟨-, heq⟩ | ⟨hvc, heq⟩ <;> rw [heq]
    · exact Or.inl hnew
    · rw [List.mem_append, List.mem_singleton] at hv
      exact h.asked v (hv.resolve_right hvc)
  begun v hv := by
    rw [List.mem_append, List.mem_singleton]
    rcases phase_update ht.phase v with ⟨hvc, -⟩ | ⟨-, heq⟩
    · exact Or.inr hvc
    · exact Or.inl (h.begun v (heq ▸ hv))
  answered v hv := by
    rcases phase_update ht.phase v with ⟨-, heq⟩ | ⟨-, heq⟩ <;> rw [heq] at hv
    · exact absurd hv hanswered
    · exact h.answered v hv
  withdrawn hne := ht.mode.trans (h.withdrawn hne)
  childInput := by
    rw [ht.childInput]
    exact h.childInput

/-- After a send, a call waits for its reply or has bytes left. -/
theorem begun_afterSend (hrest : rest.length ≤ call.frame.length) (hpos : 0 < count)
    (hcount : count ≤ rest.length) :
    (if rest.drop count = [] then Phase.receiving call []
      else .sending call (rest.drop count)).Begun := by
  split
  · trivial
  · intro heq
    have hlength := congrArg List.length heq
    rw [List.length_drop] at hlength
    omega

theorem not_answered_afterSend :
    ¬ (if rest.drop count = [] then Phase.receiving call []
      else .sending call (rest.drop count)).Answered := by
  split <;> exact id

/-- A call sends its first bytes: it asks. -/
theorem agree_send_first (h : s.Agree u) (hturn : u.turn = .free) (hfresh : (s.phase c).Fresh)
    (hphase : s.phase c = .sending call rest) (hpos : 0 < count) (hcount : count ≤ rest.length)
    (ht : t = { s with up := s.up ++ marked (Origin.request c) (rest.take count) }.setPhase c
      (if rest.drop count = [] then .receiving call [] else .sending call (rest.drop count)))
    (hunnoticed : Unnoticed s t c
      (if rest.drop count = [] then .receiving call [] else .sending call (rest.drop count))) :
    ∃ request v, u.ask c request = some v ∧ t.Agree v := by
  have hquiet : s.Quiet := by
    have hsituation := h.situation
    rwa [hturn] at hsituation
  -- a call that has asked before has begun, or raised
  have hnew : c ∉ u.asked := fun hmem =>
    (h.records.asked c hmem).elim hfresh.not_begun hfresh.ne_raised
  rw [hphase] at hfresh
  obtain ⟨hcall, rfl⟩ := hfresh
  refine ⟨call.request, { u with turn := .asked c call.request, asked := u.asked ++ [c] }, ?_, ?_⟩
  · simp [TurnState.ask, hturn, hnew]
  refine ⟨h.records.ask hunnoticed (begun_afterSend le_rfl hpos hcount) not_answered_afterSend _,
    ⟨call, call.frame.drop count, rfl, ?_⟩,
    resting_update h.resting hunnoticed.phase (Or.inl (hturn ▸ rfl)) (Or.inl rfl)⟩
  rw [ht]
  apply asking_send hcall hquiet.1 le_rfl hpos hcount
  rcases hquiet.2 with hclosed | ⟨hmode, hup⟩
  · exact Or.inl hclosed
  · exact Or.inr ⟨[], hmode, by rw [hup, List.nil_append, List.nil_append]⟩

/-- A call that has asked goes on sending. -/
theorem agree_send_more (h : s.Agree u) (hturn : u.turn = .asked c call.request)
    (hphase : s.phase c = .sending call rest) (hasking : s.Asking c call rest) (hpos : 0 < count)
    (hcount : count ≤ rest.length)
    (ht : t = { s with up := s.up ++ marked (Origin.request c) (rest.take count) }.setPhase c
      (if rest.drop count = [] then .receiving call [] else .sending call (rest.drop count)))
    (hunnoticed : Unnoticed s t c
      (if rest.drop count = [] then .receiving call [] else .sending call (rest.drop count))) :
    t.Agree u := by
  have hbegun := hasking.begun
  refine ⟨h.records.unnoticed hunnoticed ?_ ?_ ?_, ?_,
    resting_update h.resting hunnoticed.phase (Or.inr (Or.inr rfl)) (Or.inl (hturn ▸ rfl))⟩
  · exact fun _ => Or.inl (begun_afterSend hbegun.le hpos hcount)
  · intro _
    rw [hphase]
    rintro rfl
    exact absurd hbegun (lt_irrefl _)
  · exact fun hnew => absurd hnew not_answered_afterSend
  · rw [hturn, ht]
    refine ⟨call, _, rfl, asking_send hasking.wellFormed hasking.down hbegun.le hpos hcount
      (hasking.up.imp_right ?_)⟩
    rintro ⟨got, hmode, -, hwhole⟩
    exact ⟨got, hmode, hwhole⟩

theorem agree_sockSendall (hlocks : s.Locks) (hexclusive : s.Exclusive) (h : s.Agree u)
    (hstep : s.sockSendall c count = some t) :
    t.Agree u ∨ ∃ request v, u.ask c request = some v ∧ t.Agree v := by
  obtain ⟨call, rest, hphase, hpos, hcount, ht⟩ := sockSendall_eq_some hstep
  have hunnoticed : Unnoticed s t c
      (if rest.drop count = [] then .receiving call [] else .sending call (rest.drop count)) := by
    subst ht
    exact ⟨rfl, rfl, rfl, rfl, rfl, rfl⟩
  rcases h.turn_of_sending hphase with ⟨howner, hfresh⟩ | ⟨hturn, hasking⟩
  · right
    have hturn := h.turn_eq_free hlocks hexclusive (by rw [hphase]; trivial) howner
    exact agree_send_first h hturn hfresh hphase hpos hcount ht hunnoticed
  · exact Or.inl (agree_send_more h hturn hphase hasking hpos hcount ht hunnoticed)

/-! ## Serving -/

/-- A server that is gone stays so. -/
theorem closed_server {a : Action} (hclosed : s.mode = .closed) (ha : actor a = none)
    (hstep : step P s a = some t) : t.mode = .closed := by
  cases a with
  | serverRecv count readBack => exact absurd hstep (not_serverRecv_of_idle (Or.inl hclosed))
  | childOutput buf =>
    exact absurd (hclosed.symm.trans (childOutput_eq_some hstep).1) (by decide)
  | childInput count =>
    exact absurd (hclosed.symm.trans (childInputStep_eq_some hstep).1) (by decide)
  | childRefuses count readBack =>
    exact absurd (hclosed.symm.trans (childRefuses_eq_some hstep).1) (by decide)
  | childExit status readBack =>
    exact absurd (hclosed.symm.trans (childExit_eq_some hstep).1) (by decide)
  | serverDies =>
    obtain rfl := Option.some.inj hstep
    rfl
  | _ => cases ha

/-- The records after a step of the server that dispatches nothing. -/
theorem Records.server {a : Action} (h : s.Records u) (ha : actor a = none)
    (hstep : step P s a = some t) (hprocess : t.process = s.process) (hserved : t.served = s.served)
    (hinput : ∀ b ∈ t.childInput, b ∈ s.childInput ∨ b.2.IsInput) : t.Records u := by
  obtain ⟨-, -, hphase, hdelivered, -⟩ := step_server hstep ha
  refine ⟨hprocess.trans h.process, hserved.trans h.served, hdelivered.trans h.delivered, ?_,
    ?_, ?_, fun hne => closed_server (h.withdrawn hne) ha hstep,
    fun b hb => (hinput b hb).elim (h.childInput b) id⟩ <;> rw [hphase]
  · exact h.asked
  · exact h.begun
  · exact h.answered

/-- The request of a call, when it is there, is dispatched: it unpacks, and its
magic is right. -/
theorem handleRequest_frame (s : State σ) (P : Peers σ) (hcall : call.WellFormed)
    (readBack : Bool) : s.handleRequest P (marked (.request c) call.frame) readBack =
      s.dispatchRequest P (some c) call.request readBack := by
  have hunpack : RpcMessage.unpack (frameBody sizeHeader
      (unmarked (marked (Origin.request c) call.frame))) = some call.request := by
    rw [unmarked_marked, Call.frame, frameBody_frame]
    exact RpcMessage.unpack_pack hcall.admissible.2
  unfold handleRequest
  rw [hunpack]
  simp only [hcall.admissible.1, if_true, author_marked call.frame_ne_nil]

/-- A dispatched request leaves its whole reply on the stream, and the server in
terminal mode or reading the next request. -/
theorem answering_dispatchRequest {readBack : Bool} (hcall : call.WellFormed)
    (hphase : s.phase c = .receiving call []) (hdown : s.down = []) (hup : s.up = []) :
    (s.dispatchRequest P (some c) call.request readBack).Answering c call []
      (marked (.reply (some c)) (frame sizeHeader (P.reply s.process call.request).pack))
      (P.reply s.process call.request) [] where
  phase := hphase
  wellFormed := hcall
  fits := P.reply_fits _ _
  size := Or.inl rfl
  whole := rfl
  unread := by
    apply List.ne_nil_of_length_pos
    simp [sizeHeader]
  down := by
    simp only [dispatchRequest, hdown, List.nil_append, terminalFrames_nil, List.append_nil]
  sequel := by
    cases hopens : opensTerminal call.request (P.reply s.process call.request) with
    | true =>
      refine Or.inl ⟨rfl, by simp [dispatchRequest, hopens], ?_, .nil⟩
      simp [dispatchRequest, hup]
    | false =>
      refine Or.inr ⟨?_, fun _ => rfl, .nil⟩
      cases readBack with
      | true => exact Or.inl (by simp [dispatchRequest, hopens, afterRequest])
      | false => exact Or.inr ⟨by simp [dispatchRequest, hopens, afterRequest], hup⟩

/-- A receive of the server gets more of the request that is asked, or the rest
of it, and then it is dispatched. -/
theorem asking_serverRecv {readBack : Bool} (h : s.Asking c call rest)
    (hstep : s.serverRecv P count readBack = some t) :
    s.mode ≠ .closed ∧
    ((t.Asking c call rest ∧ t.process = s.process ∧ t.served = s.served ∧
        t.childInput = s.childInput) ∨
      rest = [] ∧ t.childInput = s.childInput ∧ t.mode = (if opensTerminal call.request
          (P.reply s.process call.request) then .terminal else afterRequest readBack) ∧
      t.process = P.next s.process call.request ∧
      t.served = s.served ++ [⟨some c, call.request, P.reply s.process call.request⟩] ∧
      ∃ left, t.Answering c call [] left (P.reply s.process call.request) []) := by
  obtain ⟨got, hmode, hpos, hneed, hcount, ht⟩ := serverRecv_eq_some hstep
  have hopen : s.mode ≠ .closed := by
    rw [hmode]
    rintro ⟨⟩
  refine ⟨hopen, ?_⟩
  obtain ⟨got', hmode', hunread, hwhole⟩ := h.up.resolve_left hopen
  obtain rfl : got' = got := ServerMode.serving.inj (hmode'.symm.trans hmode)
  have fits : call.request.pack.length < 256 ^ sizeHeader :=
    RpcMessage.pack_fits h.wellFormed.admissible.2
  have hfront : unmarked (marked (Origin.request c) call.frame) =
      frame sizeHeader call.request.pack := unmarked_marked
  -- what the call has yet to send ends the frame, and nothing follows it
  have hreceive := receive_within [] fits hfront hwhole hunread hneed
  rw [List.append_nil, List.take_append_of_le_length hcount,
    List.drop_append_of_le_length hcount] at hreceive
  rcases hreceive with ⟨hall, hnone⟩ | ⟨left, hleft, hmore, hdrop⟩
  -- the request is complete
  · right
    obtain ⟨hup, hrest⟩ := List.append_eq_nil_iff.mp hnone
    rw [marked_eq_nil] at hrest
    subst hrest
    rw [hall, hfront, if_pos (frameNeed_frame fits), handleRequest_frame _ P h.wellFormed] at ht
    subst ht
    exact ⟨rfl, rfl, rfl, rfl, rfl, _, answering_dispatchRequest h.wellFormed h.phase h.down hup⟩
  -- some of the request is still missing
  · left
    rw [List.append_nil] at hdrop
    have hopen : frameNeed sizeHeader (unmarked (got' ++ s.up.take count)) ≠ 0 := by
      have hframe : unmarked (got' ++ s.up.take count) ++ unmarked left =
          frame sizeHeader call.request.pack := by
        rw [← unmarked_append, hmore, hfront]
      rw [Ne, frameNeed_eq_zero_iff fits hframe]
      simpa [unmarked] using hleft
    rw [if_neg hopen] at ht
    subst ht
    refine ⟨⟨h.phase, h.wellFormed, h.begun, h.down, Or.inr ⟨_, rfl, ?_, ?_⟩⟩, rfl, rfl, rfl⟩
    · exact hdrop ▸ hleft
    · exact hdrop ▸ hmore

/-- A call that has not got the turn rests, whatever the server does. -/
theorem resting_server {a : Action} (h : s.Agree u) (ha : actor a = none)
    (hstep : step P s a = some t) : ∀ v, owner u.turn ≠ some v → (t.phase v).Resting := by
  obtain ⟨-, -, hphase, -, -⟩ := step_server hstep ha
  intro v hv
  rw [hphase]
  exact h.resting v hv

/-- The records after a reply was made. -/
theorem Records.serve (h : s.Records u) (hwithdrawn : u.withdrawn = [])
    {e : Exchange CallId RpcMessage RpcMessage} {next : σ}
    {turn : Turn CallId RpcMessage RpcMessage}
    (hphase : t.phase = s.phase) (hdelivered : t.delivered = s.delivered)
    (hinput : t.childInput = s.childInput) (hprocess : t.process = next)
    (hserved : t.served = s.served ++ [servedAs e]) :
    t.Records { u with process := next, turn := turn, served := u.served ++ [e] } := by
  refine ⟨hprocess, ?_, hdelivered.trans h.delivered, ?_, ?_, ?_, fun hne =>
    absurd hwithdrawn hne, ?_⟩
  · rw [hserved, h.served, List.map_append]
    rfl
  · rw [hphase]
    exact h.asked
  · rw [hphase]
    exact h.begun
  · rw [hphase]
    exact h.answered
  · rw [hinput]
    exact h.childInput

/-- The server receives a request, or some more of it. -/
theorem agree_serverRecv {readBack : Bool} (h : s.Agree u) (hturn : u.turn = .asked c call.request)
    (hasking : s.Asking c call rest) (hstep : step P s (.serverRecv count readBack) = some t) :
    t.Agree u ∨ ∃ v, u.serve P.service = some v ∧ t.Agree v := by
  obtain ⟨-, -, hphase, hdelivered, -⟩ := step_server hstep rfl
  have hresting := resting_server h rfl hstep
  obtain ⟨hopen, hmore | ⟨-, hinput, -, hprocess, hserved, left, hanswering⟩⟩ :=
    asking_serverRecv hasking hstep
  · left
    obtain ⟨hasking', hprocess, hserved, hinput⟩ := hmore
    refine ⟨h.records.server rfl hstep hprocess hserved fun b hb => Or.inl (hinput ▸ hb), ?_,
      hresting⟩
    rw [hturn]
    exact ⟨call, rest, rfl, hasking'⟩
  · right
    -- calls withdraw only when the server is gone
    have hwithdrawn : u.withdrawn = [] := by
      by_contra hne
      exact hopen (h.records.withdrawn hne)
    rw [h.records.process] at hprocess hserved hanswering
    let e : Exchange CallId RpcMessage RpcMessage :=
      ⟨c, call.request, P.reply u.process call.request⟩
    refine ⟨{ u with
        process := P.next u.process call.request
        turn := .answered e
        served := u.served ++ [e] }, ?_, ?_, ?_, ?_⟩
    · simp only [TurnState.serve, hturn, hwithdrawn, List.isEmpty_nil, if_true]
      rfl
    · exact h.records.serve (e := e) hwithdrawn hphase hdelivered hinput hprocess hserved
    · exact ⟨call, [], left, [], rfl, hanswering⟩
    · rw [hturn] at hresting
      exact hresting

/-- While a call asks, the server waits for the request or is gone. -/
theorem agree_server_asked {a : Action} (h : s.Agree u) (hturn : u.turn = .asked c call.request)
    (hasking : s.Asking c call rest) (ha : actor a = none) (hstep : step P s a = some t) :
    t.Agree u ∨ ∃ v, u.serve P.service = some v ∧ t.Agree v := by
  have hmode : s.mode ≠ .terminal := by
    rcases hasking.up with hmode | ⟨got, hmode, -⟩ <;> rw [hmode] <;> rintro ⟨⟩
  cases a with
  | serverRecv count readBack => exact agree_serverRecv h hturn hasking hstep
  | childOutput buf => exact absurd (childOutput_eq_some hstep).1 hmode
  | childInput count => exact absurd (childInputStep_eq_some hstep).1 hmode
  | childRefuses count readBack => exact absurd (childRefuses_eq_some hstep).1 hmode
  | childExit status readBack => exact absurd (childExit_eq_some hstep).1 hmode
  | serverDies =>
    left
    obtain rfl := Option.some.inj hstep
    refine ⟨h.records.server ha hstep rfl rfl fun b => Or.inl, ?_, h.resting⟩
    rw [hturn]
    exact ⟨call, rest, rfl,
      hasking.phase, hasking.wellFormed, hasking.begun, hasking.down, Or.inl rfl⟩
  | _ => cases ha

/-- **Step lemma**, for the server and the child. -/
theorem agree_server {a : Action} (h : s.Agree u) (ha : actor a = none) (hok : s.DrainsInput a)
    (hstep : step P s a = some t) : t.Agree u ∨ ∃ v, u.serve P.service = some v ∧ t.Agree v := by
  obtain ⟨-, -, hphase, -, -⟩ := step_server hstep ha
  have hresting := resting_server h ha hstep
  have hsituation := h.situation
  cases hturn : u.turn with
  | free =>
    left
    rw [hturn] at hsituation
    obtain ⟨hquiet, hprocess, hserved, hinput⟩ := quiet_server hsituation ha hstep
    refine ⟨h.records.server ha hstep hprocess hserved fun b hb => Or.inl (hinput ▸ hb), ?_,
      hresting⟩
    rwa [hturn]
  | asked c request =>
    rw [hturn] at hsituation
    obtain ⟨call, rest, rfl, hasking⟩ := hsituation
    exact agree_server_asked h hturn hasking ha hstep
  | answered e =>
    left
    rw [hturn] at hsituation
    obtain ⟨call, got, left, msgs, hrequest, hanswering⟩ := hsituation
    obtain ⟨⟨more, hdown, hsequel⟩, hprocess, hserved, hinput⟩ :=
      sequel_server hanswering.sequel ha hok hstep
    refine ⟨h.records.server ha hstep hprocess hserved hinput, ?_, hresting⟩
    rw [hturn]
    refine ⟨call, got, left, msgs ++ more, hrequest, { hanswering with
      phase := by rw [hphase, hanswering.phase]
      down := ?_
      sequel := hsequel }⟩
    rw [hdown, hanswering.down, terminalFrames_append, List.append_assoc]
  | session c =>
    left
    rw [hturn] at hsituation
    obtain ⟨call, got, msgs, hwindow⟩ := hsituation
    obtain ⟨⟨more, hdown, hsequel⟩, hprocess, hserved, hinput⟩ :=
      sequel_server hwindow.sequel ha hok hstep
    refine ⟨h.records.server ha hstep hprocess hserved hinput, ?_, hresting⟩
    rw [hturn]
    refine ⟨call, got, msgs ++ more, by rw [hphase, hwindow.phase], hwindow.size, ?_, hsequel⟩
    rw [hdown]
    rcases hwindow.down with ⟨hgot, hframes⟩ | ⟨m, rest, left, rfl, hwhole, hleft, hframes⟩
    · exact Or.inl ⟨hgot, by rw [hframes, terminalFrames_append]⟩
    · refine Or.inr ⟨m, rest ++ more, left, rfl, hwhole, hleft, ?_⟩
      rw [hframes, terminalFrames_append, List.append_assoc]

/-! ## Receiving -/

/-- A receive gets the whole size, if the call has nothing yet. -/
theorem size_receive (h : got = [] ∨ sizeHeader ≤ got.length)
    (hsize : got = [] → count = sizeHeader)
    (hcount : count ≤ s.down.length) : sizeHeader ≤ (got ++ s.down.take count).length := by
  rw [List.length_append, List.length_take, Nat.min_eq_left hcount]
  rcases h with hgot | hlong
  · rw [hsize hgot]
    exact Nat.le_add_left _ _
  · exact le_trans hlong (Nat.le_add_right _ _)

/-- A receive gets more of the reply, or the rest of it. -/
theorem answering_sockRecv (h : s.Answering c call got left reply msgs)
    (hsize : got = [] → count = sizeHeader) (hstep : s.sockRecv P c count = some t) :
    (∃ got' left', t.Answering c call got' left' reply msgs ∧
      Unnoticed s t c (.receiving call got')) ∨
    s.down.drop count = terminalFrames msgs ∧
      t = (s.takeDown count).replyReceived c call
        (marked (.reply (some c)) (frame sizeHeader reply.pack)) reply := by
  obtain ⟨call', got', ⟨hpos, hneed, hcount⟩, ⟨hphase, rfl⟩ | ⟨hphase, -⟩⟩ := sockRecv_eq_some hstep
  swap
  · rw [h.phase] at hphase
    cases hphase
  obtain ⟨rfl, rfl⟩ : call = call' ∧ got = got' := Phase.receiving.inj (h.phase.symm.trans hphase)
  have fits : reply.pack.length < 256 ^ sizeHeader := RpcMessage.pack_fits h.fits
  have hfront : unmarked (marked (Source.reply (some c)) (frame sizeHeader reply.pack)) =
      frame sizeHeader reply.pack := unmarked_marked
  have hlong := size_receive h.size hsize hcount
  have hreceive := receive_within (terminalFrames msgs) fits hfront h.whole h.unread hneed
  rw [← h.down] at hreceive
  rcases hreceive with ⟨hall, hdrop⟩ | ⟨left', hleft, hmore, hdrop⟩
  · right
    refine ⟨hdrop, ?_⟩
    have hparse : P.parser.parse (frameBody sizeHeader (frame sizeHeader reply.pack)) =
        some reply := by
      rw [frameBody_frame]
      exact P.parser.parse_pack h.fits
    simp only [receiveReply, hall, hfront, receipt_frame fits, hparse]
  · left
    have hopen := receipt_open fits hfront hmore hleft hlong
    simp only [receiveReply, hopen]
    refine ⟨_, left', ⟨?_, h.wellFormed, h.fits, Or.inr hlong, hmore, hleft, hdrop, h.sequel⟩,
      rfl, rfl, rfl, rfl, rfl, rfl⟩
    exact Function.update_self _ _ _

/-- The records after a call has collected its reply. -/
theorem Records.collect {e : Exchange CallId RpcMessage RpcMessage} (h : s.Records u)
    (phase : Phase) (hprocess : t.process = s.process) (hmode : t.mode = s.mode)
    (hserved : t.served = s.served)
    (hdelivered : t.delivered = s.delivered ++ [deliveredAs e])
    (hinput : t.childInput = s.childInput)
    (hphase : t.phase = Function.update s.phase e.client phase)
    (hold : (s.phase e.client).Begun) (hnew : phase.Begun)
    (turn : Turn CallId RpcMessage RpcMessage) :
    t.Records { u with turn := turn, collected := u.collected ++ [e] } where
  process := hprocess.trans h.process
  served := hserved.trans h.served
  delivered := by
    rw [hdelivered, h.delivered, List.map_append]
    rfl
  asked v hv := by
    rcases phase_update hphase v with ⟨-, heq⟩ | ⟨-, heq⟩ <;> rw [heq]
    · exact Or.inl hnew
    · exact h.asked v hv
  begun v hv := by
    rcases phase_update hphase v with ⟨hvc, -⟩ | ⟨-, heq⟩
    · rw [hvc]
      exact h.begun _ hold
    · exact h.begun v (heq ▸ hv)
  answered v hv := by
    rw [List.map_append, List.mem_append]
    rcases phase_update hphase v with ⟨hvc, -⟩ | ⟨-, heq⟩
    · exact Or.inr (List.mem_singleton.mpr hvc)
    · exact Or.inl (h.answered v (heq ▸ hv))
  withdrawn hne := hmode.trans (h.withdrawn hne)
  childInput := by
    rw [hinput]
    exact h.childInput

/-- The client goes into terminal mode when the server does. -/
theorem replyReceived_eq {bytes : List DownByte} (s : State σ) (c : CallId)
    (hcall : call.WellFormed) : s.replyReceived c call bytes reply =
      if opensTerminal call.request reply = true then
        ({ s.releaseSocket with
          delivered := s.delivered ++ [⟨c, call.request, bytes, reply⟩] } : State σ).setPhase c
            (.terminal call [])
      else
        ({ s.releaseSocket with
          delivered := s.delivered ++ [⟨c, call.request, bytes, reply⟩] } : State σ).leave c call
            .returned := by
  have hopens : (call.client.isSome && opensTerminal call.request reply) =
      opensTerminal call.request reply := by
    cases hopens : opensTerminal call.request reply with
    | false => exact Bool.and_false _
    | true =>
      rw [opensTerminal, Bool.and_eq_true] at hopens
      rw [hcall.spawned hopens.1, Bool.and_true]
  rw [replyReceived, hopens]

/-- A call that has its whole reply collects it, and its terminal opens or the
turn is over. -/
theorem agree_replyReceived {e : Exchange CallId RpcMessage RpcMessage} (h : s.Agree u)
    (hturn : u.turn = .answered e) (hcall : call.WellFormed) (hrequest : call.request = e.request)
    (hphase : s.phase e.client = .receiving call got)
    (hsequel : s.Sequel (opensTerminal call.request e.reply) msgs)
    (hdown : s.down.drop count = terminalFrames msgs)
    (ht : t = (s.takeDown count).replyReceived e.client call
      (marked (.reply (some e.client)) (frame sizeHeader e.reply.pack)) e.reply) :
    ∃ v, u.collect P.service = some v ∧ t.Agree v := by
  have hold : (s.phase e.client).Begun := by
    rw [hphase]
    trivial
  have howner : owner u.turn = some e.client := by
    rw [hturn]
    rfl
  have hentry : (⟨e.client, call.request, marked (.reply (some e.client))
      (frame sizeHeader e.reply.pack), e.reply⟩ : Delivered) = deliveredAs e := by
    rw [hrequest]
    rfl
  -- the service opens a session exactly when the terminal opens
  cases hopens : opensTerminal call.request e.reply with
  | true =>
    -- both sides go on with the terminal
    rw [replyReceived_eq _ _ hcall, if_pos hopens, hentry] at ht
    refine ⟨{ u with turn := .session e.client, collected := u.collected ++ [e] }, ?_, ?_⟩
    · rw [hrequest] at hopens
      simp only [TurnState.collect, hturn, Peers.service, hopens, if_true]
    · rw [hopens] at hsequel
      subst ht
      refine ⟨?_, ⟨call, [], msgs, Function.update_self _ _ _, Or.inl rfl, Or.inl ⟨rfl, hdown⟩,
        hsequel⟩, resting_update h.resting rfl (Or.inr (Or.inl howner)) (Or.inl rfl)⟩
      refine h.records.collect (.terminal call []) ?_ ?_ ?_ ?_ ?_ ?_ hold trivial _ <;> rfl
  | false =>
    -- nothing follows the reply
    obtain ⟨hidle, hmsgs⟩ : s.Idle ∧ msgs = [] := by
      rw [hopens] at hsequel
      rcases hsequel with ⟨heq, -⟩ | ⟨hidle, hnone, -⟩
      · cases heq
      · exact ⟨hidle, hnone rfl⟩
    rw [hmsgs] at hdown
    rw [replyReceived_eq _ _ hcall, if_neg (by rw [hopens]; decide), hentry] at ht
    refine ⟨{ u with turn := .free, collected := u.collected ++ [e] }, ?_, ?_⟩
    · rw [hrequest] at hopens
      simp only [TurnState.collect, hturn, Peers.service, hopens, Bool.false_eq_true, if_false]
    · subst ht
      refine ⟨?_, ⟨hdown, hidle⟩,
        resting_update h.resting rfl (Or.inr (Or.inl howner)) (Or.inr (Or.inr (Or.inl rfl)))⟩
      refine h.records.collect .returned ?_ ?_ ?_ ?_ ?_ ?_ hold trivial _ <;> rfl

/-! ## The terminal -/

/-- Where bytes are received in terminal mode, there is a message of which they are a part. -/
theorem Window.exists_message (h : s.Window c call got msgs) (hpos : 0 < count)
    (hcount : count ≤ s.down.length) :
    ∃ m rest left, msgs = m :: rest ∧ m.Fits ∧ got ++ left = terminalFrame m ∧ left ≠ [] ∧
      s.down = left ++ terminalFrames rest := by
  obtain ⟨m, rest, left, rfl, hpart⟩ : ∃ m rest left, msgs = m :: rest ∧
      got ++ left = terminalFrame m ∧ left ≠ [] ∧ s.down = left ++ terminalFrames rest := by
    rcases h.down with ⟨hgot, hdown⟩ | hpart
    · cases msgs with
      | nil =>
        rw [hdown, terminalFrames_nil, List.length_nil] at hcount
        omega
      | cons m rest =>
        refine ⟨m, rest, terminalFrame m, rfl, by rw [hgot, List.nil_append], ?_, hdown⟩
        apply List.ne_nil_of_length_pos
        simp [terminalFrame, sizeHeader]
    · exact hpart
  have hfits : m.Fits := by
    rcases h.sequel with ⟨-, -, -, htranscript⟩ | ⟨-, -, htranscript⟩ <;>
      exact htranscript.head_fits
  exact ⟨m, rest, left, rfl, hfits, hpart⟩

/-- A whole message is received: output leaves the call in terminal mode, and the exit code ends
that. -/
theorem window_message {m : RpcPtyMessage} {rest : List RpcPtyMessage}
    (hsequel : s.Sequel true (m :: rest)) (hfits : m.Fits)
    (hall : got ++ s.down.take count = terminalFrame m)
    (hdrop : s.down.drop count = terminalFrames rest) :
    (∃ got' msgs', ((s.takeDown count).receiveTerminal P c call
        (got ++ s.down.take count)).Window c call got' msgs' ∧
      Unnoticed s ((s.takeDown count).receiveTerminal P c call (got ++ s.down.take count)) c
        (.terminal call got')) ∨
    ((s.takeDown count).receiveTerminal P c call (got ++ s.down.take count)).Quiet ∧
      Unnoticed s ((s.takeDown count).receiveTerminal P c call (got ++ s.down.take count)) c
        .returned := by
  have fits : m.pack.length < 256 ^ sizeHeader := RpcPtyMessage.pack_fits hfits
  have hfront : unmarked (terminalFrame m) = frame sizeHeader m.pack := unmarked_marked
  have hparse : P.parser.parsePty (frameBody sizeHeader (frame sizeHeader m.pack)) = some m := by
    rw [frameBody_frame]
    exact P.parser.parsePty_pack hfits
  have hbuffer : ∀ buf, m = .buffer buf → s.Sequel true rest →
      ∃ got' msgs', ((s.takeDown count).receiveTerminal P c call
        (got ++ s.down.take count)).Window c call got' msgs' ∧
        Unnoticed s ((s.takeDown count).receiveTerminal P c call (got ++ s.down.take count)) c
          (.terminal call got') := by
    rintro buf rfl hsequel
    simp only [receiveTerminal, hall, hfront, receipt_frame fits, hparse]
    exact ⟨[], rest, ⟨Function.update_self _ _ _, Or.inl rfl, Or.inl ⟨rfl, hdrop⟩, hsequel⟩,
      rfl, rfl, rfl, rfl, rfl, rfl⟩
  -- the server sends on, or has sent its exit code as the last message
  rcases hsequel with ⟨-, hmode, hinput, htranscript⟩ | ⟨hidle, -, htranscript⟩
  · rcases htranscript.cons_cases with ⟨buf, hm, htail⟩ | ⟨status, -, -, hover⟩
    · exact Or.inl (hbuffer buf hm (Or.inl ⟨rfl, hmode, hinput, htail⟩))
    · cases hover
  · rcases htranscript.cons_cases with ⟨buf, hm, htail⟩ | ⟨status, rfl, hlast, -⟩
    · refine Or.inl (hbuffer buf hm (Or.inr ⟨hidle, ?_, htail⟩))
      rintro ⟨⟩
    · right
      rw [hlast] at hdrop
      simp only [receiveTerminal, hall, hfront, receipt_frame fits, hparse]
      exact ⟨⟨hdrop, hidle⟩, rfl, rfl, rfl, rfl, rfl, rfl⟩

/-- A receive in terminal mode gets more of a message, a whole message, or the
exit code, and then nothing follows. -/
theorem window_sockRecv (h : s.Window c call got msgs) (hsize : got = [] → count = sizeHeader)
    (hstep : s.sockRecv P c count = some t) :
    (∃ got' msgs', t.Window c call got' msgs' ∧ Unnoticed s t c (.terminal call got')) ∨
    t.Quiet ∧ Unnoticed s t c .returned := by
  obtain ⟨call', got', ⟨hpos, hneed, hcount⟩, ⟨hphase, -⟩ | ⟨hphase, rfl⟩⟩ := sockRecv_eq_some hstep
  · rw [h.phase] at hphase
    cases hphase
  obtain ⟨rfl, rfl⟩ : call = call' ∧ got = got' := Phase.terminal.inj (h.phase.symm.trans hphase)
  have hlong := size_receive h.size hsize hcount
  obtain ⟨m, rest, left, rfl, hfits, hwhole, hleft, hdown⟩ := h.exists_message hpos hcount
  have fits : m.pack.length < 256 ^ sizeHeader := RpcPtyMessage.pack_fits hfits
  have hfront : unmarked (terminalFrame m) = frame sizeHeader m.pack := unmarked_marked
  have hreceive := receive_within (terminalFrames rest) fits hfront hwhole hleft hneed
  rw [← hdown] at hreceive
  rcases hreceive with ⟨hall, hdrop⟩ | ⟨left', hleft', hmore, hdrop⟩
  · exact window_message h.sequel hfits hall hdrop
  · left
    have hopen := receipt_open fits hfront hmore hleft' hlong
    simp only [receiveTerminal, hopen]
    exact ⟨_, _, ⟨Function.update_self _ _ _, Or.inr hlong,
      Or.inr ⟨m, rest, left', rfl, hmore, hleft', hdrop⟩, h.sequel⟩, rfl, rfl, rfl, rfl, rfl, rfl⟩

/-- The turn of a call in terminal mode is over. -/
theorem agree_close (h : s.Agree u) (hturn : u.turn = .session c) (hquiet : t.Quiet)
    (ht : Unnoticed s t c phase) (hover : phase = .returned ∨ phase = .raised)
    (hold : (s.phase c).Begun ∧ (s.phase c).Answered) :
    ∃ v, u.close = some v ∧ t.Agree v := by
  refine ⟨{ u with turn := .free }, by simp only [TurnState.close, hturn], ?_, hquiet,
    resting_update h.resting ht.phase (Or.inr (Or.inl (hturn ▸ rfl))) (Or.inr (Or.inr hover))⟩
  have hrecords : t.Records u := by
    apply h.records.unnoticed ht
    · rintro -
      rcases hover with rfl | rfl
      · exact Or.inl trivial
      · exact Or.inr rfl
    · exact fun _ => hold.1
    · exact fun _ => hold.2
  exact { hrecords with }

theorem agree_sockRecv (h : s.Agree u) (hok : s.LeavesCleanly (.sockRecv c count))
    (hstep : s.sockRecv P c count = some t) :
    t.Agree u ∨ (∃ v, u.collect P.service = some v ∧ t.Agree v) ∨ ∃ v, u.close = some v ∧
      t.Agree v := by
  obtain ⟨call, got, ⟨hpos, -, hcount⟩, hphases⟩ := sockRecv_eq_some hstep
  -- a size comes whole, or the call would raise
  have hsize : got = [] → count = sizeHeader := by
    rintro rfl
    exact hok call (hphases.imp And.left And.left)
  rcases hphases with ⟨hphase, -⟩ | ⟨hphase, -⟩
  · rcases h.turn_of_receiving hphase with ⟨-, hasking⟩ | ⟨reply, left, msgs, hturn, hanswering⟩
    -- nothing has come yet
    · rw [hasking.down, List.length_nil] at hcount
      omega
    rcases answering_sockRecv hanswering hsize hstep with
      ⟨got, left', hanswering', ht⟩ | ⟨hdown, ht⟩
    · left
      refine ⟨h.records.unnoticed ht ?_ ?_ False.elim, ?_,
        resting_update h.resting ht.phase (Or.inr (Or.inr rfl)) (Or.inl (hturn ▸ rfl))⟩
      · exact fun _ => Or.inl trivial
      · rw [hphase]
        exact id
      · rw [hturn]
        exact ⟨call, got, left', msgs, rfl, hanswering'⟩
    · exact Or.inr (Or.inl (agree_replyReceived h hturn hanswering.wellFormed rfl hphase
        hanswering.sequel hdown ht))
  · obtain ⟨hturn, msgs, hwindow⟩ := h.turn_of_terminal hphase
    have hold : (s.phase c).Begun ∧ (s.phase c).Answered := by
      rw [hphase]
      exact ⟨trivial, trivial⟩
    rcases window_sockRecv hwindow hsize hstep with ⟨got, msgs', hwindow', ht⟩ | ⟨hquiet, ht⟩
    · left
      refine ⟨h.records.unnoticed ht (fun _ => Or.inl trivial) (fun _ => hold.1) (fun _ => hold.2),
        ?_, resting_update h.resting ht.phase (Or.inr (Or.inr rfl)) (Or.inl (hturn ▸ rfl))⟩
      rw [hturn]
      exact ⟨call, got, msgs', hwindow'⟩
    · exact Or.inr (Or.inr (agree_close h hturn hquiet ht (Or.inl rfl) hold))

/-- Terminal input is sent while the server takes it. -/
theorem agree_forwardStdin {buf : Bytes} (h : s.Agree u) (hok : s.DrainsInput (.forwardStdin c buf))
    (hstep : s.forwardStdin c buf = some t) : t.Agree u := by
  obtain ⟨call, hphase, -, rfl⟩ := forwardStdin_eq_some hstep
  obtain ⟨hturn, msgs, hwindow⟩ := h.turn_of_terminal hphase
  refine ⟨⟨h.records.process, h.records.served, h.records.delivered, h.records.asked,
    h.records.begun, h.records.answered, h.records.withdrawn, h.records.childInput⟩, ?_, h.resting⟩
  rw [hturn]
  refine ⟨call, [], msgs, hwindow.phase, hwindow.size, hwindow.down, ?_⟩
  -- the discipline says that the server is still in terminal mode
  rcases hwindow.sequel with ⟨hopens, hmode, hinput, htranscript⟩ | ⟨hidle, -⟩
  · refine Or.inl ⟨hopens, hmode, fun b hb => ?_, htranscript⟩
    rcases List.mem_append.mp hb with hb | hb
    · exact hinput b hb
    · rw [mark_of_mem hb]
      trivial
  · exact absurd hok hidle.mode_ne

/-! ## Exceptions -/

/-- A call that can get no reply any more withdraws. -/
theorem agree_withdraw (h : s.Agree u) {request : RpcMessage} (hturn : u.turn = .asked c request)
    (hclosed : s.mode = .closed) (hdown : t.down = []) (ht : Unnoticed s t c .raised) :
    ∃ v, u.withdraw = some v ∧ t.Agree v := by
  refine ⟨{ u with turn := .free, withdrawn := u.withdrawn ++ [c] },
    by simp only [TurnState.withdraw, hturn], ?_, ⟨hdown, Or.inl (ht.mode.trans hclosed)⟩,
    resting_update h.resting ht.phase (Or.inr (Or.inl (hturn ▸ rfl)))
      (Or.inr (Or.inr (Or.inr rfl)))⟩
  have hrecords : t.Records u :=
    h.records.unnoticed ht (fun _ => Or.inr rfl) False.elim False.elim
  exact { hrecords with withdrawn := fun _ => ht.mode.trans hclosed }

theorem agree_raise (h : s.Agree u) (hok : s.LeavesCleanly (.raise c))
    (hstep : s.raise c = some t) :
    t.Agree u ∨ (∃ v, u.withdraw = some v ∧ t.Agree v) ∨ ∃ v, u.close = some v ∧ t.Agree v := by
  have hallowed : s.MayLeave (s.phase c) := hok
  unfold raise at hstep
  split at hstep
  · next call hphase =>
    -- waiting for the lock of the client
    split at hstep
    · cases hstep
    · obtain rfl := Option.some.inj hstep
      left
      apply (h.locks s.lock _).setPhase_fresh _ (Or.inr rfl)
      exact (h.fresh_of_waits (Or.inl hphase)).1
  · next call hphase =>
    -- waiting for the lock of the socket
    obtain rfl := Option.some.inj hstep
    left
    apply (h.locks (s.lock.withdraw c) _).setPhase_fresh _ (Or.inr rfl)
    exact (h.fresh_of_waits (Or.inr hphase)).1
  · next call rest hphase =>
    obtain rfl := Option.some.inj hstep
    rcases h.turn_of_sending hphase with ⟨-, hfresh⟩ | ⟨hturn, hasking⟩
    -- nothing is sent
    · exact Or.inl ((h.locks s.lock.release _).setPhase_fresh hfresh (Or.inr rfl))
    -- part of the request is sent
    · have hpart : rest ≠ call.frame := by
        rintro rfl
        exact absurd hasking.begun (lt_irrefl _)
      rw [hphase] at hallowed
      obtain ⟨hclosed, hdown⟩ := hallowed.resolve_left hpart
      exact Or.inr (Or.inl (agree_withdraw h hturn hclosed hdown ⟨rfl, rfl, rfl, rfl, rfl, rfl⟩))
  · next call got hphase =>
    obtain rfl := Option.some.inj hstep
    rw [hphase] at hallowed
    obtain ⟨hclosed, hdown⟩ := hallowed
    rcases h.turn_of_receiving hphase with ⟨hturn, -⟩ | ⟨reply, left, msgs, -, hanswering⟩
    · exact Or.inr (Or.inl (agree_withdraw h hturn hclosed hdown ⟨rfl, rfl, rfl, rfl, rfl, rfl⟩))
    -- the rest of the reply is still there
    · rw [hanswering.down] at hdown
      exact absurd (List.append_eq_nil_iff.mp hdown).1 hanswering.unread
  · next call got hphase =>
    obtain rfl := Option.some.inj hstep
    rw [hphase] at hallowed
    obtain ⟨hturn, -⟩ := h.turn_of_terminal hphase
    -- everything of the terminal was received, so its turn is over
    have hold : (s.phase c).Begun ∧ (s.phase c).Answered := by
      rw [hphase]
      exact ⟨trivial, trivial⟩
    exact Or.inr (Or.inr (agree_close h hturn hallowed.2 ⟨rfl, rfl, rfl, rfl, rfl, rfl⟩
      (Or.inr rfl) hold))
  · cases hstep

/-! ## All steps -/

/-- **Step lemma.** An orderly step is a step of the service, or the service
does not notice it. -/
theorem agree_step {a : Action} (hlocks : s.Locks) (hexclusive : s.Exclusive) (h : s.Agree u)
    (hok : s.Orderly P a) (hstep : step P s a = some t) :
    t.Agree u ∨ ∃ b v, P.service.turnTaking.step u b = some v ∧ t.Agree v := by
  induction a using action_cases with
  | server a ha =>
    exact (agree_server h ha hok.drainsInput hstep).imp_right fun ⟨v, hv, ht⟩ => ⟨.serve, v, hv, ht⟩
  | rpcCall c request => exact Or.inl (agree_rpcCall h hstep)
  | spawn c client request => exact Or.inl (agree_spawn h hstep)
  | clientLockGranted c => exact Or.inl (agree_clientLockGranted h hstep)
  | socketLockGranted c => exact Or.inl (agree_socketLockGranted h hstep)
  | sockSendall c count =>
    exact (agree_sockSendall hlocks hexclusive h hstep).imp_right
      fun ⟨request, v, hv, ht⟩ => ⟨.ask c request, v, hv, ht⟩
  | sockRecv c count =>
    rcases agree_sockRecv (P := P) h hok.leavesCleanly hstep with ht | ⟨v, hv, ht⟩ | ⟨v, hv, ht⟩
    · exact Or.inl ht
    · exact Or.inr ⟨.collect, v, hv, ht⟩
    · exact Or.inr ⟨.close, v, hv, ht⟩
  | raise c =>
    rcases agree_raise h hok.leavesCleanly hstep with ht | ⟨v, hv, ht⟩ | ⟨v, hv, ht⟩
    · exact Or.inl ht
    · exact Or.inr ⟨.withdraw, v, hv, ht⟩
    · exact Or.inr ⟨.close, v, hv, ht⟩
  | forwardStdin c buf => exact Or.inl (agree_forwardStdin h hok.drainsInput hstep)

end State

open State

/-- **Simulation.** Every state that an orderly run reaches agrees with a
reachable state of the service. -/
theorem agree_of_reaches {σ : Type} {P : Peers σ} {s : State σ}
    (h : (machine P).Reaches (Orderly P) s) :
    ∃ u, P.service.turnTaking.Reachable u ∧ s.Agree u := by
  refine h.simulates (R := Agree) ?_ ?_
  · rintro s ⟨process, rfl⟩
    exact ⟨TurnState.initial process, ⟨process, rfl⟩, agree_initial process⟩
  · intro s a t u hs hagree hok hstep
    exact agree_step (locks_of_reaches hs) (exclusive_of_reaches (fun _ _ h => h.undisturbed) hs)
      hagree hok hstep

/-! ## What the records show -/

namespace State

variable {σ : Type} {P : Peers σ} {s : State σ} {u : Turns σ} {c : CallId} {d : Delivered}
  {e : Served}

/-- The reply that a call received is the whole reply that the server made to
the request of that call. -/
structure Own (s : State σ) (d : Delivered) : Prop where
  bytes : d.bytes = marked (.reply (some d.call)) (frame sizeHeader d.reply.pack)
  served : ⟨some d.call, d.request, d.reply⟩ ∈ s.served

/-- Every reply that was received is the call's own. -/
theorem Agree.own (h : s.Agree u) (hledger : u.Ledger P.service) (hd : d ∈ s.delivered) :
    s.Own d := by
  rw [h.records.delivered] at hd
  obtain ⟨exchange, hmem, rfl⟩ := List.mem_map.mp hd
  refine ⟨rfl, ?_⟩
  rw [h.records.served]
  exact List.mem_map.mpr ⟨exchange, hledger.mem_served hmem, rfl⟩

theorem map_author (exchanges : List (Exchange CallId RpcMessage RpcMessage)) :
    (exchanges.map servedAs).map Served.author = (exchanges.map Exchange.client).map some := by
  rw [List.map_map, List.map_map]
  rfl

/-- No request is processed twice. -/
theorem Agree.served_nodup (h : s.Agree u) (hledger : u.Ledger P.service) :
    (s.served.map Served.author).Nodup := by
  rw [h.records.served, map_author]
  exact hledger.served_nodup.map (Option.some_injective _)

/-- No reply is delivered twice. -/
theorem Agree.delivered_nodup (h : s.Agree u) (hledger : u.Ledger P.service) :
    (s.delivered.map Delivered.call).Nodup := by
  rw [h.records.delivered, List.map_map]
  exact hledger.collected_nodup

/-- A reply that was made was received, or the call that asked for it is receiving it. -/
theorem Agree.kept (h : s.Agree u) (hledger : u.Ledger P.service) (he : e ∈ s.served) :
    ∃ c, e.author = some c ∧
      ((∃ d ∈ s.delivered, d.call = c ∧ d.request = e.request ∧ d.reply = e.reply) ∨
        ∃ call got left msgs, call.request = e.request ∧
          s.Answering c call got left e.reply msgs) := by
  rw [h.records.served, hledger.served] at he
  obtain ⟨exchange, hmem, rfl⟩ := List.mem_map.mp he
  refine ⟨exchange.client, rfl, ?_⟩
  rcases List.mem_append.mp hmem with hmem | hmem
  · left
    rw [h.records.delivered]
    exact ⟨deliveredAs exchange, List.mem_map_of_mem hmem, rfl, rfl, rfl⟩
  · right
    have hsituation := h.situation
    cases hturn : u.turn with
    | answered other =>
      rw [hturn] at hmem hsituation
      obtain rfl : exchange = other := List.mem_singleton.mp hmem
      exact hsituation
    | _ =>
      rw [hturn] at hmem
      exact absurd hmem List.not_mem_nil

/-- A call that has its reply received it once, and its request was processed once. -/
theorem Agree.answered_once (h : s.Agree u) (hledger : u.Ledger P.service)
    (hanswered : (s.phase c).Answered) :
    (s.served.map Served.author).count (some c) = 1 ∧
      (s.delivered.map Delivered.call).count c = 1 := by
  obtain ⟨exchange, hmem, rfl⟩ := List.mem_map.mp (h.records.answered c hanswered)
  refine ⟨List.count_eq_one_of_mem (h.served_nodup hledger) ?_,
    List.count_eq_one_of_mem (h.delivered_nodup hledger) ?_⟩
  · rw [h.records.served, map_author]
    exact List.mem_map_of_mem (List.mem_map_of_mem (hledger.mem_served hmem))
  · rw [h.records.delivered, List.map_map]
    exact List.mem_map_of_mem hmem

/-- Unless the server is gone, a request that was sent was processed once, or is
on its way. -/
theorem Agree.processed (h : s.Agree u) (hledger : u.Ledger P.service) (hopen : s.mode ≠ .closed)
    (hbegun : (s.phase c).Begun) :
    (s.served.map Served.author).count (some c) = 1 ∨ ∃ call rest, s.Asking c call rest := by
  rcases hledger.served_or_of_mem_asked (h.records.begun c hbegun) with
    ⟨exchange, hmem, rfl⟩ | hwithdrawn | hpending
  · left
    apply List.count_eq_one_of_mem (h.served_nodup hledger)
    rw [h.records.served, map_author]
    exact List.mem_map_of_mem (List.mem_map_of_mem hmem)
  · exact absurd (h.records.withdrawn (List.ne_nil_of_mem hwithdrawn)) hopen
  · right
    have hsituation := h.situation
    cases hturn : u.turn with
    | asked c' request =>
      rw [hturn] at hpending hsituation
      obtain rfl : c = c' := List.mem_singleton.mp hpending
      obtain ⟨call, rest, -, hasking⟩ := hsituation
      exact ⟨call, rest, hasking⟩
    | _ =>
      rw [hturn] at hpending
      exact absurd hpending List.not_mem_nil

/-- The replies are those of the process to the requests it served, in order. -/
theorem Agree.serial (h : s.Agree u) (hledger : u.Ledger P.service) :
    ∃ first, s.served.map Served.reply =
      P.service.replies first (s.served.map Served.request) := by
  obtain ⟨first, -, hreplies⟩ := hledger.replies
  refine ⟨first, ?_⟩
  rw [h.records.served, List.map_map, List.map_map]
  exact hreplies

/-- A call that raised has had no effect, or has received its own reply before. -/
theorem Agree.raised (h : s.Agree u) (hledger : u.Ledger P.service)
    (hphase : s.phase c = .raised) :
    (∀ e ∈ s.served, e.author ≠ some c) ∨ ∃ d ∈ s.delivered, d.call = c := by
  -- if the request was served, its reply is delivered or on its way
  by_cases hserved : ∃ e ∈ s.served, e.author = some c
  · right
    obtain ⟨e, he, hauthor⟩ := hserved
    obtain ⟨c', hc', ⟨d, hd, rfl, -⟩ | ⟨call, got, left, msgs, -, hanswering⟩⟩ := h.kept hledger he
    · exact ⟨d, hd, Option.some.inj (hc'.symm.trans hauthor)⟩
    -- the call that receives has not raised
    · obtain rfl : c' = c := Option.some.inj (hc'.symm.trans hauthor)
      cases hanswering.phase.symm.trans hphase
  · left
    intro e he hauthor
    exact hserved ⟨e, he, hauthor⟩

end State

end RpcProject.Session
