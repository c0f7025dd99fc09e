/-
# The connection and its service

The server process is a service whose clients take turns. The relation of this
module connects the connection to that service: it says which call has the turn,
what is then on the streams and where the server is, that all other calls rest,
and that the records of both sides are those of the service.
-/

import RpcProject.Foundations.TurnTaking
import RpcProject.Session.Streams

namespace RpcProject.Session

open Foundations Foundations.Wire Protocol Client Server

/-! ## The service -/

/-- The reply to a request fits its format. -/
theorem Peers.reply_fits {σ : Type} (P : Peers σ) (s : σ) (request : RpcMessage) :
    (P.reply s request).payload.length ≤ maxDelimited := by
  -- the text of an error reply is cut to its buffer
  have herror : ∀ (out : RpcMessage) (text : Bytes),
      (replyError out text).payload.length ≤ maxDelimited := by
    intro out text
    have hpack := ReplyError.pack_length_le ⟨text.take (maxErrorMsgLen - 1)⟩
    have htext : (text.take (maxErrorMsgLen - 1)).length ≤ maxErrorMsgLen - 1 :=
      List.length_take_le _ _
    have hbound : 20 + (maxErrorMsgLen - 1) ≤ maxDelimited := by decide
    exact le_trans hpack (le_trans (Nat.add_le_add_left htext 20) hbound)
  have hdispatched := rpcDispatch_dispatched P.platform (P.routines s) request
  unfold Peers.reply
  generalize rpcDispatch P.platform (P.routines s) request = reply at hdispatched
  cases hdispatched with
  | unknown _ _ => exact herror _ _
  | undecodable _ _ => exact Nat.zero_le _
  | failed _ _ _ _ => exact herror _ _
  | replied _ _ hstatus => exact P.fits _ _ _ _ hstatus

/-- The server process as a service. -/
def Peers.service {σ : Type} (P : Peers σ) : Service σ RpcMessage RpcMessage where
  next := P.next
  reply := P.reply
  opens := opensTerminal

abbrev Turns (σ : Type) := TurnState σ CallId RpcMessage RpcMessage

/-- An exchange in the record of the server. -/
def servedAs (e : Exchange CallId RpcMessage RpcMessage) : Served :=
  ⟨some e.client, e.request, e.reply⟩

/-- An exchange in the record of the client. -/
def deliveredAs (e : Exchange CallId RpcMessage RpcMessage) : Delivered :=
  ⟨e.client, e.request, marked (.reply (some e.client)) (frame sizeHeader e.reply.pack), e.reply⟩

namespace State

variable {σ : Type} {P : Peers σ} {s t : State σ} {u : Turns σ} {c v : CallId} {call : Call}
  {phase : Phase} {rest : Bytes} {got left : List DownByte} {reply : RpcMessage}
  {msgs : List RpcPtyMessage} {count : ℕ}

/-! ## The relation -/

/-- The streams and the call that has the turn. -/
def Situation (s : State σ) : Turn CallId RpcMessage RpcMessage → Prop
  | .free => s.Quiet
  | .asked c request => ∃ call rest, call.request = request ∧ s.Asking c call rest
  | .answered e => ∃ call got left msgs, call.request = e.request ∧
      s.Answering e.client call got left e.reply msgs
  | .session c => ∃ call got msgs, s.Window c call got msgs

/-- The call that has the turn. -/
def owner : Turn CallId RpcMessage RpcMessage → Option CallId
  | .free => none
  | .asked c _ => some c
  | .answered e => some e.client
  | .session c => some c

/-- What the records of both sides say. -/
structure Records (s : State σ) (u : Turns σ) : Prop where
  process : s.process = u.process
  served : s.served = u.served.map servedAs
  delivered : s.delivered = u.collected.map deliveredAs
  asked : ∀ c ∈ u.asked, (s.phase c).Begun ∨ s.phase c = .raised
  begun : ∀ c, (s.phase c).Begun → c ∈ u.asked
  answered : ∀ c, (s.phase c).Answered → c ∈ u.collected.map Exchange.client
  withdrawn : u.withdrawn ≠ [] → s.mode = .closed
  childInput : ∀ b ∈ s.childInput, b.2.IsInput

/-- The connection and the service agree. -/
structure Agree (s : State σ) (u : Turns σ) : Prop where
  records : s.Records u
  situation : s.Situation u.turn
  resting : ∀ c, owner u.turn ≠ some c → (s.phase c).Resting

theorem agree_initial (process : σ) : (initial process).Agree (TurnState.initial process) where
  records :=
    { process := rfl
      served := rfl
      delivered := rfl
      asked := fun _ h => absurd h List.not_mem_nil
      begun := fun _ h => h.elim
      answered := fun _ h => h.elim
      withdrawn := fun h => absurd rfl h
      childInput := fun _ h => absurd h List.not_mem_nil }
  situation := ⟨rfl, Or.inr ⟨rfl, rfl⟩⟩
  resting _ _ := Or.inl trivial

/-! ## Who has the turn -/

/-- What the call that has the turn is at: it asks, is answered or is in terminal mode. -/
theorem Situation.owner_cases {turn : Turn CallId RpcMessage RpcMessage} (h : s.Situation turn)
    (howner : owner turn = some c) :
    (∃ call rest, turn = .asked c call.request ∧ s.Asking c call rest) ∨
    (∃ call got left reply msgs, turn = .answered ⟨c, call.request, reply⟩ ∧
      s.Answering c call got left reply msgs) ∨
    ∃ call got msgs, turn = .session c ∧ s.Window c call got msgs := by
  cases turn with
  | free => cases howner
  | asked c' request =>
    obtain rfl : c' = c := Option.some.inj howner
    obtain ⟨call, rest, rfl, hasking⟩ := h
    exact Or.inl ⟨call, rest, rfl, hasking⟩
  | answered e =>
    obtain ⟨client, request, reply⟩ := e
    obtain rfl : client = c := Option.some.inj howner
    obtain ⟨call, got, left, msgs, rfl, hanswering⟩ := h
    exact Or.inr (Or.inl ⟨call, got, left, reply, msgs, rfl, hanswering⟩)
  | session c' =>
    obtain rfl : c' = c := Option.some.inj howner
    obtain ⟨call, got, msgs, hwindow⟩ := h
    exact Or.inr (Or.inr ⟨call, got, msgs, rfl, hwindow⟩)

/-- The call that has the turn sends, receives or is in terminal mode. -/
theorem Situation.owner_phase {turn : Turn CallId RpcMessage RpcMessage} (h : s.Situation turn)
    (howner : owner turn = some c) : (s.phase c).HoldsSocket ∨ (s.phase c).InTerminal := by
  rcases h.owner_cases howner with ⟨call, rest, -, hasking⟩ |
    ⟨call, got, left, reply, msgs, -, hanswering⟩ | ⟨call, got, msgs, -, hwindow⟩
  · rw [hasking.phase]
    split <;> exact Or.inl trivial
  · rw [hanswering.phase]
    exact Or.inl trivial
  · rw [hwindow.phase]
    exact Or.inr trivial

/-- A call that does none of that rests. -/
theorem Agree.resting_of (h : s.Agree u) (hholds : ¬ (s.phase c).HoldsSocket)
    (hterminal : ¬ (s.phase c).InTerminal) : (s.phase c).Resting := by
  apply h.resting
  intro howner
  exact (h.situation.owner_phase howner).elim hholds hterminal

/-- A call that does not rest has the turn. -/
theorem Agree.owner_of_not_resting (h : s.Agree u) (hbusy : ¬ (s.phase c).Resting) :
    owner u.turn = some c := by
  by_contra hne
  exact hbusy (h.resting c hne)

/-- When a call holds the lock of the socket and has not the turn, nobody has. -/
theorem Agree.turn_eq_free (h : s.Agree u) (hlocks : s.Locks) (hexclusive : s.Exclusive)
    (hholds : (s.phase c).HoldsSocket) (howner : owner u.turn ≠ some c) : u.turn = .free := by
  cases hturn : owner u.turn with
  | none =>
    cases hu : u.turn with
    | free => rfl
    | _ =>
      rw [hu] at hturn
      cases hturn
  | some v =>
    rcases h.situation.owner_phase hturn with hv | hv
    -- two calls cannot hold the lock
    · obtain rfl := hlocks.socket.unique hv hholds
      exact absurd hturn howner
    -- and no call holds it beside a terminal
    · have hne : c ≠ v := by
        rintro rfl
        exact howner hturn
      have haside := hexclusive v hv c hne
      cases hphase : s.phase c <;> simp_all [Phase.Aside, Phase.HoldsSocket]

/-- A call that sends has sent nothing yet, or has the turn. -/
theorem Agree.turn_of_sending (h : s.Agree u) (hphase : s.phase c = .sending call rest) :
    owner u.turn ≠ some c ∧ (s.phase c).Fresh ∨
      u.turn = .asked c call.request ∧ s.Asking c call rest := by
  -- without the turn a call that sends has all of its frame left
  by_cases howner : owner u.turn = some c
  · right
    rcases h.situation.owner_cases howner with ⟨call', rest', hturn, hasking⟩ |
      ⟨call', got, left, reply, msgs, -, hanswering⟩ | ⟨call', got, msgs, -, hwindow⟩
    · have hsame := hasking.phase.symm.trans hphase
      split at hsame
      · cases hsame
      · obtain ⟨rfl, rfl⟩ := Phase.sending.inj hsame
        exact ⟨hturn, hasking⟩
    · cases hanswering.phase.symm.trans hphase
    · cases hwindow.phase.symm.trans hphase
  · exact Or.inl ⟨howner, (h.resting c howner).fresh_of_holdsSocket (by rw [hphase]; trivial)⟩

/-- A call that receives has the turn: its request is on its way, or its reply is. -/
theorem Agree.turn_of_receiving (h : s.Agree u) (hphase : s.phase c = .receiving call got) :
    u.turn = .asked c call.request ∧ s.Asking c call [] ∨
      ∃ reply left msgs, u.turn = .answered ⟨c, call.request, reply⟩ ∧
        s.Answering c call got left reply msgs := by
  have hbusy : ¬ (s.phase c).Resting := by
    rw [hphase]
    rintro (hfresh | heq | heq)
    · exact hfresh
    · cases heq
    · cases heq
  rcases h.situation.owner_cases (h.owner_of_not_resting hbusy) with
    ⟨call', rest, hturn, hasking⟩ | ⟨call', got', left, reply, msgs, hturn, hanswering⟩ |
    ⟨call', got', msgs, -, hwindow⟩
  · left
    have hsame := hasking.phase.symm.trans hphase
    split at hsame
    · next hrest =>
      obtain ⟨rfl, rfl⟩ := Phase.receiving.inj hsame
      exact ⟨hturn, hrest ▸ hasking⟩
    · cases hsame
  · right
    obtain ⟨rfl, rfl⟩ := Phase.receiving.inj (hanswering.phase.symm.trans hphase)
    exact ⟨reply, left, msgs, hturn, hanswering⟩
  · cases hwindow.phase.symm.trans hphase

/-- A call in terminal mode has the turn. -/
theorem Agree.turn_of_terminal (h : s.Agree u) (hphase : s.phase c = .terminal call got) :
    u.turn = .session c ∧ ∃ msgs, s.Window c call got msgs := by
  have hbusy : ¬ (s.phase c).Resting := by
    rw [hphase]
    rintro (hfresh | heq | heq)
    · exact hfresh
    · cases heq
    · cases heq
  rcases h.situation.owner_cases (h.owner_of_not_resting hbusy) with
    ⟨call', rest, -, hasking⟩ | ⟨call', got', left, reply, msgs, -, hanswering⟩ |
    ⟨call', got', msgs, hturn, hwindow⟩
  · rw [hasking.phase] at hphase
    split at hphase <;> cases hphase
  · cases hanswering.phase.symm.trans hphase
  · obtain ⟨rfl, rfl⟩ := Phase.terminal.inj (hwindow.phase.symm.trans hphase)
    exact ⟨hturn, msgs, hwindow⟩

/-- A situation is a matter of the streams, the server and the call that has the turn. -/
theorem Situation.congr {turn : Turn CallId RpcMessage RpcMessage} (h : s.Situation turn)
    (hmode : t.mode = s.mode) (hup : t.up = s.up) (hdown : t.down = s.down)
    (hphase : ∀ c, owner turn = some c → t.phase c = s.phase c) : t.Situation turn := by
  -- the server has the same to do
  have hidle : s.Idle → t.Idle := by
    unfold Idle
    rw [hmode, hup]
    exact id
  have hsequel : ∀ opens msgs, s.Sequel opens msgs → t.Sequel opens msgs := by
    intro opens msgs hsequel
    unfold Sequel Idle at *
    rwa [hmode, hup]
  cases turn with
  | free => exact ⟨hdown.trans h.1, hidle h.2⟩
  | asked c request =>
    obtain ⟨call, rest, hrequest, hasking⟩ := h
    refine ⟨call, rest, hrequest, ?_, hasking.wellFormed, hasking.begun,
      hdown.trans hasking.down, ?_⟩
    · exact (hphase c rfl).trans hasking.phase
    · rw [hmode, hup]
      exact hasking.up
  | answered e =>
    obtain ⟨call, got, left, msgs, hrequest, hanswering⟩ := h
    exact ⟨call, got, left, msgs, hrequest,
      { hanswering with
        phase := (hphase _ rfl).trans hanswering.phase
        down := hdown.trans hanswering.down
        sequel := hsequel _ _ hanswering.sequel }⟩
  | session c =>
    obtain ⟨call, got, msgs, hwindow⟩ := h
    refine ⟨call, got, msgs, (hphase _ rfl).trans hwindow.phase, hwindow.size, ?_,
      hsequel _ _ hwindow.sequel⟩
    rw [hdown]
    exact hwindow.down

/-! ## The records -/

/-- Steps of one call that the server and its records do not notice. -/
structure Unnoticed (s t : State σ) (c : CallId) (phase : Phase) : Prop where
  process : t.process = s.process
  mode : t.mode = s.mode
  served : t.served = s.served
  delivered : t.delivered = s.delivered
  childInput : t.childInput = s.childInput
  phase : t.phase = Function.update s.phase c phase

/-- The records do not change when a call goes on without asking or collecting. -/
theorem Records.unnoticed (h : s.Records u) (ht : Unnoticed s t c phase)
    (hasked : (s.phase c).Begun ∨ s.phase c = .raised → phase.Begun ∨ phase = .raised)
    (hbegun : phase.Begun → (s.phase c).Begun)
    (hanswered : phase.Answered → (s.phase c).Answered) : t.Records u where
  process := ht.process.trans h.process
  served := ht.served.trans h.served
  delivered := ht.delivered.trans h.delivered
  asked v hv := by
    rcases phase_update ht.phase v with ⟨rfl, heq⟩ | ⟨-, heq⟩ <;> rw [heq]
    · exact hasked (h.asked v hv)
    · exact h.asked v hv
  begun v hv := by
    rcases phase_update ht.phase v with ⟨rfl, heq⟩ | ⟨-, heq⟩ <;> rw [heq] at hv
    · exact h.begun v (hbegun hv)
    · exact h.begun v hv
  answered v hv := by
    rcases phase_update ht.phase v with ⟨rfl, heq⟩ | ⟨-, heq⟩ <;> rw [heq] at hv
    · exact h.answered v (hanswered hv)
    · exact h.answered v hv
  withdrawn hne := ht.mode.trans (h.withdrawn hne)
  childInput := by
    rw [ht.childInput]
    exact h.childInput

/-- Other calls rest when one changes its phase. -/
theorem resting_update {turn turn' : Turn CallId RpcMessage RpcMessage}
    (h : ∀ v, owner turn ≠ some v → (s.phase v).Resting)
    (hphase : t.phase = Function.update s.phase c phase)
    (hturn : owner turn = none ∨ owner turn = some c ∨ owner turn = owner turn')
    (hc : owner turn' = some c ∨ phase.Resting) :
    ∀ v, owner turn' ≠ some v → (t.phase v).Resting := by
  intro v hv
  rcases phase_update hphase v with ⟨rfl, heq⟩ | ⟨hvc, heq⟩ <;> rw [heq]
  · exact hc.resolve_left hv
  · apply h
    rcases hturn with hturn | hturn | hturn
    · rw [hturn]
      rintro ⟨⟩
    · rw [hturn]
      exact fun heq => hvc (Option.some.inj heq).symm
    · rwa [hturn]

end State

end RpcProject.Session
