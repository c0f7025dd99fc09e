/-
# What the streams of a connection hold

Three disciplines of steps are defined here. A step is *undisturbed* when it
leaves an open terminal to itself; it *leaves cleanly* when no exception ends a
call whose exchange has begun and is not over; and it *drains the input* when
the server's terminal mode ends with no terminal input left unread and no input
is forwarded after it. A step is *orderly* when it is all three.

Along orderly runs the streams hold at most one exchange: part of a request, or
the rest of its reply and what the terminal it opened has sent so far. This
module names these situations and says how bytes are read from them.
-/

import RpcProject.Session.Locks

namespace RpcProject.Session

open Foundations Foundations.Wire Protocol Client Server

/-! ## Marked bytes -/

section Marks

variable {τ : Type} {mark : τ} {bytes more : Bytes} {c : CallId}

@[simp] theorem marked_nil : marked mark [] = [] := rfl

@[simp] theorem marked_length : (marked mark bytes).length = bytes.length := by simp [marked]

@[simp] theorem marked_append :
    marked mark (bytes ++ more) = marked mark bytes ++ marked mark more := by
  simp [marked]

@[simp] theorem unmarked_marked : unmarked (marked mark bytes) = bytes := by
  simp [unmarked, marked, Function.comp_def]

@[simp] theorem marked_eq_nil : marked mark bytes = [] ↔ bytes = [] := by simp [marked]

theorem unmarked_append (xs ys : List (UInt8 × τ)) :
    unmarked (xs ++ ys) = unmarked xs ++ unmarked ys := by
  simp [unmarked]

@[simp] theorem unmarked_length (xs : List (UInt8 × τ)) : (unmarked xs).length = xs.length := by
  simp [unmarked]

theorem mark_of_mem {b : UInt8 × τ} (h : b ∈ marked mark bytes) : b.2 = mark := by
  obtain ⟨byte, -, rfl⟩ := List.mem_map.mp h
  rfl

/-- The author of a request is who sent its bytes. -/
theorem author_marked (h : bytes ≠ []) : author (marked (.request c) bytes) = some c := by
  cases bytes with
  | nil => exact absurd rfl h
  | cons byte rest => simp [marked, author]

/-- A receive that stays within the frame it is in, whose bytes may be marked:
it completes the frame, or stops before its end. -/
theorem receive_within {w : ℕ} {body : Bytes} {got left front : List (UInt8 × τ)} {count : ℕ}
    (rest : List (UInt8 × τ)) (fits : body.length < 256 ^ w)
    (hfront : unmarked front = frame w body)
    (hwhole : got ++ left = front) (hleft : left ≠ [])
    (hneed : count ≤ frameNeed w (unmarked got)) :
    (got ++ (left ++ rest).take count = front ∧ (left ++ rest).drop count = rest) ∨
    ∃ left', left' ≠ [] ∧ got ++ (left ++ rest).take count ++ left' = front ∧
      (left ++ rest).drop count = left' ++ rest := by
  -- the receiver asks for no byte beyond the frame
  have hcount : count ≤ left.length := by
    have hunmarked : unmarked left ≠ [] := by simpa [unmarked] using hleft
    have hwithin := frameNeed_pos_le fits (by rw [← unmarked_append, hwhole, hfront]) hunmarked
    rw [unmarked_length] at hwithin
    exact le_trans hneed hwithin.2
  rw [List.take_append_of_le_length hcount, List.drop_append_of_le_length hcount]
  -- the receive takes all that is left of the frame, or less
  rcases Nat.eq_or_lt_of_le hcount with rfl | hlt
  · exact Or.inl ⟨by rwa [List.take_length], by rw [List.drop_length, List.nil_append]⟩
  · refine Or.inr ⟨left.drop count, ?_, ?_, rfl⟩
    · simpa using hlt
    · rwa [List.append_assoc, List.take_append_drop]

end Marks

section Receipt

variable {body : Bytes}

/-- A receiver that holds the whole frame knows it. -/
theorem receipt_frame (fits : body.length < 256 ^ sizeHeader) :
    receipt (frame sizeHeader body) = .whole := by
  rw [receipt, if_neg (by simp), if_pos (frameNeed_frame fits)]

/-- A receiver that holds the size and part of the body knows that, too. -/
theorem receipt_open {τ : Type} {got left front : List (UInt8 × τ)}
    (fits : body.length < 256 ^ sizeHeader) (hfront : unmarked front = frame sizeHeader body)
    (hwhole : got ++ left = front) (hleft : left ≠ []) (hsize : sizeHeader ≤ got.length) :
    receipt (unmarked got) = .open := by
  have hneed : frameNeed sizeHeader (unmarked got) ≠ 0 :=
    (frameNeed_pos_le fits (by rw [← unmarked_append, hwhole, hfront])
      (by simpa [unmarked] using hleft)).1.ne'
  have hlong : ¬ (unmarked got).length < sizeHeader := by
    rw [unmarked_length]
    exact Nat.not_lt.mpr hsize
  rw [receipt, if_neg hlong, if_neg hneed]

end Receipt

/-! ## Terminal messages -/

/-- The messages that a terminal has sent so far: pieces of output, and the exit
code last if the terminal is over. -/
inductive Transcript : Bool → List RpcPtyMessage → Prop
  | nil {ended : Bool} : Transcript ended []
  | exitCode {status : UInt32} : Transcript true [.exitCode status]
  | buffer {ended : Bool} {buf : Bytes} {rest : List RpcPtyMessage} (fits : FitsBuffer buf)
      (htail : Transcript ended rest) : Transcript ended (.buffer buf :: rest)

namespace Transcript

variable {msgs : List RpcPtyMessage} {m : RpcPtyMessage} {buf : Bytes} {status : UInt32}
  {ended : Bool}

theorem over_of (h : Transcript false msgs) : Transcript true msgs := by
  generalize hended : false = ended at h
  induction h with
  | nil => exact .nil
  | exitCode => cases hended
  | buffer fits _ ih => exact .buffer fits (ih hended)

theorem output (h : Transcript false msgs) (fits : FitsBuffer buf) :
    Transcript false (msgs ++ [.buffer buf]) := by
  generalize hended : false = ended at h
  induction h with
  | nil => exact .buffer fits .nil
  | exitCode => cases hended
  | buffer hfirst _ ih => exact .buffer hfirst (ih hended)

theorem exit (h : Transcript false msgs) : Transcript true (msgs ++ [.exitCode status]) := by
  generalize hended : false = ended at h
  induction h with
  | nil => exact .exitCode
  | exitCode => cases hended
  | buffer fits _ ih => exact .buffer fits (ih hended)

/-- The first message is output, or the exit code and the last. -/
theorem cons_cases (h : Transcript ended (m :: msgs)) :
    (∃ buf, m = .buffer buf ∧ Transcript ended msgs) ∨
      ∃ status, m = .exitCode status ∧ msgs = [] ∧ ended = true := by
  cases h with
  | exitCode => exact Or.inr ⟨_, rfl, rfl, rfl⟩
  | buffer _ htail => exact Or.inl ⟨_, rfl, htail⟩

/-- Every message fits its format. -/
theorem head_fits (h : Transcript ended (m :: msgs)) : m.Fits := by
  cases h with
  | exitCode => trivial
  | buffer fits _ =>
    have hbuffer : rpcPtyBufferSize ≤ maxDelimited := by decide
    exact le_trans fits.2 hbuffer

end Transcript

/-- The marked frames of terminal messages. -/
def terminalFrames (msgs : List RpcPtyMessage) : List DownByte :=
  msgs.flatMap State.terminalFrame

@[simp] theorem terminalFrames_nil : terminalFrames [] = [] := rfl

@[simp] theorem terminalFrames_cons (m : RpcPtyMessage) (msgs : List RpcPtyMessage) :
    terminalFrames (m :: msgs) = State.terminalFrame m ++ terminalFrames msgs := rfl

theorem terminalFrames_append (msgs more : List RpcPtyMessage) :
    terminalFrames (msgs ++ more) = terminalFrames msgs ++ terminalFrames more := by
  simp [terminalFrames]

theorem terminalFrames_singleton (m : RpcPtyMessage) :
    terminalFrames [m] = State.terminalFrame m := by simp [terminalFrames]

/-! ## Calls -/

def Origin.IsInput : Origin → Prop
  | request _ => False
  | input _ => True

instance : DecidablePred Origin.IsInput := fun origin =>
  match origin with
  | .request _ => isFalse id
  | .input _ => isTrue trivial

/-- A call that the client can make: its request is admissible, and is made by
`spawn` if it asks for a child in the foreground. -/
structure Call.WellFormed (call : Call) : Prop where
  admissible : State.Admissible call.request
  spawned : foreground call.request = true → call.client.isSome = true

/-- The frame of a call's request. -/
def Call.frame (call : Call) : Bytes := Foundations.frame sizeHeader call.request.pack

theorem Call.frame_ne_nil (call : Call) : call.frame ≠ [] := by
  apply List.ne_nil_of_length_pos
  simp [Call.frame, sizeHeader]

namespace Phase

/-- Calls that have sent nothing yet. -/
def Fresh : Phase → Prop
  | idle => True
  | awaitClient call => call.WellFormed
  | awaitSocket call => call.WellFormed
  | sending call rest => call.WellFormed ∧ rest = call.frame
  | _ => False

/-- Calls that have sent nothing yet, or are over. -/
def Resting (phase : Phase) : Prop := phase.Fresh ∨ phase = .returned ∨ phase = .raised

/-- Calls that have sent something, and have not raised. -/
def Begun : Phase → Prop
  | sending call rest => rest ≠ call.frame
  | receiving _ _ => True
  | terminal _ _ => True
  | returned => True
  | _ => False

/-- Calls that have received their reply. -/
def Answered : Phase → Prop
  | terminal _ _ => True
  | returned => True
  | _ => False

variable {phase : Phase}

theorem Fresh.not_begun (h : phase.Fresh) : ¬ phase.Begun := by
  cases phase <;> simp_all [Fresh, Begun]

theorem Fresh.ne_raised (h : phase.Fresh) : phase ≠ .raised := by
  rintro rfl
  exact h

theorem Answered.begun (h : phase.Answered) : phase.Begun := by
  cases phase <;> simp_all [Answered, Begun]

/-- A call that exchanges messages is not resting, unless it has yet to start. -/
theorem Resting.fresh_of_holdsSocket (h : phase.Resting) (hholds : phase.HoldsSocket) :
    phase.Fresh := by
  rcases h with h | rfl | rfl
  · exact h
  · exact hholds.elim
  · exact hholds.elim

end Phase

namespace State

variable {σ : Type} {P : Peers σ} {s t : State σ} {c : CallId} {call : Call} {opens : Bool}
  {msgs : List RpcPtyMessage}

/-! ## Disciplines -/

/-- The server has nothing to read and nothing more to send. -/
def Idle (s : State σ) : Prop := s.mode = .closed ∨ s.mode = .serving [] ∧ s.up = []

/-- Neither party has anything to read. -/
def Quiet (s : State σ) : Prop := s.down = [] ∧ s.Idle

/-- Where an exception may end a call: before it has sent anything, when it can
get no reply any more, and in terminal mode when the server's is over and the
call has received all of it. -/
def MayLeave (s : State σ) : Phase → Prop
  | .sending call rest => rest = call.frame ∨ s.mode = .closed ∧ s.down = []
  | .receiving _ _ => s.mode = .closed ∧ s.down = []
  | .terminal _ got => got = [] ∧ s.Quiet
  | _ => True

/-- Steps that end no exchange by an exception. A size that arrives in pieces is
an exception, too. -/
def LeavesCleanly (s : State σ) : Action → Prop
  | .raise c => s.MayLeave (s.phase c)
  | .sockRecv c count => ∀ call, s.phase c = .receiving call [] ∨ s.phase c = .terminal call [] →
      count = sizeHeader
  | _ => True

/-- Steps that leave no terminal input to `handle_client`: the server's terminal
mode ends when it has read all of it, and none is forwarded afterwards. -/
def DrainsInput (s : State σ) : Action → Prop
  | .forwardStdin _ _ => s.mode = .terminal
  | .childExit _ _ => ∀ b ∈ s.up, ¬ b.2.IsInput
  | .childRefuses count _ => ∀ b ∈ s.up.drop count, ¬ b.2.IsInput
  | _ => True

structure Orderly (P : Peers σ) (s : State σ) (a : Action) : Prop where
  undisturbed : s.Undisturbed P a
  leavesCleanly : s.LeavesCleanly a
  drainsInput : s.DrainsInput a

/-! ## Situations -/

/-- The call has sent its request but for `rest`, and the server waits for more
of it or is gone. -/
structure Asking (s : State σ) (c : CallId) (call : Call) (rest : Bytes) : Prop where
  phase : s.phase c = if rest = [] then .receiving call [] else .sending call rest
  wellFormed : call.WellFormed
  begun : rest.length < call.frame.length
  down : s.down = []
  up : s.mode = .closed ∨ ∃ got, s.mode = .serving got ∧
    s.up ++ marked (.request c) rest ≠ [] ∧
    got ++ (s.up ++ marked (.request c) rest) = marked (.request c) call.frame

/-- What the server does after the reply. When the exchange opened a terminal,
`msgs` are its messages so far. -/
def Sequel (s : State σ) (opens : Bool) (msgs : List RpcPtyMessage) : Prop :=
  (opens = true ∧ s.mode = .terminal ∧ (∀ b ∈ s.up, b.2.IsInput) ∧ Transcript false msgs) ∨
  (s.Idle ∧ (opens = false → msgs = []) ∧ Transcript true msgs)

/-- The server has made its reply. The call has received `got` of it, and `left`
is on its way. -/
structure Answering (s : State σ) (c : CallId) (call : Call) (got left : List DownByte)
    (reply : RpcMessage) (msgs : List RpcPtyMessage) : Prop where
  phase : s.phase c = .receiving call got
  wellFormed : call.WellFormed
  fits : reply.payload.length ≤ maxDelimited
  size : got = [] ∨ sizeHeader ≤ got.length
  whole : got ++ left = marked (.reply (some c)) (frame sizeHeader reply.pack)
  unread : left ≠ []
  down : s.down = left ++ terminalFrames msgs
  sequel : s.Sequel (opensTerminal call.request reply) msgs

/-- The call is in terminal mode. It has received `got` of the next message, or
nothing of it. -/
structure Window (s : State σ) (c : CallId) (call : Call) (got : List DownByte)
    (msgs : List RpcPtyMessage) : Prop where
  phase : s.phase c = .terminal call got
  size : got = [] ∨ sizeHeader ≤ got.length
  down : got = [] ∧ s.down = terminalFrames msgs ∨
    ∃ m rest left, msgs = m :: rest ∧ got ++ left = terminalFrame m ∧ left ≠ [] ∧
      s.down = left ++ terminalFrames rest
  sequel : s.Sequel true msgs

/-! ## The server after the reply -/

theorem not_serverRecv_of_idle {count : ℕ} {readBack : Bool} (h : s.Idle) :
    s.serverRecv P count readBack ≠ some t := by
  intro hstep
  obtain ⟨got, hmode, hpos, -, hcount, -⟩ := serverRecv_eq_some hstep
  rcases h with hclosed | ⟨-, hup⟩
  · rw [hclosed] at hmode
    cases hmode
  · rw [hup, List.length_nil] at hcount
    omega

theorem Idle.mode_ne (h : s.Idle) : s.mode ≠ .terminal := by
  rcases h with hmode | ⟨hmode, -⟩ <;> rw [hmode] <;> rintro ⟨⟩

/-- No step of the server follows a quiet state, unless it is the server's last. -/
theorem quiet_server {a : Action} (h : s.Quiet) (ha : actor a = none)
    (hstep : step P s a = some t) :
    t.Quiet ∧ t.process = s.process ∧ t.served = s.served ∧ t.childInput = s.childInput := by
  cases a with
  | serverRecv count readBack => exact absurd hstep (not_serverRecv_of_idle h.2)
  | childOutput buf => exact absurd (childOutput_eq_some hstep).1 h.2.mode_ne
  | childInput count => exact absurd (childInputStep_eq_some hstep).1 h.2.mode_ne
  | childRefuses count readBack => exact absurd (childRefuses_eq_some hstep).1 h.2.mode_ne
  | childExit status readBack => exact absurd (childExit_eq_some hstep).1 h.2.mode_ne
  | serverDies =>
    obtain rfl := Option.some.inj hstep
    exact ⟨⟨h.1, Or.inl rfl⟩, rfl, rfl, rfl⟩
  | _ => cases ha

/-- Terminal mode that ends with all its input read leaves nothing to read. -/
theorem idle_afterRequest {readBack : Bool} (hmode : t.mode = afterRequest readBack)
    (hinput : ∀ b ∈ t.up, b.2.IsInput) (hdrained : ∀ b ∈ t.up, ¬ b.2.IsInput) : t.Idle := by
  have hup : t.up = [] := List.eq_nil_iff_forall_not_mem.mpr fun b hb => hdrained b hb (hinput b hb)
  cases readBack with
  | true => exact Or.inl hmode
  | false => exact Or.inr ⟨hmode, hup⟩

/-- After the reply, the server adds messages of the terminal to the stream, and
takes nothing but input for its child. -/
theorem sequel_server {a : Action} (h : s.Sequel opens msgs) (ha : actor a = none)
    (hok : s.DrainsInput a) (hstep : step P s a = some t) :
    (∃ more, t.down = s.down ++ terminalFrames more ∧ t.Sequel opens (msgs ++ more)) ∧
      t.process = s.process ∧ t.served = s.served ∧
      ∀ b ∈ t.childInput, b ∈ s.childInput ∨ b.2.IsInput := by
  -- in terminal mode the stream holds input only
  have hinputs : ∀ count, s.mode = .terminal → ∀ b ∈ (s.readInput count).childInput,
      b ∈ s.childInput ∨ b.2.IsInput := by
    intro count hmode b hb
    rcases h with ⟨-, -, hinput, -⟩ | ⟨hidle, -⟩
    · rcases List.mem_append.mp hb with hb | hb
      · exact Or.inl hb
      · exact Or.inr (hinput b (List.mem_of_mem_take hb))
    · exact absurd hmode hidle.mode_ne
  cases a with
  | serverRecv count readBack =>
    rcases h with ⟨-, hterminal, -⟩ | ⟨hidle, -⟩
    · obtain ⟨got, hmode, -⟩ := serverRecv_eq_some hstep
      rw [hterminal] at hmode
      cases hmode
    · exact absurd hstep (not_serverRecv_of_idle hidle)
  | childOutput buf =>
    obtain ⟨hmode, fits, rfl⟩ := childOutput_eq_some hstep
    rcases h with ⟨hopens, -, hinput, htranscript⟩ | ⟨hidle, -⟩
    · refine ⟨⟨[.buffer buf], ?_, Or.inl ⟨hopens, hmode, hinput, htranscript.output fits⟩⟩,
        rfl, rfl, fun b => Or.inl⟩
      rw [terminalFrames_singleton]
    · exact absurd hmode hidle.mode_ne
  | childInput count =>
    obtain ⟨hmode, -, -, rfl⟩ := childInputStep_eq_some hstep
    refine ⟨⟨[], (List.append_nil _).symm, ?_⟩, rfl, rfl, hinputs count hmode⟩
    rw [List.append_nil]
    rcases h with ⟨hopens, -, hinput, htranscript⟩ | ⟨hidle, -⟩
    · exact Or.inl ⟨hopens, hmode, fun b hb => hinput b (List.mem_of_mem_drop hb), htranscript⟩
    · exact absurd hmode hidle.mode_ne
  | childRefuses count readBack =>
    obtain ⟨hmode, -, -, rfl⟩ := childRefuses_eq_some hstep
    refine ⟨⟨[], (List.append_nil _).symm, ?_⟩, rfl, rfl, hinputs count hmode⟩
    rw [List.append_nil]
    rcases h with ⟨hopens, -, hinput, htranscript⟩ | ⟨hidle, -⟩
    · refine Or.inr ⟨idle_afterRequest rfl (fun b hb => hinput b (List.mem_of_mem_drop hb)) hok,
        ?_, htranscript.over_of⟩
      exact fun hclosed => absurd (hopens.symm.trans hclosed) (by decide)
    · exact absurd hmode hidle.mode_ne
  | childExit status readBack =>
    obtain ⟨hmode, rfl⟩ := childExit_eq_some hstep
    rcases h with ⟨hopens, -, hinput, htranscript⟩ | ⟨hidle, -⟩
    -- the exit code is the last message, and the input is drained
    · refine ⟨⟨[.exitCode status], ?_, Or.inr ⟨idle_afterRequest rfl hinput hok, ?_,
        htranscript.exit⟩⟩, rfl, rfl, fun b => Or.inl⟩
      · rw [terminalFrames_singleton]
      · exact fun hclosed => absurd (hopens.symm.trans hclosed) (by decide)
    · exact absurd hmode hidle.mode_ne
  | serverDies =>
    obtain rfl := Option.some.inj hstep
    refine ⟨⟨[], (List.append_nil _).symm, ?_⟩, rfl, rfl, fun b => Or.inl⟩
    rw [List.append_nil]
    rcases h with ⟨hopens, -, -, htranscript⟩ | ⟨-, hnone, htranscript⟩
    · refine Or.inr ⟨Or.inl rfl, ?_, htranscript.over_of⟩
      exact fun hclosed => absurd (hopens.symm.trans hclosed) (by decide)
    · exact Or.inr ⟨Or.inl rfl, hnone, htranscript⟩
  | _ => cases ha

end State

end RpcProject.Session
