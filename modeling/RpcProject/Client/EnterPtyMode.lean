/-
# The client's terminal mode

While a foreground child runs, `enter_pty_mode` sends what it takes from the
standard input and writes what the server sends to the standard output. The input
may be given as a whole, and is then sent at once. Otherwise it is a file, and each
step of the loop serves the file or the socket, whichever `select` finds ready.

The socket does not block meanwhile. A `sendall` hands its data to as many `send`s as
it takes, and raises when one of them finds no free space in the send buffer. Each
message with output is decoded by itself.

Two laws are asked for. All that is taken from the input is transmitted, which holds
exactly when no `send` finds the buffer full and every text that is taken can be
encoded. And the output is the decoding of all
that is received, which holds exactly when no message ends inside a character.
-/

import RpcProject.Foundations.Machine
import RpcProject.Foundations.PrefixCode
import RpcProject.Protocol.Messages

namespace RpcProject.Client

open Foundations Protocol

/-! ## Text -/

/-- No character's code begins another's. -/
theorem utf8_prefixFree (a b : Char) (h : String.utf8EncodeChar a <+: String.utf8EncodeChar b) :
    a = b := by
  obtain ⟨rest, hrest⟩ := h
  have hbytes : [a].utf8Encode ++ rest.toByteArray = [b].utf8Encode := by
    rw [List.utf8Encode_singleton, List.utf8Encode_singleton, ← hrest, List.toByteArray_append]
  have hprefixed := List.isPrefix_of_utf8Encode_append_eq_utf8Encode rest.toByteArray hbytes
  exact List.head_eq_of_cons_eq (hprefixed.eq_of_length rfl)

/-- UTF-8. -/
def utf8 : PrefixCode Char UInt8 where
  word := String.utf8EncodeChar
  word_ne_nil _ := String.utf8EncodeChar_ne_nil
  prefixFree := utf8_prefixFree

/-- `bytes.decode`, which raises unless the bytes are the code of some text. -/
def decode (bytes : Bytes) : Option (List Char) :=
  bytes.toByteArray.utf8Decode?.map Array.toList

theorem utf8Encode_eq (text : List Char) : text.utf8Encode = (utf8.encode text).toByteArray := rfl

/-- Bytes are decoded as the text whose code they are. -/
theorem decode_eq_some {bytes : Bytes} {text : List Char} :
    decode bytes = some text ↔ bytes = utf8.encode text := by
  constructor
  · intro h
    obtain ⟨chars, hchars, rfl⟩ := Option.map_eq_some_iff.mp h
    have hsome : bytes.toByteArray.utf8Decode?.isSome := by rw [hchars]; rfl
    have hcode := ByteArray.utf8Encode_get_utf8Decode? (h := hsome)
    simp only [hchars, Option.get_some] at hcode
    exact (List.toByteArray_inj.mp hcode).symm
  · rintro rfl
    rw [decode, ← utf8Encode_eq, List.utf8Decode?_utf8Encode]
    rfl

/-- The code of a string, which none has that holds a lone surrogate. -/
def encode (codePoints : List ℕ) : Option Bytes :=
  (codePoints.mapM fun (n : ℕ) =>
    if n.isValidChar then some (Char.ofNat n) else none).map utf8.encode

/-! ## The socket -/

/-- `sendall` on a socket that does not block: what the socket accepts, and whether
that is all. Each `send` finds some free space and fills it; one that finds none
raises. The spaces are those of the calls it makes, no more and no fewer. -/
def sendall : Bytes → List ℕ → Option (Bytes × Bool)
  | [], [] => some ([], true)
  | [], _ :: _ => none
  | _ :: _, [] => none
  -- what the calls before have accepted is sent, and the rest is lost
  | _ :: _, [0] => some ([], false)
  -- a call that raises is the last one
  | _ :: _, 0 :: _ :: _ => none
  | b :: bytes, (space + 1) :: spaces =>
      (sendall (bytes.drop space) spaces).map fun (accepted, ok) =>
        (b :: bytes.take space ++ accepted, ok)

/-! ## The loop -/

/-- What is read from the input. -/
inductive PyData
  | str (codePoints : List ℕ)
  | bytes (data : Bytes)
  deriving DecidableEq, Repr

/-- `len` -/
def PyData.length : PyData → ℕ
  | str codePoints => codePoints.length
  | bytes data => data.length

/-- Text is sent as UTF-8. -/
def PyData.toBytes : PyData → Option Bytes
  | str codePoints => encode codePoints
  | bytes data => some data

/-- The bytes of all that has been taken, unless some text has none. -/
def codeOf (taken : List PyData) : Option Bytes := (taken.mapM PyData.toBytes).map List.flatten

/-- What the loop raises. -/
inductive PtyError
  | blockingError
  | unicodeEncode
  | unicodeDecode
  | connection
  deriving DecidableEq, Repr

/-- How far `enter_pty_mode` has got. -/
inductive LoopPhase
  | entering
  | looping
  | returned (exitCode : Option UInt32)
  | raised (error : PtyError)
  deriving DecidableEq, Repr

/-- The loop, with all that went through it. -/
structure PtyLoop where
  phase : LoopPhase
  /-- whether the input is a file, and so among `fds` -/
  watching : Bool
  /-- all that has been taken from the input -/
  taken : List PyData
  /-- all bytes the socket has accepted -/
  transmitted : Bytes
  /-- the buffers of all messages received -/
  received : List Bytes
  /-- all text written to the output -/
  written : List Char
  deriving DecidableEq, Repr

/-- What `enter_pty_mode` is called with, and what `select` finds ready. -/
inductive PtyLoopEvent
  /-- the input is a file -/
  | enterFile
  /-- the input is given as a whole -/
  | enterData (data : PyData) (spaces : List ℕ)
  /-- the file is ready, and is read -/
  | input (data : PyData) (spaces : List ℕ)
  /-- the socket is ready, and a message is received -/
  | message (message : RpcPtyMessage)
  /-- the socket is ready, and receiving raises `ConnectionResetError` or another error -/
  | recvFails (reset : Bool)
  deriving DecidableEq, Repr

namespace PtyLoop

/-- The loop before it is entered. -/
def init : PtyLoop := ⟨.entering, false, [], [], [], []⟩

/-- Encode the data and send it. -/
def transmit (s : PtyLoop) (data : PyData) (spaces : List ℕ) : Option PtyLoop :=
  match data.toBytes with
  -- encoding fails before anything is handed to the socket, and the text is lost
  | none =>
      if spaces = [] then
        some { s with phase := .raised .unicodeEncode, taken := s.taken ++ [data] }
      else none
  | some bytes =>
      (sendall bytes spaces).map fun (accepted, ok) =>
        { s with
          phase := if ok then .looping else .raised .blockingError
          taken := s.taken ++ [data]
          transmitted := s.transmitted ++ accepted }

/-- What a message of the server does. -/
def receive (s : PtyLoop) : RpcPtyMessage → PtyLoop
  | .notSet => s
  -- the loop ends, and what the input still holds is not read
  | .exitCode code => { s with phase := .returned (some code) }
  | .buffer bytes =>
      match decode bytes with
      | none =>
          { s with phase := .raised .unicodeDecode, received := s.received ++ [bytes] }
      | some text =>
          { s with received := s.received ++ [bytes], written := s.written ++ text }

end PtyLoop

/-- What each event does. -/
def ptyLoopStep (s : PtyLoop) : PtyLoopEvent → Option PtyLoop
  | .enterFile =>
      if s.phase = .entering then some { s with phase := .looping, watching := true } else none
  | .enterData data spaces => if s.phase = .entering then s.transmit data spaces else none
  | .input data spaces =>
      -- one read of at most a buffer, and all of it in one message
      if s.phase = .looping ∧ s.watching ∧ data.length ≤ rpcPtyBufferSize then
        s.transmit data spaces
      else none
  | .message message => if s.phase = .looping then some (s.receive message) else none
  | .recvFails reset =>
      if s.phase = .looping then
        -- only `ConnectionResetError` ends the loop quietly
        some { s with phase := if reset then .returned none else .raised .connection }
      else none

/-- `enter_pty_mode` of the client. -/
def enterPtyMode : Machine PtyLoop PtyLoopEvent where
  start s := s = .init
  step := ptyLoopStep

variable {s t : PtyLoop} {event : PtyLoopEvent} {events : List PtyLoopEvent} {data : PyData}
  {bytes accepted : Bytes} {spaces : List ℕ} {ok : Bool}

/-! ## What a step does -/

/-- `sendall` sends all, unless a `send` finds no space. -/
theorem sendall_eq_some (h : sendall bytes spaces = some (accepted, ok)) :
    (ok = true ↔ 0 ∉ spaces) ∧ (ok = true → accepted = bytes) := by
  induction bytes, spaces using sendall.induct generalizing accepted with
  | case1 =>
    obtain ⟨rfl, rfl⟩ := Prod.mk.inj (Option.some.inj h)
    simp
  | case2 => cases h
  | case3 => cases h
  | case4 =>
    obtain ⟨rfl, rfl⟩ := Prod.mk.inj (Option.some.inj h)
    simp
  | case5 => cases h
  | case6 b bytes space spaces ih =>
    rw [sendall] at h
    obtain ⟨⟨rest, done⟩, hrest, heq⟩ := Option.map_eq_some_iff.mp h
    obtain ⟨rfl, rfl⟩ := Prod.mk.inj heq
    obtain ⟨hspaces, hall⟩ := ih hrest
    refine ⟨?_, fun hok => ?_⟩
    · -- this call has found space, so only the later ones may raise
      rw [hspaces, List.mem_cons, not_or]
      exact ⟨fun h => ⟨by omega, h⟩, And.right⟩
    · rw [hall hok, List.cons_append, List.take_append_drop]

/-- What sending does to a loop that has not raised. -/
structure Transmitted (s t : PtyLoop) (data : PyData) (spaces : List ℕ) : Prop where
  received : t.received = s.received
  written : t.written = s.written
  taken : t.taken = s.taken ++ [data]
  phase : t.phase ≠ .raised .unicodeDecode
  blocked : t.phase = .raised .blockingError ↔ 0 ∈ spaces
  unencoded : t.phase = .raised .unicodeEncode ↔ data.toBytes = none
  all : 0 ∉ spaces → ∀ bytes, data.toBytes = some bytes → t.transmitted = s.transmitted ++ bytes

/-- A transmission that goes on or raises. -/
theorem transmit_eq_some (h : s.transmit data spaces = some t) : Transmitted s t data spaces := by
  rw [PtyLoop.transmit] at h
  split at h
  · next hcode =>
    split at h
    · next hnone =>
      obtain rfl := Option.some.inj h
      exact ⟨rfl, rfl, rfl, by simp, by simp [hnone], by simp [hcode], by simp [hcode]⟩
    · cases h
  · next bytes hcode =>
    obtain ⟨⟨accepted, ok⟩, hsend, rfl⟩ := Option.map_eq_some_iff.mp h
    obtain ⟨hspaces, hall⟩ := sendall_eq_some hsend
    refine ⟨rfl, rfl, rfl, by cases ok <;> simp, ?_, by cases ok <;> simp [hcode],
      fun hfree bytes' hcode' => ?_⟩
    · rw [← not_iff_not, ← hspaces]
      cases ok <;> simp
    · obtain rfl : bytes = bytes' := Option.some.inj (hcode.symm.trans hcode')
      change s.transmitted ++ accepted = _
      rw [hall (hspaces.mpr hfree)]

/-- The code of what was taken grows by the code of what is taken next. -/
theorem codeOf_snoc (taken : List PyData) (data : PyData) :
    codeOf (taken ++ [data]) =
      (codeOf taken).bind fun code => data.toBytes.map fun bytes => code ++ bytes := by
  cases hcode : taken.mapM PyData.toBytes <;> cases hdata : data.toBytes <;>
    simp [codeOf, List.mapM_append, hcode, hdata]

@[simp] theorem receive_taken (message : RpcPtyMessage) : (s.receive message).taken = s.taken := by
  cases message with
  | buffer bytes => rw [PtyLoop.receive]; split <;> rfl
  | _ => rfl

@[simp] theorem receive_transmitted (message : RpcPtyMessage) :
    (s.receive message).transmitted = s.transmitted := by
  cases message with
  | buffer bytes => rw [PtyLoop.receive]; split <;> rfl
  | _ => rfl

/-- Receiving raises no error of sending. -/
theorem receive_not_raised {error : PtyError} (hlive : s.phase ≠ .raised error)
    (herror : error ≠ .unicodeDecode) (message : RpcPtyMessage) :
    (s.receive message).phase ≠ .raised error := by
  cases message with
  | notSet => exact hlive
  | exitCode code => exact fun h => LoopPhase.noConfusion h
  | buffer bytes =>
    rw [PtyLoop.receive]
    split
    · simpa using herror.symm
    · exact hlive

/-- Whether a `send` of the step finds the send buffer full. -/
def PtyLoopEvent.FindsFull : PtyLoopEvent → Prop
  | enterData _ spaces => 0 ∈ spaces
  | input _ spaces => 0 ∈ spaces
  | _ => False

/-- What the step takes from the input can be encoded. -/
def PtyLoopEvent.Encodes : PtyLoopEvent → Prop
  | enterData data _ => data.toBytes ≠ none
  | input data _ => data.toBytes ≠ none
  | _ => True

/-- A step either sends, or receives a message, or leaves all but the phase. -/
theorem ptyLoopStep_cases (h : ptyLoopStep s event = some t) :
    (s.phase = .entering ∨ s.phase = .looping) ∧
      ((∃ data spaces, Transmitted s t data spaces ∧ (event.FindsFull ↔ 0 ∈ spaces) ∧
          (event.Encodes ↔ data.toBytes ≠ none)) ∨
        (∃ message, event = .message message ∧ t = s.receive message) ∨
        ∃ phase watching, t = { s with phase := phase, watching := watching } ∧
          ¬event.FindsFull ∧ event.Encodes ∧
          ∀ error, phase = .raised error → error = .connection) := by
  cases event with
  | enterFile =>
    rw [ptyLoopStep] at h
    split at h
    · next hphase =>
      exact ⟨.inl hphase,
        .inr (.inr ⟨.looping, true, (Option.some.inj h).symm, id, trivial, by simp⟩)⟩
    · cases h
  | enterData data spaces =>
    rw [ptyLoopStep] at h
    split at h
    · next hphase =>
      exact ⟨.inl hphase, .inl ⟨data, spaces, transmit_eq_some h, Iff.rfl, Iff.rfl⟩⟩
    · cases h
  | input data spaces =>
    rw [ptyLoopStep] at h
    split at h
    · next hphase =>
      exact ⟨.inr hphase.1, .inl ⟨data, spaces, transmit_eq_some h, Iff.rfl, Iff.rfl⟩⟩
    · cases h
  | message message =>
    rw [ptyLoopStep] at h
    split at h
    · next hphase => exact ⟨.inr hphase, .inr (.inl ⟨message, rfl, (Option.some.inj h).symm⟩)⟩
    · cases h
  | recvFails reset =>
    rw [ptyLoopStep] at h
    split at h
    · next hphase =>
      refine ⟨.inr hphase, .inr (.inr ⟨_, s.watching, (Option.some.inj h).symm, id, trivial, ?_⟩)⟩
      cases reset <;> simp
    · cases h

/-! ## Input -/

/-- All that was taken from the input has been transmitted, and no full buffer has
ended the loop. -/
def Delivered (s : PtyLoop) : Prop :=
  codeOf s.taken = some s.transmitted ∧ s.phase ≠ .raised .blockingError

/-- What a run has taken and transmitted. -/
structure InputAccount (events : List PtyLoopEvent) (s : PtyLoop) : Prop where
  transmitted : s.phase ≠ .raised .blockingError → s.phase ≠ .raised .unicodeEncode →
    codeOf s.taken = some s.transmitted
  lost : s.phase = .raised .unicodeEncode → codeOf s.taken = none
  blocked : s.phase = .raised .blockingError ↔ ∃ event ∈ events, event.FindsFull
  unencoded : s.phase = .raised .unicodeEncode ↔ ∃ event ∈ events, ¬event.Encodes

/-- What no event of a trace has done, one of a longer trace has done with the last. -/
theorem exists_mem_snoc_iff {P : PtyLoopEvent → Prop} (hbefore : ¬∃ e ∈ events, P e) :
    (∃ e ∈ events ++ [event], P e) ↔ P event := by
  simp only [List.mem_append, List.mem_singleton, or_and_right, exists_or, exists_eq_left]
  exact or_iff_right hbefore

/-- Every event keeps the account of the input. -/
theorem InputAccount.snoc (h : InputAccount events s) (hstep : ptyLoopStep s event = some t) :
    InputAccount (events ++ [event]) t := by
  obtain ⟨hphase, hcases⟩ := ptyLoopStep_cases hstep
  have hlive (error : PtyError) : s.phase ≠ .raised error := by
    rcases hphase with hphase | hphase <;> simp [hphase]
  have hsofar := h.transmitted (hlive _) (hlive _)
  -- a full buffer or such a text would have ended the loop before this step
  have hfull := @exists_mem_snoc_iff event _ _ (h.blocked.not.mp (hlive _))
  have hencodes := @exists_mem_snoc_iff event _ _ (h.unencoded.not.mp (hlive _))
  rcases hcases with ⟨data, spaces, hsent, hfinds, hencodes'⟩ | ⟨message, rfl, rfl⟩ |
      ⟨phase, watching, rfl, hfree, hencodes', hraised⟩
  · refine ⟨fun hopen hcoded => ?_, fun hlost => ?_, ?_, ?_⟩
    · obtain ⟨bytes, hbytes⟩ := Option.ne_none_iff_exists'.mp (mt hsent.unencoded.mpr hcoded)
      rw [hsent.taken, codeOf_snoc, hsofar, hbytes,
        hsent.all (mt hsent.blocked.mpr hopen) bytes hbytes]
      rfl
    · rw [hsent.taken, codeOf_snoc, hsofar, hsent.unencoded.mp hlost]
      rfl
    · rw [hsent.blocked, hfull, hfinds]
    · rw [hsent.unencoded, hencodes, hencodes', Ne, not_not]
  · have hnot {error : PtyError} (herror : error ≠ .unicodeDecode) :
        (s.receive message).phase ≠ .raised error := receive_not_raised (hlive _) herror message
    refine ⟨fun _ _ => ?_, fun hlost => absurd hlost (hnot nofun), ?_, ?_⟩
    · rw [receive_transmitted, receive_taken, hsofar]
    · exact iff_of_false (hnot nofun) (hfull.not.mpr id)
    · exact iff_of_false (hnot nofun) (hencodes.not.mpr fun hnot => hnot trivial)
  · have hnot {error : PtyError} (herror : error ≠ .connection) : phase ≠ .raised error :=
      fun hphase => herror (hraised _ hphase)
    refine ⟨fun _ _ => hsofar, fun hlost => absurd hlost (hnot nofun), ?_, ?_⟩
    · exact iff_of_false (hnot nofun) (hfull.not.mpr hfree)
    · exact iff_of_false (hnot nofun) (hencodes.not.mpr (not_not_intro hencodes'))

theorem inputAccount_of_run (h : enterPtyMode.run .init events = some s) :
    InputAccount events s := by
  refine Machine.run_invariant ⟨fun _ _ => rfl, ?_, ?_, ?_⟩
    (fun _ _ _ _ hs hstep => hs.snoc hstep) h
  all_goals simp [PtyLoop.init]

/-- **Input delivery.** In every run, all that was taken from the input has been
transmitted and no full buffer has ended the loop, exactly when no `send` has found
the send buffer full and every text that was taken can be encoded. -/
theorem delivered_iff_never_full (h : enterPtyMode.run .init events = some s) :
    Delivered s ↔
      (∀ event ∈ events, ¬event.FindsFull) ∧ ∀ event ∈ events, event.Encodes := by
  have haccount := inputAccount_of_run h
  constructor
  · rintro ⟨hcode, hopen⟩
    refine ⟨fun event hevent hfull => hopen (haccount.blocked.mpr ⟨event, hevent, hfull⟩), ?_⟩
    intro event hevent
    by_contra hnot
    have hlost := haccount.lost (haccount.unencoded.mpr ⟨event, hevent, hnot⟩)
    cases hlost.symm.trans hcode
  · rintro ⟨hfree, hencodes⟩
    have hopen : s.phase ≠ .raised .blockingError := by
      rw [Ne, haccount.blocked]
      rintro ⟨event, hevent, hfull⟩
      exact hfree event hevent hfull
    refine ⟨haccount.transmitted hopen ?_, hopen⟩
    rw [Ne, haccount.unencoded]
    rintro ⟨event, hevent, hnot⟩
    exact hnot (hencodes event hevent)

/-- A file is read twice, and the second piece is sent in two parts. -/
theorem delivered_iff_never_full_file :
    ∃ s, enterPtyMode.run .init
        [.enterFile, .input (.bytes [104, 105]) [2], .input (.str [33, 10]) [1, 1]] = some s ∧
      s.transmitted = [104, 105, 33, 10] ∧ Delivered s := by
  obtain ⟨s, hs, htransmitted⟩ : ∃ s, enterPtyMode.run .init
      [.enterFile, .input (.bytes [104, 105]) [2], .input (.str [33, 10]) [1, 1]] = some s ∧
      s.transmitted = [104, 105, 33, 10] := ⟨_, rfl, rfl⟩
  refine ⟨s, hs, htransmitted, (delivered_iff_never_full hs).mpr ⟨?_, ?_⟩⟩
  · simp [PtyLoopEvent.FindsFull]
  · have htext : PyData.toBytes (.str [33, 10]) ≠ none := by decide
    simpa [PtyLoopEvent.Encodes, PyData.toBytes] using htext

/-- A string of three bytes finds space for two of them. -/
theorem not_delivered_full_buffer :
    ∃ s, enterPtyMode.run .init [.enterData (.str [104, 105, 10]) [2, 0]] = some s ∧
      s.taken = [.str [104, 105, 10]] ∧ s.transmitted = [104, 105] ∧ ¬Delivered s :=
  ⟨_, rfl, rfl, rfl, fun h => h.2 rfl⟩

/-- A text with a lone surrogate is taken, and none of it is transmitted. -/
example : enterPtyMode.run .init [.enterData (.str [104, 105, 0xDC80]) []] =
    some ⟨.raised .unicodeEncode, false, [.str [104, 105, 0xDC80]], [], [], []⟩ := rfl

/-! ## Output -/

/-- The bytes are the code of some text. -/
def IsText (bytes : Bytes) : Prop := ∃ text, bytes = utf8.encode text

/-- The loop has not failed to decode, and has written the whole text if it has
received all of it. -/
def ShowsText (text : List Char) (s : PtyLoop) : Prop :=
  s.phase ≠ .raised .unicodeDecode ∧
    (s.received.flatten = utf8.encode text → s.written = text)

/-- What a run has written. -/
structure OutputAccount (s : PtyLoop) : Prop where
  written : s.phase ≠ .raised .unicodeDecode → utf8.encode s.written = s.received.flatten
  decoded : s.phase ≠ .raised .unicodeDecode ↔ ∀ bytes ∈ s.received, IsText bytes

theorem isText_iff_decode : IsText bytes ↔ (decode bytes).isSome := by
  rw [Option.isSome_iff_exists]
  exact exists_congr fun _ => decode_eq_some.symm

/-- A message that raises nothing keeps the account of the output. -/
theorem OutputAccount.receive (h : OutputAccount s) (hphase : s.phase ≠ .raised .unicodeDecode)
    (message : RpcPtyMessage) : OutputAccount (s.receive message) := by
  have htexts := h.decoded.mp hphase
  cases message with
  | notSet => exact h
  | exitCode code => exact ⟨fun _ => h.written hphase, iff_of_true LoopPhase.noConfusion htexts⟩
  | buffer bytes =>
    rw [PtyLoop.receive]
    split
    · next hnone =>
      have hnot : ¬IsText bytes := by simp [isText_iff_decode, hnone]
      refine ⟨fun hopen => absurd rfl hopen, iff_of_false (fun hopen => hopen rfl) fun hall => ?_⟩
      exact hnot (hall bytes (by simp))
    · next text hsome =>
      have hbytes := decode_eq_some.mp hsome
      refine ⟨fun _ => ?_, iff_of_true hphase fun chunk hchunk => ?_⟩
      · simp [h.written hphase, hbytes]
      · rcases List.mem_append.mp hchunk with hold | hnew
        · exact htexts chunk hold
        · exact ⟨text, (List.mem_singleton.mp hnew).trans hbytes⟩

theorem OutputAccount.step (h : OutputAccount s) (hstep : ptyLoopStep s event = some t) :
    OutputAccount t := by
  obtain ⟨hphase, hcases⟩ := ptyLoopStep_cases hstep
  have hlive : s.phase ≠ .raised .unicodeDecode := by
    rcases hphase with hphase | hphase <;> simp [hphase]
  rcases hcases with ⟨data, spaces, hsent, -⟩ | ⟨message, -, rfl⟩ |
      ⟨phase, watching, rfl, -, -, hraised⟩
  · refine ⟨fun _ => ?_, iff_of_true hsent.phase ?_⟩
    · rw [hsent.written, hsent.received, h.written hlive]
    · rw [hsent.received]
      exact h.decoded.mp hlive
  · exact h.receive hlive message
  · exact ⟨fun _ => h.written hlive,
      iff_of_true (fun hdecode => by cases hraised _ hdecode) (h.decoded.mp hlive)⟩

theorem outputAccount_of_reachable (h : enterPtyMode.Reachable s) : OutputAccount s := by
  refine h.invariant (fun s hs => ?_) fun _ _ _ hs _ hstep => hs.step hstep
  cases hs
  exact ⟨fun _ => rfl, iff_of_true LoopPhase.noConfusion fun _ hmem => absurd hmem List.not_mem_nil⟩

/-- **Output decoding.** In every run that receives the code of a text or a beginning
of it, the loop does not fail to decode and writes the whole text once it has received
all of it, exactly when every buffer ends between two characters of the text. -/
theorem showsText_iff_boundaries {text : List Char} {rest : Bytes} (h : enterPtyMode.Reachable s)
    (hreceived : s.received.flatten ++ rest = utf8.encode text) :
    ShowsText text s ↔ ∀ position ∈ cuts 0 s.received, utf8.Boundary text position := by
  have haccount := outputAccount_of_reachable h
  rw [← PrefixCode.forall_exists_encode_iff hreceived]
  refine ⟨fun hshows => haccount.decoded.mp hshows.1, fun htexts => ?_⟩
  have hphase := haccount.decoded.mpr htexts
  refine ⟨hphase, fun hall => ?_⟩
  -- texts with the same code are the same
  have hcodes : utf8.encode s.written = utf8.encode text := by rw [haccount.written hphase, hall]
  exact PrefixCode.encode_injective hcodes

/-- A letter of two bytes arrives in one buffer, before the exit code. -/
theorem showsText_iff_boundaries_one :
    ∃ s, enterPtyMode.run .init
        [.enterFile, .message (.buffer [0xC3, 0xA9]), .message (.exitCode 0)] = some s ∧
      ShowsText ['é'] s := by
  obtain ⟨s, hs, hreceived⟩ : ∃ s, enterPtyMode.run .init
      [.enterFile, .message (.buffer [0xC3, 0xA9]), .message (.exitCode 0)] = some s ∧
      s.received = [[0xC3, 0xA9]] := ⟨_, rfl, rfl⟩
  have hcode : s.received.flatten ++ [] = utf8.encode ['é'] := by rw [hreceived]; rfl
  refine ⟨s, hs, (showsText_iff_boundaries (Machine.reachable_of_run rfl hs) hcode).mpr ?_⟩
  rw [hreceived]
  intro position hposition
  obtain rfl : position = 2 := by simpa [cuts] using hposition
  exact ⟨1, rfl⟩

/-- The two bytes of a letter arrive in two buffers. -/
theorem not_showsText_split_letter :
    ∃ s, enterPtyMode.run .init [.enterFile, .message (.buffer [0xC3])] = some s ∧
      s.received.flatten ++ [0xA9] = utf8.encode ['é'] ∧ ¬ShowsText ['é'] s :=
  ⟨_, rfl, rfl, fun h => h.1 rfl⟩

end RpcProject.Client
