/-
# Messages from the client to the server

The client hands each message to `sock_sendall` with `_msg_send`, and the server
calls `proto_msg_recv` once for each. Its loops ask the socket until they have
what they want, so they deliver the messages on every schedule of short
transfers and retried failures on which bytes keep coming, and they never reach
into the next message.
-/

import RpcProject.Client.RpcSocket
import RpcProject.Server.SockIo

namespace RpcProject.Transport

open Foundations Protocol Client Server

variable {p : Platform} {malloc : ℕ → Bool} {μ : Type} {unpack : Bytes → Option μ}
  {messages sent : List Bytes} {rest : Bytes} {e : Endpoint}

/-- What `_msg_send` hands to the socket is the frame of a message whose size
fits the header. -/
theorem frames_of_msgSend (hsent : messages.mapM msgSend = some sent) :
    sent = messages.map (frame sizeHeader) ∧
      ∀ message ∈ messages, message.length < 256 ^ sizeHeader := by
  induction messages generalizing sent with
  | nil =>
    obtain rfl : [] = sent := by simpa using hsent
    simp
  | cons message messages ih =>
    rw [List.mapM_cons] at hsent
    obtain ⟨buff, hbuff, hsent⟩ := Option.bind_eq_some_iff.mp hsent
    obtain ⟨buffs, hbuffs, hsent⟩ := Option.bind_eq_some_iff.mp hsent
    obtain rfl : buff :: buffs = sent := Option.some.inj hsent
    obtain ⟨rfl, hfits⟩ := ih hbuffs
    unfold msgSend at hbuff
    split at hbuff
    · next hfit =>
      obtain rfl : frame sizeHeader message = buff := Option.some.inj hbuff
      refine ⟨rfl, fun m hm => ?_⟩
      rcases List.mem_cons.mp hm with rfl | hm
      · exact hfit
      · exact hfits m hm
    · cases hbuff

/-- The progress that receiving the messages takes: one for each of their bytes. -/
def receiveBudget (messages : List Bytes) : ℕ :=
  (messages.map fun message => sizeHeader + message.length).sum

/-- Receiving as many messages as head the stream unpacks each of them and
leaves the stream behind the last. -/
theorem protoMsgRecv_times_completes
    (hfits : ∀ message ∈ messages, message.length < 256 ^ sizeHeader)
    (hmalloc : ∀ message ∈ messages, malloc message.length = true)
    (hin : e.incoming = messages.flatMap (frame sizeHeader) ++ rest) :
    Driven.Completes (Benign p true) IoResult.moves (receiveBudget messages)
      ((protoMsgRecv p malloc unpack).times messages.length) e fun received e' =>
        received = messages.map unpack ∧ e'.incoming = rest := by
  induction messages generalizing e with
  | nil =>
    apply Driven.completes_pure
    exact ⟨rfl, by simpa using hin⟩
  | cons message messages ih =>
    have hhead : e.incoming =
        frame sizeHeader message ++ (messages.flatMap (frame sizeHeader) ++ rest) := by
      rw [hin, List.flatMap_cons, List.append_assoc]
    refine (protoMsgRecv_completes (hfits message List.mem_cons_self)
      (hmalloc message List.mem_cons_self) hhead).bind ?_
    rintro msg e₁ ⟨rfl, hin₁, -⟩
    -- the rest of the stream starts with the next frame
    have htail := ih (fun m hm => hfits m (List.mem_cons_of_mem _ hm))
      (fun m hm => hmalloc m (List.mem_cons_of_mem _ hm)) hin₁
    apply htail.bind (n := 0)
    rintro received e₂ ⟨rfl, hin₂⟩
    exact Driven.completes_pure ⟨rfl, hin₂⟩

/-- `recvall` that returned false stopped at the end of the stream or at a
failure that is not retried, and took fewer bytes than it was asked for. -/
theorem recvall_false {len : ℕ} {schedule after : List IoResult} {e' : Endpoint}
    (h : recvall p len schedule e = ⟨some false, e', after⟩) :
    ∃ n < len, e'.incoming = e.incoming.drop n ∧ e'.buffer = e.incoming.take n ∧
      ∃ used last, schedule = used ++ last :: after ∧ (∀ r ∈ used, Benign p true r) ∧
        Stops p true e' last := by
  have hend := recvall_end p len schedule e
  rw [h] at hend
  cases hend with
  | stopped hn hP hschedule hused hlast =>
    obtain ⟨-, hin, hbuf, -⟩ := hP
    exact ⟨_, hn, hin, hbuf, _, _, hschedule, hused, hlast⟩

/-- `sendall` has at any time sent some front part of the buffer, and exactly
the buffer once it has returned true. -/
theorem sendall_prefix (buf : Bytes) (schedule : List IoResult) (e : Endpoint) :
    ∃ n ≤ buf.length, (sendall p buf schedule e).state.transmitted = e.transmitted ++ buf.take n ∧
      ((sendall p buf schedule e).value = some true → n = buf.length) := by
  have hend := sendall_end p buf schedule e
  generalize sendall p buf schedule e = outcome at hend
  cases hend with
  | done hP => exact ⟨_, hP.1, hP.2.1, fun _ => rfl⟩
  | stopped hn hP => exact ⟨_, hP.1, hP.2.1, fun h => by cases h⟩
  | waiting hn hP => exact ⟨_, hP.1, hP.2.1, fun h => by cases h⟩

/-- **Framing.** Along every endless schedule of benign results on which bytes
keep moving, the server receives exactly the messages the client sent, with the
stream left behind them, and `sendall` sends exactly its buffer; on every
schedule `sendall` has sent a front part of its buffer only, and `recvall`
returns false only at the end of the stream or at a real error, short of the
bytes it was asked for. -/
theorem server_receives_sent (unpack : Bytes → Option μ)
    (hsent : messages.mapM msgSend = some sent) (hin : e.incoming = sent.flatten ++ rest)
    (hmalloc : ∀ message ∈ messages, malloc message.length = true)
    {reads writes : ℕ → IoResult}
    (hreads : ∀ n, Benign p true (reads n)) (hwrites : ∀ n, Benign p false (writes n))
    (hreading : ∀ n, ∃ m, n ≤ m ∧ (reads m).moves = true)
    (hwriting : ∀ n, ∃ m, n ≤ m ∧ (writes m).moves = true) :
    (∃ N e' after, (protoMsgRecv p malloc unpack).times messages.length
        ((List.range N).map reads) e = ⟨some (messages.map unpack), e', after⟩ ∧
        e'.incoming = rest) ∧
    (∀ (buf : Bytes) (e₀ : Endpoint), ∃ N e' after,
      sendall p buf ((List.range N).map writes) e₀ = ⟨some true, e', after⟩ ∧
        e'.transmitted = e₀.transmitted ++ buf) ∧
    (∀ (buf : Bytes) (schedule : List IoResult) (e₀ : Endpoint), ∃ n ≤ buf.length,
      (sendall p buf schedule e₀).state.transmitted = e₀.transmitted ++ buf.take n ∧
        ((sendall p buf schedule e₀).value = some true → n = buf.length)) ∧
    (∀ (len : ℕ) (schedule after : List IoResult) (e₀ e' : Endpoint),
      recvall p len schedule e₀ = ⟨some false, e', after⟩ →
        ∃ n < len, e'.incoming = e₀.incoming.drop n ∧ e'.buffer = e₀.incoming.take n ∧
          ∃ used last, schedule = used ++ last :: after ∧ (∀ r ∈ used, Benign p true r) ∧
            Stops p true e' last) := by
  obtain ⟨rfl, hfits⟩ := frames_of_msgSend hsent
  rw [← List.flatMap_def] at hin
  refine ⟨?_, ?_, fun buf schedule e₀ => sendall_prefix buf schedule e₀,
    fun len schedule after e₀ e' h => recvall_false h⟩
  -- the budget is finite, and the schedule pays it some time
  · obtain ⟨N, received, e', after, hrun, rfl, hleft⟩ :=
      (protoMsgRecv_times_completes hfits hmalloc hin).eventually hreads hreading
    exact ⟨N, e', after, hrun, hleft⟩
  · intro buf e₀
    obtain ⟨N, ok, e', after, hrun, ⟨rfl, -, hout, -⟩⟩ :=
      (sendall_completes buf).eventually hwrites hwriting
    exact ⟨N, e', after, hrun, by rw [hout, List.take_length]⟩

/-- A message of two bytes and an empty one, over reads that are interrupted
every second time and bring one byte otherwise. -/
theorem server_receives_two_interrupted :
    ∃ N e' after, (protoMsgRecv .linux (fun _ => true) some).times 2
      ((List.range N).map fun n => if n % 2 = 0 then .failed 4 else .moved 0)
      ⟨frame sizeHeader [7, 8] ++ frame sizeHeader [] ++ [9], [], [], 0⟩ =
        ⟨some [some [7, 8], some []], e', after⟩ ∧ e'.incoming = [9] := by
  refine (@server_receives_sent .linux (fun _ => true) Bytes [[7, 8], []]
    [frame sizeHeader [7, 8], frame sizeHeader []] [9]
    ⟨frame sizeHeader [7, 8] ++ frame sizeHeader [] ++ [9], [], [], 0⟩ some (by decide) rfl
    (fun _ _ => rfl) (fun n => if n % 2 = 0 then .failed 4 else .moved 0) (fun _ => .moved 0)
    (fun n => ?_) (fun _ => trivial) (fun n => ?_) fun n => ⟨n, le_refl n, rfl⟩).1
  · split
    · exact Or.inl rfl
    · trivial
  · exact ⟨2 * n + 1, by omega, by simp [IoResult.moves]⟩

end RpcProject.Transport
