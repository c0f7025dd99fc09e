/-
# Messages from the server to the client

The server sends messages with `proto_msg_send`, the network delivers the byte
stream in chunks, and the client calls `_msg_recv` once for each message. The
client reads a body in as many pieces as it takes but a size in one piece only,
so the calls return exactly the messages when every size arrives whole, and not
otherwise.
-/

import RpcProject.Client.RpcSocket
import RpcProject.Server.SockIo

namespace RpcProject.Transport

open Foundations Protocol Client Server

/-- A packed message, whose size the server keeps in a `size_t`. -/
structure Packed where
  bytes : Bytes
  fits : bytes.length < 256 ^ sizeHeader

/-- Calls of `_msg_recv`, one for each message, return exactly the messages in
order, and the next call waits. -/
def Delivers (messages : List Packed) (chunks : List Bytes) : Prop :=
  ∃ left, receiveAll messages.length chunks = .ok (messages.map Packed.bytes, left) ∧
    msgRecv left = .error .waiting

/-- The stream positions where the sizes of the messages start. -/
def headerStarts (start : ℕ) : List Packed → List ℕ
  | [] => []
  | message :: messages =>
      start :: headerStarts (start + (sizeHeader + message.bytes.length)) messages

/-- No chunk ends strictly inside the size of a message. -/
def HeadersWhole (start : ℕ) (messages : List Packed) (chunks : List Bytes) : Prop :=
  ∀ header ∈ headerStarts start messages, ∀ cut ∈ cuts start chunks,
    cut ≤ header ∨ header + sizeHeader ≤ cut

variable {start : ℕ} {message : Packed} {messages : List Packed} {chunks : List Bytes}

theorem le_of_mem_headerStarts {header : ℕ} (h : header ∈ headerStarts start messages) :
    start ≤ header := by
  induction messages generalizing start with
  | nil => simp [headerStarts] at h
  | cons message messages ih =>
    rcases List.mem_cons.mp h with rfl | h
    · exact le_refl _
    · exact le_trans (Nat.le_add_right _ _) (ih h)

/-- Once the first size is whole, the sizes are whole if those of the remaining
messages are in the rest of the delivery. -/
theorem headersWhole_cons_iff {chunk : Bytes} (hne : ∀ piece ∈ chunk :: chunks, piece ≠ [])
    (hwhole : sizeHeader ≤ chunk.length) :
    HeadersWhole start (message :: messages) (chunk :: chunks) ↔
      HeadersWhole (start + (sizeHeader + message.bytes.length)) messages
        (dropItems (sizeHeader + message.bytes.length) (chunk :: chunks)) := by
  have htail : ∀ piece ∈ chunks, piece ≠ [] := fun piece hpiece =>
    hne piece (List.mem_cons_of_mem _ hpiece)
  constructor
  · intro h header hheader cut hcut
    exact h header (List.mem_cons_of_mem _ hheader) cut ((mem_cuts_dropItems hne).mp hcut).1
  · intro h header hheader cut hcut
    rcases List.mem_cons.mp hheader with rfl | hheader
    -- the first size lies in the first chunk, before any cut
    · have := le_of_mem_cuts_cons htail hcut
      exact Or.inr (by omega)
    -- a cut within the first message lies before every later size
    · by_cases hbeyond : start + (sizeHeader + message.bytes.length) < cut
      · exact h header hheader cut ((mem_cuts_dropItems hne).mpr ⟨hcut, hbeyond⟩)
      · have := le_of_mem_headerStarts hheader
        exact Or.inl (by omega)

theorem delivers_iff (hne : ∀ chunk ∈ chunks, chunk ≠ [])
    (hstream : chunks.flatten = (messages.map Packed.bytes).flatMap (frame sizeHeader)) :
    Delivers messages chunks ↔ HeadersWhole start messages chunks := by
  induction messages generalizing start chunks with
  | nil =>
    -- nothing was sent, so nothing arrives and the call waits
    have hnone : chunks = [] := by
      cases chunks with
      | nil => rfl
      | cons chunk chunks => simp [hne chunk List.mem_cons_self] at hstream
    subst hnone
    simp [Delivers, HeadersWhole, headerStarts, receiveAll, msgRecv, Client.recv, bind, Except.bind]
  | cons message messages ih =>
    rw [List.map_cons, List.flatMap_cons] at hstream
    cases chunks with
    | nil =>
      have hlength := congrArg List.length hstream
      rw [List.flatten_nil, List.length_append, frame_length, List.length_nil,
        sizeHeader] at hlength
      omega
    | cons chunk chunks =>
      have hrecv := msgRecv_frame message.fits hne hstream
      by_cases hwhole : sizeHeader ≤ chunk.length
      -- the first message arrives, and the rest of the delivery is for the others
      · have hleft : (dropItems (sizeHeader + message.bytes.length) (chunk :: chunks)).flatten =
            (messages.map Packed.bytes).flatMap (frame sizeHeader) := by
          rw [flatten_dropItems, hstream, List.drop_left' frame_length]
        rw [headersWhole_cons_iff hne hwhole, ← ih (ne_nil_of_mem_dropItems hne) hleft]
        rw [if_pos hwhole] at hrecv
        unfold Delivers
        rw [List.length_cons, receiveAll, hrecv]
        cases hrest : receiveAll messages.length
            (dropItems (sizeHeader + message.bytes.length) (chunk :: chunks)) with
        | error stop => simp [bind, Except.bind, hrest]
        | ok received => simp [bind, Except.bind, hrest, pure, Except.pure, Prod.ext_iff]
      -- the first size is cut, and the first call raises
      · rw [if_neg hwhole] at hrecv
        have hcut : start + chunk.length ∈ cuts start (chunk :: chunks) := List.mem_cons_self
        have hpos : 0 < chunk.length := List.length_pos_iff.mpr (hne chunk List.mem_cons_self)
        constructor
        · rintro ⟨left, hall, -⟩
          rw [List.length_cons, receiveAll, hrecv] at hall
          simp [bind, Except.bind] at hall
        · intro h
          rcases h start List.mem_cons_self _ hcut with hbefore | hafter
          · omega
          · omega

/-- **Framing.** Of messages that the server has sent, and however their bytes
arrive in chunks, the client receives exactly the messages if and only if no
chunk ends strictly inside the size of a message. -/
theorem client_receives_iff_headers_whole (messages : List Packed) {p : Platform}
    {schedule rest : List IoResult} {e e' : Endpoint} (hfresh : e.transmitted = [])
    (hsent : protoMsgSends p (messages.map Packed.bytes) schedule e = ⟨some true, e', rest⟩)
    (delivery : Fragmentation e'.transmitted) :
    Delivers messages delivery.chunks ↔ HeadersWhole 0 messages delivery.chunks := by
  apply delivers_iff delivery.nonempty
  rw [delivery.flatten, transmitted_of_protoMsgSends hsent, hfresh, List.nil_append]

/-- One message of one byte, whose size arrives as three bytes and five. -/
theorem not_delivers_split_header :
    ¬ ∀ (messages : List Packed) (p : Platform) (schedule rest : List IoResult) (e e' : Endpoint),
      e.transmitted = [] →
      protoMsgSends p (messages.map Packed.bytes) schedule e = ⟨some true, e', rest⟩ →
      ∀ delivery : Fragmentation e'.transmitted, Delivers messages delivery.chunks := by
  intro h
  obtain ⟨left, hall, -⟩ := h [⟨[7], by decide⟩] .linux [.moved 7, .moved 0] [] ⟨[], [], [], 0⟩
    ⟨[], [], [1, 0, 0, 0, 0, 0, 0, 0, 7], 0⟩ rfl (by decide)
    ⟨[[1, 0, 0], [0, 0, 0, 0, 0, 7]], by decide, by decide⟩
  have hraises : receiveAll 1 [[1, 0, 0], [0, 0, 0, 0, 0, 7]] =
      .error (.raised .connectionError) := rfl
  rw [List.length_singleton, hraises] at hall
  cases hall

/-- Two messages, of three bytes and two. -/
def twoMessages : List Packed := [⟨[7, 7, 7], by decide⟩, ⟨[9, 9], by decide⟩]

/-- Their sizes arrive whole: both bodies are cut, and the second size shares a chunk with
the ends of both. -/
def cutBodies : List Bytes :=
  [[3, 0, 0, 0, 0, 0, 0, 0, 7], [7], [7, 2, 0, 0, 0, 0, 0, 0, 0, 9], [9]]

theorem delivers_cutBodies : Delivers twoMessages cutBodies := by
  have hwhole : HeadersWhole 0 twoMessages cutBodies := by
    unfold HeadersWhole
    decide
  exact (@client_receives_iff_headers_whole twoMessages .linux
    [.moved 7, .moved 0, .moved 1, .moved 7, .moved 1] []
    ⟨[], [], [], 0⟩ ⟨[], [], cutBodies.flatten, 0⟩ rfl (by decide)
    ⟨cutBodies, by decide, rfl⟩).mpr hwhole

end RpcProject.Transport
