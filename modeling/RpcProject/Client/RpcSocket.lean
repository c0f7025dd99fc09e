/-
# The client's socket

`RpcSocket` frames messages over a non-blocking stream socket. `_msg_send` packs
the size and the message into one buffer. `_msg_recv` reads the size with one
`_recv` of its eight bytes, and the message with `_recvall`, which calls `_recv`
until it has all bytes. A size that does not come whole is a `struct.error`,
which `_msg_recv` turns into a `ConnectionError`.

The stream reaches the client in chunks. `sock_recv(n)` returns the next chunk,
or the first `n` bytes of it, and waits while there is none. An empty chunk is
the end of the stream.
-/

import RpcProject.Foundations.Chunks
import RpcProject.Protocol.Messages

namespace RpcProject.Client

open Foundations Protocol

/-- The exceptions of a receive. -/
inductive SocketError
  | connectionError
  | serverDied
  deriving DecidableEq, Repr

/-- Why a receive has not returned: it waits for more bytes, or it has raised. -/
inductive Stop
  | waiting
  | raised (error : SocketError)
  deriving DecidableEq, Repr

/-! ## Sending -/

/-- `_msg_send`: the buffer given to `sock_sendall`. A size that `<Q` cannot
hold is a `struct.error`. -/
def msgSend (message : Bytes) : Option Bytes :=
  if message.length < 256 ^ sizeHeader then some (frame sizeHeader message) else none

/-! ## Receiving -/

/-- `_recv`: between one byte and `size` of the next bytes. -/
def recv (size : ℕ) : List Bytes → Except Stop (Bytes × List Bytes)
  | [] => .error .waiting
  | chunk :: chunks =>
      if chunk.length ≤ size then .ok (chunk, chunks)
      else .ok (chunk.take size, chunk.drop size :: chunks)

/-- `_recvall`: receive until `size` bytes are there. -/
def recvall (size : ℕ) : List Bytes → Except Stop (Bytes × List Bytes)
  | [] => if size = 0 then .ok ([], []) else .error .waiting
  | chunk :: chunks =>
      if size = 0 then .ok ([], chunk :: chunks)
      else if chunk = [] then .error (.raised .serverDied)
      else if chunk.length ≤ size then
        (recvall (size - chunk.length) chunks).map fun (buf, rest) => (chunk ++ buf, rest)
      else .ok (chunk.take size, chunk.drop size :: chunks)

/-- `SIZE_HEADER_STRUCT.unpack` needs exactly eight bytes. -/
def unpackSize (header : Bytes) : Option ℕ :=
  if header.length = sizeHeader then some (ofLE header) else none

/-- `_msg_recv`: the header, then as many bytes as it tells. -/
def msgRecv (chunks : List Bytes) : Except Stop (Bytes × List Bytes) := do
  let (header, chunks) ← recv sizeHeader chunks
  match unpackSize header with
  | none => .error (.raised .connectionError)
  | some size => recvall size chunks

/-- So many calls of `_msg_recv`, one after the other. -/
def receiveAll : ℕ → List Bytes → Except Stop (List Bytes × List Bytes)
  | 0, chunks => .ok ([], chunks)
  | n + 1, chunks => do
      let (message, chunks) ← msgRecv chunks
      let (messages, chunks) ← receiveAll n chunks
      return (message :: messages, chunks)

/-- What the bytes received so far amount to for a receiver between two awaits:
a size that came short, part of a message, or all of it. -/
inductive Receipt
  | short
  | open
  | whole
  deriving DecidableEq, Repr

/-- How much of a frame has arrived. -/
def receipt (got : Bytes) : Receipt :=
  if got.length < sizeHeader then .short
  else if frameNeed sizeHeader got = 0 then .whole
  else .open

/-- The rest of `_msg_recv` for a receiver that has `got`. -/
def resume (got : Bytes) (chunks : List Bytes) : Except Stop (Bytes × List Bytes) :=
  match receipt got with
  | .short => .error (.raised .connectionError)
  | .whole => .ok (frameBody sizeHeader got, chunks)
  | .open =>
      (recvall (frameNeed sizeHeader got) chunks).map fun (buf, rest) =>
        (frameBody sizeHeader got ++ buf, rest)

/-! ## What the receives do -/

variable {size n : ℕ} {chunks : List Bytes} {bytes rest : Bytes}

@[simp] theorem recvall_zero (chunks : List Bytes) : recvall 0 chunks = .ok ([], chunks) := by
  cases chunks <;> simp [recvall]

/-- One turn of the loop in `_recvall` is one `_recv`. -/
theorem recvall_eq_recv (hsize : size ≠ 0) :
    recvall size chunks = recv size chunks >>= fun (chunk, chunks) =>
      if chunk = [] then .error (.raised .serverDied)
      else (recvall (size - chunk.length) chunks).map fun (buf, rest) => (chunk ++ buf, rest) := by
  cases chunks with
  | nil => simp [recvall, recv, hsize, bind, Except.bind]
  | cons chunk chunks =>
    rw [recvall, recv, if_neg hsize]
    by_cases hle : chunk.length ≤ size
    · rw [if_pos hle, if_pos hle]
      rfl
    -- the chunk is longer than asked for, and the loop ends with this turn
    · have hchunk : chunk ≠ [] := by
        rintro rfl
        exact hle (Nat.zero_le _)
      have htake : chunk.take size ≠ [] := by simp [hchunk, hsize]
      have hfull : size - (chunk.take size).length = 0 := by
        rw [List.length_take]
        omega
      rw [if_neg hle, if_neg hle, if_neg hchunk]
      change _ = if chunk.take size = [] then _ else
        (recvall (size - (chunk.take size).length) _).map _
      rw [if_neg htake, hfull, recvall_zero]
      simp [Except.map]

/-- `_recv` returns no more than it is asked for. -/
theorem recv_length_le {left : List Bytes} (h : recv size chunks = .ok (bytes, left)) :
    bytes.length ≤ size := by
  cases chunks with
  | nil => cases h
  | cons chunk chunks =>
    rw [recv] at h
    split at h
    · next hle =>
      obtain ⟨rfl, -⟩ := Prod.mk.inj (Except.ok.inj h)
      exact hle
    · obtain ⟨rfl, -⟩ := Prod.mk.inj (Except.ok.inj h)
      exact List.length_take_le _ _

/-- `_msg_recv` is one `_recv` of the size, and the rest of it. -/
theorem msgRecv_eq_resume (chunks : List Bytes) :
    msgRecv chunks = recv sizeHeader chunks >>= fun (header, chunks) => resume header chunks := by
  cases hrecv : recv sizeHeader chunks with
  | error stop =>
    rw [msgRecv, hrecv]
    rfl
  | ok received =>
    obtain ⟨header, rest⟩ := received
    have hle := recv_length_le hrecv
    rw [msgRecv, hrecv]
    change (match unpackSize header with
      | none => Except.error (Stop.raised .connectionError)
      | some size => recvall size rest) = resume header rest
    -- `_recv` returns the eight bytes of the size, or fewer
    rcases Nat.lt_or_eq_of_le hle with hshort | hwhole
    -- the size did not come whole
    · rw [unpackSize, if_neg hshort.ne, resume, receipt, if_pos hshort]
    · have hbody : frameBody sizeHeader header = [] := by rw [frameBody, ← hwhole, List.drop_length]
      have hneed : frameNeed sizeHeader header = ofLE header := by
        rw [frameNeed, if_neg hwhole.not_lt, ← hwhole, List.take_length, Nat.add_sub_cancel_left]
      rw [unpackSize, if_pos hwhole, resume, receipt, if_neg hwhole.not_lt, hneed, hbody]
      by_cases hzero : ofLE header = 0
      · rw [if_pos hzero, hzero]
        exact recvall_zero rest
      · rw [if_neg hzero]
        change recvall (ofLE header) rest = (recvall (ofLE header) rest).map _
        cases recvall (ofLE header) rest <;> rfl

/-- A receiver that has the size and part of the body takes one `_recv` of what
is missing, and goes on. -/
theorem resume_eq_recv {got : Bytes} (chunks : List Bytes) (hopen : receipt got = .open) :
    resume got chunks = recv (frameNeed sizeHeader got) chunks >>= fun (chunk, chunks) =>
      if chunk = [] then .error (.raised .serverDied) else resume (got ++ chunk) chunks := by
  obtain ⟨hsize, hneed⟩ : sizeHeader ≤ got.length ∧ frameNeed sizeHeader got ≠ 0 := by
    unfold receipt at hopen
    split at hopen
    · cases hopen
    · next hlong =>
      split at hopen
      · cases hopen
      · next hneed => exact ⟨Nat.le_of_not_lt hlong, hneed⟩
  rw [resume, hopen]
  change (recvall (frameNeed sizeHeader got) chunks).map _ = _
  rw [recvall_eq_recv hneed]
  cases recv (frameNeed sizeHeader got) chunks with
  | error stop => rfl
  | ok received =>
    obtain ⟨chunk, rest⟩ := received
    change Except.map _ (if chunk = [] then _ else _) = if chunk = [] then _ else _
    by_cases hchunk : chunk = []
    · rw [if_pos hchunk, if_pos hchunk]
      rfl
    · have hlong : ¬ (got ++ chunk).length < sizeHeader := by
        rw [List.length_append]
        omega
      have hbody : frameBody sizeHeader (got ++ chunk) = frameBody sizeHeader got ++ chunk :=
        List.drop_append_of_le_length hsize
      rw [if_neg hchunk, if_neg hchunk, resume, receipt, if_neg hlong, frameNeed_append hsize,
        hbody]
      -- the body is complete, or some more of it is missing
      by_cases hrest : frameNeed sizeHeader got - chunk.length = 0
      · rw [if_pos hrest, hrest, recvall_zero]
        simp [Except.map]
      · rw [if_neg hrest]
        cases recvall (frameNeed sizeHeader got - chunk.length) rest <;> simp [Except.map]

/-- On a stream in non-empty chunks `_recvall` returns exactly the bytes asked
for and leaves the delivery behind them. -/
theorem recvall_eq (hne : ∀ chunk ∈ chunks, chunk ≠ []) (hbytes : chunks.flatten = bytes ++ rest) :
    recvall bytes.length chunks = .ok (bytes, dropItems bytes.length chunks) := by
  induction chunks generalizing bytes with
  | nil =>
    obtain ⟨rfl, rfl⟩ := List.append_eq_nil_iff.mp hbytes.symm
    simp [recvall]
  | cons chunk chunks ih =>
    have hchunk : chunk ≠ [] := hne chunk List.mem_cons_self
    have htail : ∀ piece ∈ chunks, piece ≠ [] := fun piece hpiece =>
      hne piece (List.mem_cons_of_mem _ hpiece)
    rw [List.flatten_cons] at hbytes
    by_cases hzero : bytes = []
    · subst hzero
      rw [List.length_nil, dropItems_zero hne, recvall_zero]
    have hpos : bytes.length ≠ 0 := by simpa using hzero
    rw [recvall, if_neg hpos, if_neg hchunk, dropItems]
    -- which of the two is longer decides whether another `_recv` follows
    rcases List.append_eq_append_iff.mp hbytes with ⟨more, rfl, hflatten⟩ | ⟨more, rfl, hflatten⟩
    -- the chunk ends inside the bytes asked for
    · have hleft : (chunk ++ more).length - chunk.length = more.length := by simp
      rw [if_pos (by simp), hleft, ih htail hflatten, if_neg (by simp)]
      rfl
    -- the bytes asked for end inside the chunk, or with it
    · by_cases hmore : more = []
      · subst hmore
        simp only [List.append_nil, List.nil_append, le_refl, if_true, Nat.sub_self,
          lt_irrefl, if_false] at hflatten ⊢
        rw [recvall_zero, dropItems_zero htail]
        simp [Except.map]
      · have hlonger : bytes.length < (bytes ++ more).length := by
          simpa using List.length_pos_iff.mpr hmore
        rw [if_neg (Nat.not_le.mpr hlonger), if_pos hlonger, List.take_left' rfl]

/-- `_msg_recv` on a stream that starts with a frame: it returns the body when
the first chunk holds the whole size, and raises when it does not. -/
theorem msgRecv_frame {body : Bytes} {chunk : Bytes} (fits : body.length < 256 ^ sizeHeader)
    (hne : ∀ piece ∈ chunk :: chunks, piece ≠ [])
    (hframe : (chunk :: chunks).flatten = frame sizeHeader body ++ rest) :
    msgRecv (chunk :: chunks) =
      if sizeHeader ≤ chunk.length then
        .ok (body, dropItems (sizeHeader + body.length) (chunk :: chunks))
      else .error (.raised .connectionError) := by
  by_cases hwhole : sizeHeader ≤ chunk.length
  -- one `_recv` gets the whole size and leaves the rest of the chunk
  · have hrecv : recv sizeHeader (chunk :: chunks) =
        .ok (chunk.take sizeHeader, dropItems sizeHeader (chunk :: chunks)) := by
      rw [recv, dropItems]
      rcases Nat.eq_or_lt_of_le hwhole with heq | hlt
      · have htail : ∀ piece ∈ chunks, piece ≠ [] := fun piece hpiece =>
          hne piece (List.mem_cons_of_mem _ hpiece)
        rw [if_pos heq.ge, if_neg heq.not_lt, heq, Nat.sub_self, dropItems_zero htail,
          List.take_length]
      · rw [if_neg (Nat.not_le.mpr hlt), if_pos hlt]
    have hsize : chunk.take sizeHeader = toLE sizeHeader body.length := by
      rw [← take_frame rest, ← hframe, List.flatten_cons, List.take_append_of_le_length hwhole]
    have hunpack : unpackSize (chunk.take sizeHeader) = some body.length := by
      rw [hsize, unpackSize, if_pos (toLE_length _ _), ofLE_toLE fits]
    have hleft : (dropItems sizeHeader (chunk :: chunks)).flatten = body ++ rest := by
      rw [flatten_dropItems, hframe, frame, List.append_assoc, List.drop_left' (toLE_length _ _)]
    rw [if_pos hwhole, msgRecv, hrecv]
    change (match unpackSize (chunk.take sizeHeader) with
      | none => _
      | some size => recvall size (dropItems sizeHeader (chunk :: chunks))) = _
    rw [hunpack]
    exact (recvall_eq (ne_nil_of_mem_dropItems hne) hleft).trans
      (by rw [dropItems_dropItems hne])
  -- the size comes in pieces, and the first of them does not unpack
  · have hunpack : unpackSize chunk = none := if_neg (by omega)
    rw [if_neg hwhole, msgRecv, recv, if_pos (by omega)]
    change (match unpackSize chunk with
      | none => _
      | some size => recvall size chunks) = _
    rw [hunpack]

end RpcProject.Client
