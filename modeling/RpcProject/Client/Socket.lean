/-
# Sending and receiving whole buffers

`sendall` copies its buffer into a remote block and calls `send` on what is left of the block
until nothing is. `recvall` receives into one remote block, again and again, and collects
what each call has put there.

The kernel takes or delivers any part of what is asked for. As long as every call moves
something, the bytes come through whole and in order.
-/

import RpcProject.Client.Remote

namespace RpcProject.Client.Socket

open Foundations Foundations.Effect

/-- A connected socket: the bytes transmitted so far, those that arrive from now on, and the
number of calls made. -/
structure Connection where
  outgoing : List Byte
  incoming : List Byte
  calls : ℕ
  closed : Bool
  deriving DecidableEq, Repr

/-- `EPIPE` -/
def epipe : ℕ := 32

variable (host : Host) (fd : ℤ)

/-- The remote `send`. -/
def symbolsSend (buf : Symbol) (size : ℕ) : Call Connection Symbol := fun s =>
  let kernel := { s.kernel with calls := s.kernel.calls + 1 }
  match host.outcome s.kernel.calls with
  | .fails errno => (.ok (.new (-1)), { s with errno, kernel })
  | .moves most =>
      (.ok (.new (min most size : ℕ)), { s with
        kernel := { kernel with
          outgoing := kernel.outgoing ++ s.memory.load buf.bits (min most size) } })

/-- The remote `recv`. -/
def symbolsRecv (chunk : Symbol) (size : ℕ) : Call Connection Symbol := fun s =>
  let kernel := { s.kernel with calls := s.kernel.calls + 1 }
  match host.outcome s.kernel.calls with
  | .fails errno => (.ok (.new (-1)), { s with errno, kernel })
  | .moves most =>
      let n := min most (min size kernel.incoming.length)
      (.ok (.new n), { s with
        memory := s.memory.store chunk.bits (kernel.incoming.take n)
        kernel := { kernel with incoming := kernel.incoming.drop n } })

/-- `_deallocate` -/
def deallocate : Call Connection Unit :=
  modify fun s => { s with kernel := { s.kernel with closed := true } }

/-- Send bytes from buf on the remote socket fd. -/
def send (buf : Symbol) (size : ℕ) : Call Connection ℕ := do
  let result ← symbolsSend host buf size
  if result.cInt64 < 0 then
    let errno ← look Remote.errno
    if errno = epipe then
      deallocate
      raiseErrnoException s!"failed to send on fd: {fd}"
    else
      raiseErrnoException s!"failed to send on fd: {fd}"
  else
    return result.cInt64.toNat

/-- The loop of `sendall`. -/
def sendLoop (block : Symbol) (size : ℕ) : ℕ → ℕ → Call Connection Unit
  | 0, _ => raise .outOfFuel
  | fuel + 1, offset =>
      if offset < size then do
        let sent ← send host fd (block.add offset) (size - offset)
        sendLoop block size fuel (offset + sent)
      else pure ()

/-- Send the entire buffer, retrying until all bytes are written. -/
def sendall (fuel : ℕ) (buf : List Byte) : Call Connection Unit :=
  safeMalloc host.malloc buf.length fun block => do
    poke block buf
    sendLoop host fd block buf.length fuel 0

/-- `_recv`, which reads out of the chunk what has been received into it. -/
def recvChunk (chunk : Symbol) (size : ℕ) : Call Connection (List Byte) := do
  let result ← symbolsRecv host chunk size
  if result.cInt64 < 0 then
    raiseErrnoException s!"recv() failed for fd: {fd}"
  else if result.cInt64 = 0 then
    raiseErrnoException s!"recv() failed for fd: {fd} (peer closed)"
  else
    peek chunk result.cInt64.toNat

/-- The loop of `recvall`. -/
def recvLoop (chunk : Symbol) (size : ℕ) : ℕ → List Byte → Call Connection (List Byte)
  | 0, _ => raise .outOfFuel
  | fuel + 1, buf =>
      if buf.length < size then do
        let part ← recvChunk host fd chunk (size - buf.length)
        recvLoop chunk size fuel (buf ++ part)
      else pure buf

/-- recv at remote until all buffer is received -/
def recvall (fuel : ℕ) (size : ℕ) : Call Connection (List Byte) :=
  safeMalloc host.malloc size fun chunk => recvLoop host fd chunk size fuel []

/-! ## One call -/

variable {host fd} {s : Remote Connection} {block chunk : Symbol} {size most offset : ℕ}
  {data buf : List Byte}

/-- A transfer that moves something sends a first part. -/
theorem send_of_moves (fd : ℤ) (houtcome : host.outcome s.kernel.calls = .moves most)
    (hmost : most < 2 ^ 63) (address : Symbol) (size : ℕ) :
    send host fd address size s = (.ok (min most size), { s with
      kernel := { s.kernel with
        calls := s.kernel.calls + 1
        outgoing := s.kernel.outgoing ++ s.memory.load address.bits (min most size) } }) := by
  have hcall : symbolsSend host address size s = (.ok (.new (min most size : ℕ)), { s with
      kernel := { s.kernel with
        calls := s.kernel.calls + 1
        outgoing := s.kernel.outgoing ++ s.memory.load address.bits (min most size) } }) := by
    rw [symbolsSend, houtcome]
  have hcast : (Symbol.new (min most size : ℕ)).cInt64 = (min most size : ℕ) :=
    Symbol.cInt64_new_natCast (by omega)
  rw [send, bind_of_ok hcall, hcast, if_neg (by omega)]
  rfl

theorem recvChunk_of_moves (fd : ℤ) (houtcome : host.outcome s.kernel.calls = .moves most)
    (hpos : 0 < most) (hmost : most < 2 ^ 63) (hchunk : chunk.int ≠ 0) (hsize : 0 < size)
    (havailable : size ≤ s.kernel.incoming.length) :
    ∃ memory, recvChunk host fd chunk size s =
        (.ok (s.kernel.incoming.take (min most size)), { s with
      memory
      kernel := { s.kernel with
        calls := s.kernel.calls + 1
        incoming := s.kernel.incoming.drop (min most size) } }) := by
  have hmin : min most (min size s.kernel.incoming.length) = min most size := by omega
  have hcall : symbolsRecv host chunk size s = (.ok (.new (min most size : ℕ)), { s with
      memory := s.memory.store chunk.bits (s.kernel.incoming.take (min most size))
      kernel := { s.kernel with
        calls := s.kernel.calls + 1
        incoming := s.kernel.incoming.drop (min most size) } }) := by
    rw [symbolsRecv, houtcome]
    dsimp only
    rw [hmin]
  have hcast : (Symbol.new (min most size : ℕ)).cInt64 = (min most size : ℕ) :=
    Symbol.cInt64_new_natCast (by omega)
  have hlength : (s.kernel.incoming.take (min most size)).length = min most size := by
    rw [List.length_take]
    omega
  rw [recvChunk, bind_of_ok hcall, hcast, if_neg (by omega), if_neg (by omega), Int.toNat_natCast]
  exact ⟨_, peek_stored hchunk hlength (by omega) rfl⟩

/-! ## The loops -/

/-- What is left of the block is sent from wherever the loop stands. -/
theorem sendLoop_settles (hflows : host.Flows) (fd : ℤ) (block : Symbol) (s : Remote Connection)
    (offset : ℕ) (hdata : ∀ i n, i + n ≤ data.length →
      s.memory.load (block.bits + BitVec.ofNat 64 i) n = (data.drop i).take n)
    (hoffset : offset ≤ data.length) :
    ∃ t, Settles (fun fuel => sendLoop host fd block data.length fuel offset) s (.ok (), t) ∧
      t.kernel.outgoing = s.kernel.outgoing ++ data.drop offset ∧
      t.kernel.incoming = s.kernel.incoming := by
  -- on the number of bytes still to be sent
  induction hleft : data.length - offset using Nat.strong_induction_on generalizing s offset with
  | _ left ih =>
    subst hleft
    by_cases hlt : offset < data.length
    · obtain ⟨most, houtcome, hpos, hmost⟩ := hflows s.kernel.calls
      have hsend := send_of_moves fd houtcome hmost (block.add offset) (data.length - offset)
      rw [Symbol.bits_add, hdata offset _ (by omega)] at hsend
      -- at least one byte has been taken, so the induction goes on with fewer
      obtain ⟨t, hsettles, houtgoing, hincoming⟩ := ih
        (data.length - (offset + min most (data.length - offset))) (by omega)
        { s with
          kernel := { s.kernel with
            calls := s.kernel.calls + 1
            outgoing := s.kernel.outgoing ++
              (data.drop offset).take (min most (data.length - offset)) } }
        (offset + min most (data.length - offset)) hdata (by omega) rfl
      refine ⟨t, Settles.succ ?_, ?_, hincoming⟩
      · simp only [sendLoop, if_pos hlt]
        exact Settles.bind_const hsend hsettles
      · rw [houtgoing, List.append_assoc, ← List.drop_drop, List.take_append_drop]
    · refine ⟨s, Settles.succ ?_, ?_, rfl⟩
      · simp only [sendLoop, if_neg hlt]
        exact settles_const _ s
      · rw [List.drop_of_length_le (by omega), List.append_nil]

/-- What is missing is received, whatever has been collected. -/
theorem recvLoop_settles (hflows : host.Flows) (fd : ℤ) (hchunk : 0 < size → chunk.int ≠ 0)
    (s : Remote Connection) (buf : List Byte)
    (havailable : size - buf.length ≤ s.kernel.incoming.length) :
    ∃ t, Settles (fun fuel => recvLoop host fd chunk size fuel buf) s
        (.ok (buf ++ s.kernel.incoming.take (size - buf.length)), t) ∧
      t.kernel.incoming = s.kernel.incoming.drop (size - buf.length) ∧
      t.kernel.outgoing = s.kernel.outgoing := by
  -- on the number of bytes still to be received
  induction hleft : size - buf.length using Nat.strong_induction_on generalizing s buf with
  | _ left ih =>
    subst hleft
    by_cases hlt : buf.length < size
    · obtain ⟨most, houtcome, hpos, hmost⟩ := hflows s.kernel.calls
      obtain ⟨memory, hrecv⟩ := recvChunk_of_moves fd houtcome hpos hmost
        (hchunk (by omega)) (by omega) havailable
      have hlength : (buf ++ s.kernel.incoming.take (min most (size - buf.length))).length =
          buf.length + min most (size - buf.length) := by
        rw [List.length_append, List.length_take]
        omega
      have hmissing : size - (buf.length + min most (size - buf.length)) =
          size - buf.length - min most (size - buf.length) := by omega
      -- a chunk is cut to what is missing, so no call takes more than that
      obtain ⟨t, hsettles, hincoming, houtgoing⟩ := ih
        (size - buf.length - min most (size - buf.length)) (by omega)
        { s with
          memory
          kernel := { s.kernel with
            calls := s.kernel.calls + 1
            incoming := s.kernel.incoming.drop (min most (size - buf.length)) } }
        (buf ++ s.kernel.incoming.take (min most (size - buf.length)))
        (by dsimp only; rw [hlength, List.length_drop]; omega) (by rw [hlength, hmissing])
      have hsum : min most (size - buf.length) +
          (size - buf.length - min most (size - buf.length)) =
          size - buf.length := by omega
      dsimp only at hsettles hincoming houtgoing
      rw [List.append_assoc, ← List.take_add, hsum] at hsettles
      rw [List.drop_drop, hsum] at hincoming
      refine ⟨t, Settles.succ ?_, hincoming, houtgoing⟩
      simp only [recvLoop, if_pos hlt]
      exact Settles.bind_const hrecv hsettles
    · have hzero : size - buf.length = 0 := by omega
      refine ⟨s, Settles.succ ?_, by rw [hzero, List.drop_zero], rfl⟩
      simp only [recvLoop, if_neg hlt]
      rw [hzero, List.take_zero, List.append_nil]
      exact settles_const _ s

theorem sendall_settles (hflows : host.Flows) (fd : ℤ) (hbuf : buf ≠ [])
    (hprovides : Provides host.malloc buf.length) (s : Remote Connection) :
    ∃ t, Settles (fun fuel => sendall host fd fuel buf) s (.ok (), t) ∧
      t.kernel.outgoing = s.kernel.outgoing ++ buf ∧ t.kernel.incoming = s.kernel.incoming := by
  have hpos : 0 < buf.length := List.length_pos_iff.mpr hbuf
  have hpoke : poke (host.malloc buf.length) buf s =
      (.ok (), { s with memory := s.memory.store (host.malloc buf.length).bits buf }) :=
    poke_of_ne (hprovides.int_ne_zero hpos)
  obtain ⟨t, hsettles, houtgoing, hincoming⟩ := sendLoop_settles hflows fd
    (host.malloc buf.length)
    { s with memory := s.memory.store (host.malloc buf.length).bits buf } 0
    (fun i n hle => Memory.load_store_add _ _ hle hprovides.size_le) (Nat.zero_le _)
  exact ⟨t, Settles.bind_const hpoke hsettles, houtgoing, hincoming⟩

/-- All that was asked for is received, if it is there. -/
theorem recvall_settles (hflows : host.Flows) (fd : ℤ) (hprovides : Provides host.malloc size)
    (s : Remote Connection) (havailable : size ≤ s.kernel.incoming.length) :
    ∃ t, Settles (fun fuel => recvall host fd fuel size) s
        (.ok (s.kernel.incoming.take size), t) ∧
      t.kernel.incoming = s.kernel.incoming.drop size ∧ t.kernel.outgoing = s.kernel.outgoing :=
  recvLoop_settles hflows fd hprovides.int_ne_zero s [] havailable

/-! ## A peer that sends back what it receives -/

/-- The peer receives the next bytes that were transmitted and sends them back. -/
def echo (n : ℕ) : Call Connection Unit := modify fun s => { s with
  kernel := { s.kernel with
    incoming := s.kernel.incoming ++ s.kernel.outgoing.take n
    outgoing := s.kernel.outgoing.drop n } }

variable (host fd) in
/-- Send buffers one after the other, while the peer sends back some bytes after each. -/
def sendEach (fuel : ℕ) (sends : List (List Byte × ℕ)) : Call Connection Unit :=
  forEach (fun send => do
    sendall host fd fuel send.1
    echo send.2) sends

variable (host fd) in
/-- Send buffers through the peer, and receive as many bytes as were sent. -/
def roundTrip (fuel : ℕ) (sends : List (List Byte × ℕ)) : Call Connection (List Byte) := do
  sendEach host fd fuel sends
  let rest ← look fun s => s.kernel.outgoing.length
  echo rest
  recvall host fd fuel (sends.flatMap Prod.fst).length

/-- Several buffers are sent one after the other. -/
theorem sendEach_settles (hflows : host.Flows) (fd : ℤ) (s : Remote Connection)
    (sends : List (List Byte × ℕ))
    (hsends : ∀ send ∈ sends, send.1 ≠ [] ∧ Provides host.malloc send.1.length) :
    ∃ t, Settles (fun fuel => sendEach host fd fuel sends) s (.ok (), t) ∧
      t.kernel.incoming ++ t.kernel.outgoing =
        s.kernel.incoming ++ s.kernel.outgoing ++ sends.flatMap Prod.fst := by
  induction sends generalizing s with
  | nil => exact ⟨s, settles_const _ s, (List.append_nil _).symm⟩
  | cons send rest ih =>
    obtain ⟨⟨hne, hprovides⟩, hrest⟩ := List.forall_mem_cons.mp hsends
    obtain ⟨t, hsend, houtgoing, hincoming⟩ := sendall_settles hflows fd hne hprovides s
    obtain ⟨u, heach, hstreams⟩ := ih { t with
      kernel := { t.kernel with
        incoming := t.kernel.incoming ++ t.kernel.outgoing.take send.2
        outgoing := t.kernel.outgoing.drop send.2 } } hrest
    refine ⟨u, Settles.bind (hsend.bind (settles_const (echo send.2) t)) heach, ?_⟩
    rw [hstreams]
    dsimp only
    rw [List.append_assoc t.kernel.incoming, List.take_append_drop, hincoming, houtgoing,
      List.flatMap_cons]
    simp only [List.append_assoc]

/-- What was sent is received from an echo. -/
theorem roundTrip_settles (hflows : host.Flows) (fd : ℤ) (s : Remote Connection)
    (sends : List (List Byte × ℕ))
    (hsends : ∀ send ∈ sends, send.1 ≠ [] ∧ Provides host.malloc send.1.length)
    (htotal : Provides host.malloc (sends.flatMap Prod.fst).length)
    (hincoming : s.kernel.incoming = []) (houtgoing : s.kernel.outgoing = []) :
    ∃ t, Settles (fun fuel => roundTrip host fd fuel sends) s
        (.ok (sends.flatMap Prod.fst), t) := by
  obtain ⟨t, heach, hstreams⟩ := sendEach_settles hflows fd s sends hsends
  rw [hincoming, houtgoing, List.nil_append, List.nil_append] at hstreams
  obtain ⟨u, hrecv, -, -⟩ := recvall_settles hflows fd htotal
    { t with
      kernel := { t.kernel with
        incoming := t.kernel.incoming ++ t.kernel.outgoing.take t.kernel.outgoing.length
        outgoing := t.kernel.outgoing.drop t.kernel.outgoing.length } }
    (by dsimp only; rw [List.take_length, hstreams])
  have hresult : (t.kernel.incoming ++ t.kernel.outgoing.take t.kernel.outgoing.length).take
      (sends.flatMap Prod.fst).length = sends.flatMap Prod.fst := by
    rw [List.take_length, hstreams, List.take_length]
  dsimp only at hrecv
  rw [hresult] at hrecv
  exact ⟨u, heach.bind (Settles.bind_const rfl (Settles.bind_const rfl hrecv))⟩

/-- Buffers are sent and received whole and in order, whatever part of them each call moves. -/
theorem transfers_whole (fd : ℤ) (hflows : host.Flows) :
    (∀ s buf, buf ≠ [] → Provides host.malloc buf.length →
      ∃ t, Settles (fun fuel => sendall host fd fuel buf) s (.ok (), t) ∧
        t.kernel.outgoing = s.kernel.outgoing ++ buf ∧
        t.kernel.incoming = s.kernel.incoming) ∧
    (∀ s size, Provides host.malloc size → size ≤ s.kernel.incoming.length →
      ∃ t, Settles (fun fuel => recvall host fd fuel size) s
          (.ok (s.kernel.incoming.take size), t) ∧
        t.kernel.incoming = s.kernel.incoming.drop size ∧
        t.kernel.outgoing = s.kernel.outgoing) ∧
    (∀ s sends, (∀ send ∈ sends, send.1 ≠ [] ∧ Provides host.malloc send.1.length) →
      Provides host.malloc (sends.flatMap Prod.fst).length →
      s.kernel.incoming = [] → s.kernel.outgoing = [] →
      ∃ t, Settles (fun fuel => roundTrip host fd fuel sends) s
          (.ok (sends.flatMap Prod.fst), t)) :=
  ⟨fun s _ hbuf hprovides => sendall_settles hflows fd hbuf hprovides s,
    fun s _ hprovides havailable => recvall_settles hflows fd hprovides s havailable,
    fun s sends hsends htotal hincoming houtgoing =>
      roundTrip_settles hflows fd s sends hsends htotal hincoming houtgoing⟩

/-- Five bytes and one, with at most three in each call. -/
theorem transfers_whole_threes :
    let host : Host := ⟨fun _ => .new 4096, fun _ => .moves 3⟩
    ∃ t, Settles (fun fuel => roundTrip host 4 fuel [([1, 2, 3, 4, 5], 2), ([6], 0)])
      ⟨fun _ => 0, 0, ⟨[], [], 0, false⟩⟩ (.ok [1, 2, 3, 4, 5, 6], t) := by
  intro host
  have hprovides : ∀ size ≤ 8, Provides host.malloc size := by
    intro size hle _
    have haddress : (host.malloc size).int = 4096 := (by decide : (Symbol.new 4096).int = 4096)
    omega
  refine (transfers_whole 4 fun call => ⟨3, rfl, by decide, by decide⟩).2.2 _
    [([1, 2, 3, 4, 5], 2), ([6], 0)] (fun send hsend => ?_) (hprovides _ (by decide)) rfl rfl
  rcases List.mem_pair.mp hsend with rfl | rfl
  · exact ⟨by decide, hprovides _ (by decide)⟩
  · exact ⟨by decide, hprovides _ (by decide)⟩

end RpcProject.Client.Socket
