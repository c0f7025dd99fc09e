/-
# Open remote files

A `File` works on a remote descriptor. Reads and writes may transfer less than they are asked
to; `read` collects chunks until it has enough, and `write` goes on with what is left of its
buffer until nothing is. The offset of the descriptor is moved by both, and by `seek`.

The chunk that `read` asks for has the same size in every round, so that it may get more
than it wants; `write` measures its buffer when it has consumed it; `pwrite` makes one call
and does not look at the count; and `seek` casts an offset of 64 bits to 32.
-/

import Mathlib.Algebra.BigOperators.Group.Finset.Basic
import Mathlib.Algebra.Order.BigOperators.Group.Finset
import RpcProject.Client.Remote

namespace RpcProject.Files.OpenFile

open Foundations Foundations.Effect Client

/-! ## The remote calls -/

/-- What a descriptor refers to: the bytes of the file and the offset, with the bytes that
calls of `write` have taken, in order, and the number of calls made. -/
structure Description where
  contents : List Byte
  offset : ℕ
  taken : List Byte
  calls : ℕ
  deriving DecidableEq, Repr

/-- The number of bytes from the offset to the end. -/
def Description.remaining (file : Description) : ℕ := file.contents.length - file.offset

/-- The bytes of a file after a write at some offset, with zeros up to there if it ends
before. -/
def overwrite (contents : List Byte) (offset : ℕ) (data : List Byte) : List Byte :=
  if data = [] then contents
  else contents.takeD offset 0 ++ data ++ contents.drop (offset + data.length)

variable (host : Host) (fd : ℤ)

/-- The remote `read`. -/
def symbolsRead (buf : Symbol) (size : ℕ) : Call Description Symbol := fun s =>
  let file := { s.kernel with calls := s.kernel.calls + 1 }
  match host.outcome s.kernel.calls with
  | .fails errno => (.ok (.new (-1)), { s with errno, kernel := file })
  | .moves most =>
      let n := min most (min size file.remaining)
      (.ok (.new n), { s with
        memory := s.memory.store buf.bits ((file.contents.drop file.offset).take n)
        kernel := { file with offset := file.offset + n } })

/-- The remote `write`. -/
def symbolsWrite (buf : List Byte) (size : ℕ) : Call Description Symbol := fun s =>
  let file := { s.kernel with calls := s.kernel.calls + 1 }
  match host.outcome s.kernel.calls with
  | .fails errno => (.ok (.new (-1)), { s with errno, kernel := file })
  | .moves most =>
      let data := buf.take (min most size)
      (.ok (.new data.length), { s with
        kernel := { file with
          contents := overwrite file.contents file.offset data
          offset := file.offset + data.length
          taken := file.taken ++ data } })

/-- `EINVAL` -/
def einval : ℕ := 22

/-- The remote `pwrite`, which takes its offset for an `off_t`. -/
def symbolsPwrite (buf : List Byte) (size : ℕ) (offset : ℤ) : Call Description Symbol := fun s =>
  let file := { s.kernel with calls := s.kernel.calls + 1 }
  let offset := (Symbol.new offset).cInt64
  if offset < 0 then (.ok (.new (-1)), { s with errno := einval, kernel := file })
  else
    match host.outcome s.kernel.calls with
    | .fails errno => (.ok (.new (-1)), { s with errno, kernel := file })
    | .moves most =>
        let data := buf.take (min most size)
        (.ok (.new data.length), { s with
          kernel := { file with contents := overwrite file.contents offset.toNat data } })

/-! ## Reading -/

/-- read file at remote -/
def readChunk (buf : Symbol) (size : ℕ) : Call Description (List Byte) := do
  let result ← symbolsRead host buf size
  if result.cInt64 < 0 then
    raiseErrnoException s!"read() failed for fd: {fd}"
  else
    peek buf result.cInt64.toNat

/-- The loop of `read`, with a chunk of memory at the server. -/
def readUsingChunk (chunk : Symbol) (chunkSize : ℕ) (size : ℤ) :
    ℕ → List Byte → Call Description (List Byte)
  | 0, _ => raise .outOfFuel
  | fuel + 1, buf =>
      if size = -1 ∨ buf.length < size then do
        -- a whole chunk is asked for in every round, also in the last one
        let part ← readChunk host fd chunk chunkSize
        -- the end of the file
        if part = [] then pure buf
        else readUsingChunk chunk chunkSize size fuel (buf ++ part)
      else pure buf

/-- The size of the chunk of a `read`. -/
def chunkFor (size : ℤ) (chunkSize : ℕ) : ℕ :=
  if size ≠ -1 ∧ size < chunkSize then size.toNat else chunkSize

/-- read file at remote -/
def read (fuel : ℕ) (size : ℤ) (chunkSize : ℕ) (chunk : Option Symbol) :
    Call Description (List Byte) :=
  match chunk.filter fun chunk => chunk.int ≠ 0 with
  | some chunk => readUsingChunk host fd chunk (chunkFor size chunkSize) size fuel []
  | none => safeMalloc host.malloc (chunkFor size chunkSize) fun tempChunk =>
      readUsingChunk host fd tempChunk (chunkFor size chunkSize) size fuel []

/-- Write bytes to the remote file descriptor. -/
def writeOnce (buf : List Byte) : Call Description ℕ := do
  let result ← symbolsWrite host buf buf.length
  if result.cInt64 < 0 then
    raiseErrnoException s!"failed to write on fd: {fd}"
  else
    return result.cInt64.toNat

/-- Write the full buffer, retrying until all bytes are written. -/
def write : ℕ → List Byte → Call Description ℕ
  | 0, _ => raise .outOfFuel
  | fuel + 1, buf =>
      -- by now nothing is left of the buffer, so this is zero
      if buf = [] then pure buf.length
      else do
        let n ← writeOnce host fd buf
        write fuel (buf.drop n)

/-- call pwrite() at remote -/
def pwrite (buf : List Byte) (offset : ℤ) : Call Description Unit := do
  -- one call, of which only a failure is looked at
  let result ← symbolsPwrite host buf buf.length offset
  if result.cInt64 < 0 then
    raiseErrnoException s!"pwrite() failed for fd: {fd}"
  else
    pure ()

/-! ## The bytes of a read -/

/-- The next bytes of the file, as many as are asked for or all that remain, are returned,
and the offset moves behind them. -/
def ReadExact (s : Remote Description) (size : ℤ) (chunkSize : ℕ) : Prop :=
  let wanted := if size = -1 then s.kernel.remaining else min size.toNat s.kernel.remaining
  ∃ t, Settles (fun fuel => read host fd fuel size chunkSize none) s
      (.ok ((s.kernel.contents.drop s.kernel.offset).take wanted), t) ∧
    t.kernel.offset = s.kernel.offset + wanted

/-- The bytes that `n` calls from some call on bring, if the file does not end before. -/
def brought (chunkSize call n : ℕ) : ℕ := ∑ i ∈ Finset.range n, min (host.most (call + i)) chunkSize

variable {host fd} {s : Remote Description} {chunk : Symbol} {chunkSize call n m need : ℕ}
  {size : ℤ}
  {buf data : List Byte}

theorem brought_zero : brought host chunkSize call 0 = 0 := Finset.sum_range_zero _

theorem brought_succ :
    brought host chunkSize call (n + 1) =
      brought host chunkSize call n + min (host.most (call + n)) chunkSize :=
  Finset.sum_range_succ _ _

/-- The first call apart. -/
theorem brought_succ' :
    brought host chunkSize call (n + 1) =
      min (host.most call) chunkSize + brought host chunkSize (call + 1) n := by
  rw [brought, Finset.sum_range_succ', Nat.add_comm, Nat.add_zero, brought]
  simp only [Nat.add_assoc, Nat.add_comm 1]

theorem brought_strictMono (hflows : host.Flows) (hchunk : 0 < chunkSize) :
    StrictMono (brought host chunkSize call) := by
  apply strictMono_nat_of_lt_succ
  intro n
  rw [brought_succ]
  have hpos := (hflows.outcome (call + n)).2.1
  omega

/-- If `n` calls are the first to bring enough, some number of calls brings just enough if
these do. -/
theorem exists_brought_eq_iff (hflows : host.Flows) (hchunk : 0 < chunkSize)
    (hbefore : ∀ m < n, brought host chunkSize call m < need)
    (henough : need ≤ brought host chunkSize call n) :
    (∃ m, brought host chunkSize call m = need) ↔ brought host chunkSize call n = need := by
  refine ⟨?_, fun h => ⟨n, h⟩⟩
  rintro ⟨m, rfl⟩
  have hmono : StrictMono (brought host chunkSize call) := brought_strictMono hflows hchunk
  -- fewer calls bring too little, and more of them more than `n` do
  have hle : n ≤ m := Nat.le_of_not_lt fun hlt => Nat.lt_irrefl _ (hbefore m hlt)
  exact Nat.le_antisymm (hmono.monotone hle) henough

theorem readChunk_of_flows (hflows : host.Flows) (fd : ℤ) (hchunk : chunk.int ≠ 0) (chunkSize : ℕ)
    (s : Remote Description) :
    let n := min (host.most s.kernel.calls) (min chunkSize s.kernel.remaining)
    ∃ memory, readChunk host fd chunk chunkSize s =
      (.ok ((s.kernel.contents.drop s.kernel.offset).take n), { s with
        memory
        kernel := { s.kernel with
          calls := s.kernel.calls + 1
          offset := s.kernel.offset + n } }) := by
  intro n
  obtain ⟨houtcome, -, hlt⟩ := hflows.outcome s.kernel.calls
  have hn : n < 2 ^ 63 := by omega
  have hlength : ((s.kernel.contents.drop s.kernel.offset).take n).length = n := by
    rw [List.length_take, List.length_drop]
    have hremaining : n ≤ s.kernel.contents.length - s.kernel.offset :=
      (Nat.min_le_right _ _).trans (Nat.min_le_right _ _)
    omega
  have hcall : symbolsRead host chunk chunkSize s = (.ok (.new n), { s with
      memory := s.memory.store chunk.bits ((s.kernel.contents.drop s.kernel.offset).take n)
      kernel := { s.kernel with
        calls := s.kernel.calls + 1
        offset := s.kernel.offset + n } }) := by
    rw [symbolsRead, houtcome]
    rfl
  rw [readChunk, bind_of_ok hcall, Symbol.cInt64_new_natCast hn, if_neg (by omega),
    Int.toNat_natCast]
  exact ⟨_, peek_stored hchunk hlength (by omega) rfl⟩

/-- At the end of the file, the loop returns what it has. -/
theorem readUsingChunk_settles_at_end (hflows : host.Flows) (fd : ℤ) (hchunk : chunk.int ≠ 0)
    (chunkSize : ℕ) (size : ℤ) (buf : List Byte) (hend : s.kernel.remaining = 0) :
    ∃ t, Settles (fun fuel => readUsingChunk host fd chunk chunkSize size fuel buf) s (.ok buf, t) ∧
      t.kernel.offset = s.kernel.offset := by
  by_cases hwants : size = -1 ∨ buf.length < size
  · obtain ⟨memory, hread⟩ := readChunk_of_flows hflows fd hchunk chunkSize s
    rw [hend, Nat.min_zero, Nat.min_zero, List.take_zero, Nat.add_zero] at hread
    refine ⟨{ s with memory, kernel := { s.kernel with calls := s.kernel.calls + 1 } },
      Settles.succ ?_, rfl⟩
    simp only [readUsingChunk, if_pos hwants]
    apply Settles.bind_const hread
    simp only [if_true]
    exact settles_const _ _
  · refine ⟨s, Settles.succ ?_, rfl⟩
    simp only [readUsingChunk, if_neg hwants]
    exact settles_const _ s

/-- A round of the loop before the end of the file. -/
theorem readUsingChunk_round (hflows : host.Flows) (fd : ℤ) (hchunk : chunk.int ≠ 0)
    (hsize : 0 < chunkSize) (hwants : size = -1 ∨ buf.length < size)
    (hrest : 0 < s.kernel.remaining) {k : ℕ}
    (hk : k = min (host.most s.kernel.calls) (min chunkSize s.kernel.remaining)) :
    ∃ part t, part = (s.kernel.contents.drop s.kernel.offset).take k ∧ part.length = k ∧
      t.kernel = { s.kernel with
        calls := s.kernel.calls + 1
        offset := s.kernel.offset + k } ∧
      ∀ result,
        Settles (fun fuel =>
          readUsingChunk host fd chunk chunkSize size fuel (buf ++ part)) t result →
        Settles (fun fuel => readUsingChunk host fd chunk chunkSize size fuel buf) s result := by
  obtain ⟨memory, hread⟩ := readChunk_of_flows hflows fd hchunk chunkSize s
  rw [← hk] at hread
  have hpos := (hflows.outcome s.kernel.calls).2.1
  have hlength : ((s.kernel.contents.drop s.kernel.offset).take k).length = k := by
    rw [List.length_take, List.length_drop]
    have hdrop : s.kernel.remaining = s.kernel.contents.length - s.kernel.offset := rfl
    omega
  have hne : (s.kernel.contents.drop s.kernel.offset).take k ≠ [] :=
    List.ne_nil_of_length_pos (by omega)
  refine ⟨(s.kernel.contents.drop s.kernel.offset).take k, { s with
      memory
      kernel := { s.kernel with
        calls := s.kernel.calls + 1
        offset := s.kernel.offset + k } }, rfl, hlength, rfl, fun result hsettles =>
          Settles.succ ?_⟩
  simp only [readUsingChunk, if_pos hwants]
  apply Settles.bind_const hread
  simp only [if_neg hne]
  exact hsettles

/-- The loop returns what `n` calls bring: they are the first that bring enough, or that bring
all that remains. -/
structure Collects (host : Host) (fd : ℤ) (chunk : Symbol) (chunkSize : ℕ) (size : ℤ)
    (s : Remote Description) (buf : List Byte) (n : ℕ) (t : Remote Description) : Prop where
  settles : Settles (fun fuel => readUsingChunk host fd chunk chunkSize size fuel buf) s
    (.ok (buf ++ (s.kernel.contents.drop s.kernel.offset).take
      (brought host chunkSize s.kernel.calls n)), t)
  offset : t.kernel.offset =
    s.kernel.offset + min (brought host chunkSize s.kernel.calls n) s.kernel.remaining
  before : ∀ m < n, size = -1 ∨ (buf.length + brought host chunkSize s.kernel.calls m : ℕ) < size
  enough : s.kernel.remaining ≤ brought host chunkSize s.kernel.calls n ∨
    ¬ (size = -1 ∨ (buf.length + brought host chunkSize s.kernel.calls n : ℕ) < size)

/-- Nothing more is collected when there is enough. -/
theorem collects_of_enough (fd : ℤ) (chunk : Symbol) (s : Remote Description)
    (h : ¬ (size = -1 ∨ buf.length < size)) :
    Collects host fd chunk chunkSize size s buf 0 s where
  settles := by
    apply Settles.succ
    simp only [readUsingChunk, if_neg h]
    rw [brought_zero, List.take_zero, List.append_nil]
    exact settles_const _ s
  offset := by rw [brought_zero, Nat.zero_min, Nat.add_zero]
  before := fun m hm => absurd hm (Nat.not_lt_zero m)
  enough := .inr (by rwa [brought_zero, Nat.add_zero])

theorem collects_at_end (hflows : host.Flows) (fd : ℤ) (hchunk : chunk.int ≠ 0) (chunkSize : ℕ)
    (size : ℤ) (buf : List Byte) (hend : s.kernel.remaining = 0) :
    ∃ t, Collects host fd chunk chunkSize size s buf 0 t := by
  obtain ⟨t, hsettles, hoffset⟩ :=
    readUsingChunk_settles_at_end hflows fd hchunk chunkSize size buf hend
  refine ⟨t, ?_, ?_, fun m hm => absurd hm (Nat.not_lt_zero m), .inl ?_⟩
  · rwa [brought_zero, List.take_zero, List.append_nil]
  · rw [hoffset, brought_zero, Nat.zero_min, Nat.add_zero]
  · rw [hend, brought_zero]

/-- The file ends within the next call, which may have been able to bring more. -/
theorem collects_last (hflows : host.Flows) (fd : ℤ) (hchunk : chunk.int ≠ 0)
    (hsize : 0 < chunkSize) (hwants : size = -1 ∨ buf.length < size)
    (hrest : 0 < s.kernel.remaining)
    (hall : s.kernel.remaining ≤ min (host.most s.kernel.calls) chunkSize) :
    ∃ u, Collects host fd chunk chunkSize size s buf 1 u := by
  obtain ⟨part, t, hpart, hlength, hkernel, hround⟩ :=
    readUsingChunk_round hflows fd hchunk hsize hwants hrest rfl
  have hremaining : t.kernel.remaining = s.kernel.remaining - part.length := by
    rw [hkernel, hlength]
    exact (Nat.sub_sub _ _ _).symm
  obtain ⟨u, hsettles, hoffset⟩ := readUsingChunk_settles_at_end hflows fd hchunk chunkSize
    size (buf ++ part) (hremaining.trans (by omega))
  have hone : brought host chunkSize s.kernel.calls 1 =
      min (host.most s.kernel.calls) chunkSize := by
    rw [brought_succ, brought_zero, Nat.zero_add, Nat.add_zero]
  have hdrop : (s.kernel.contents.drop s.kernel.offset).length = s.kernel.remaining :=
    List.length_drop
  have hwhole : (s.kernel.contents.drop s.kernel.offset).take
      (min (host.most s.kernel.calls) chunkSize) = part := by
    rw [hpart, List.take_of_length_le (by omega), List.take_of_length_le (by omega)]
  refine ⟨u, ?_, ?_, fun m hm => ?_, .inl (hone ▸ hall)⟩
  · rw [hone, hwhole]
    exact hround _ hsettles
  · rw [hoffset, hone, Nat.min_eq_right hall, hkernel]
    dsimp only
    omega
  · obtain rfl : m = 0 := by omega
    rwa [brought_zero, Nat.add_zero]

/-- A call that brings less than what remains is followed by those of the rest of the loop. -/
theorem collects_succ {t u : Remote Description} {k : ℕ} {part : List Byte}
    (hwants : size = -1 ∨ buf.length < size)
    (hk : k = min (host.most s.kernel.calls) chunkSize) (hmore : k ≤ s.kernel.remaining)
    (hpart : part = (s.kernel.contents.drop s.kernel.offset).take k) (hlength : part.length = k)
    (hkernel : t.kernel = { s.kernel with
      calls := s.kernel.calls + 1
      offset := s.kernel.offset + k })
    (hround : ∀ result,
      Settles (fun fuel =>
        readUsingChunk host fd chunk chunkSize size fuel (buf ++ part)) t result →
      Settles (fun fuel => readUsingChunk host fd chunk chunkSize size fuel buf) s result)
    (h : Collects host fd chunk chunkSize size t (buf ++ part) n u) :
    Collects host fd chunk chunkSize size s buf (n + 1) u := by
  have hremaining : t.kernel.remaining = s.kernel.remaining - k := by
    rw [hkernel]
    exact (Nat.sub_sub _ _ _).symm
  have hsum : ∀ m, brought host chunkSize s.kernel.calls (m + 1) =
      k + brought host chunkSize t.kernel.calls m := by
    intro m
    rw [brought_succ', hkernel, hk]
  have hwhole : ∀ m, (buf ++ part).length + brought host chunkSize t.kernel.calls m =
      buf.length + brought host chunkSize s.kernel.calls (m + 1) := by
    intro m
    rw [List.length_append, hlength, hsum, Nat.add_assoc]
  refine ⟨hround _ ?_, ?_, fun m hm => ?_, ?_⟩
  · have hjoin : (s.kernel.contents.drop s.kernel.offset).take
        (brought host chunkSize s.kernel.calls (n + 1)) =
          part ++ (t.kernel.contents.drop t.kernel.offset).take
            (brought host chunkSize t.kernel.calls n) := by
      rw [hsum, List.take_add, List.drop_drop, ← hpart, hkernel]
    rw [hjoin, ← List.append_assoc]
    exact h.settles
  · rw [h.offset, hsum, hremaining, hkernel]
    dsimp only
    omega
  · cases m with
    | zero => rwa [brought_zero, Nat.add_zero]
    | succ m =>
      rw [← hwhole]
      exact h.before m (by omega)
  · rw [← hwhole]
    apply h.enough.imp_left
    intro hle
    rw [hsum]
    omega

/-- The loop collects something and ends. -/
theorem exists_collects (hflows : host.Flows) (fd : ℤ) (hchunk : chunk.int ≠ 0)
    (hsize : 0 < chunkSize) (size : ℤ) (s : Remote Description) (buf : List Byte) :
    ∃ n t, Collects host fd chunk chunkSize size s buf n t := by
  -- on the number of bytes that remain
  induction hleft : s.kernel.remaining using Nat.strong_induction_on generalizing s buf with
  | _ left ih =>
    subst hleft
    by_cases hwants : size = -1 ∨ buf.length < size
    swap
    · exact ⟨0, s, collects_of_enough fd chunk s hwants⟩
    rcases Nat.eq_zero_or_pos s.kernel.remaining with hend | hrest
    · exact ⟨0, collects_at_end hflows fd hchunk chunkSize size buf hend⟩
    by_cases hall : s.kernel.remaining ≤ min (host.most s.kernel.calls) chunkSize
    · exact ⟨1, collects_last hflows fd hchunk hsize hwants hrest hall⟩
    have hpos := (hflows.outcome s.kernel.calls).2.1
    obtain ⟨part, t, hpart, hlength, hkernel, hround⟩ :=
      readUsingChunk_round hflows fd hchunk hsize hwants hrest
        (k := min (host.most s.kernel.calls) chunkSize) (by omega)
    have hremaining : t.kernel.remaining =
        s.kernel.remaining - min (host.most s.kernel.calls) chunkSize := by
      rw [hkernel]
      exact (Nat.sub_sub _ _ _).symm
    obtain ⟨n, u, hcollects⟩ := ih t.kernel.remaining (by omega) t (buf ++ part) rfl
    exact ⟨n + 1, u, collects_succ hwants rfl (by omega) hpart hlength hkernel hround hcollects⟩

theorem read_none (fuel : ℕ) (size : ℤ) (chunkSize : ℕ) :
    read host fd fuel size chunkSize none = readUsingChunk host fd
      (host.malloc (chunkFor size chunkSize)) (chunkFor size chunkSize) size fuel [] := rfl

/-- A read is exact just if it brings as many bytes as there are to be read. -/
theorem readExact_iff_of_settles {n : ℕ} {t : Remote Description}
    (hsettles : Settles (fun fuel => read host fd fuel size chunkSize none) s
      (.ok ((s.kernel.contents.drop s.kernel.offset).take n), t))
    (hoffset : t.kernel.offset = s.kernel.offset + min n s.kernel.remaining) :
    ReadExact host fd s size chunkSize ↔
      min n s.kernel.remaining =
        if size = -1 then s.kernel.remaining else min size.toNat s.kernel.remaining := by
  constructor
  · rintro ⟨u, hsettles', hoffset'⟩
    obtain ⟨-, rfl⟩ := Prod.mk.inj (hsettles.unique hsettles')
    omega
  · intro h
    have hlength : (s.kernel.contents.drop s.kernel.offset).length = s.kernel.remaining :=
      List.length_drop
    refine ⟨t, ?_, hoffset.trans (congrArg _ h)⟩
    rwa [← h, ← hlength, ← List.take_eq_take_min]

/-- Nothing is read for a size of zero. -/
theorem readExact_zero (chunkSize : ℕ) : ReadExact host fd s 0 chunkSize := by
  refine ⟨s, Settles.succ ?_, ?_⟩
  · simp only [read_none, readUsingChunk]
    rw [if_neg (by decide)]
    exact settles_const _ s
  · simp

/-- A read is exact just if everything that remains is asked for, or if some number of the
calls, each for a whole chunk, brings the size. -/
theorem readExact_iff (hflows : host.Flows) (fd : ℤ) (s : Remote Description) (hsize : -1 ≤ size)
    (hchunk : 0 < chunkSize) (hprovides : Provides host.malloc (chunkFor size chunkSize)) :
    ReadExact host fd s size chunkSize ↔
      size = -1 ∨ s.kernel.remaining ≤ size ∨
        ∃ n, brought host (chunkFor size chunkSize) s.kernel.calls n = size := by
  rcases eq_or_ne size 0 with rfl | hne
  · exact iff_of_true (readExact_zero chunkSize) (.inr (.inr ⟨0, congrArg _ brought_zero⟩))
  have hpos : 0 < chunkFor size chunkSize := by
    rw [chunkFor]
    split <;> omega
  obtain ⟨n, t, hsettles, hoffset, hbefore, hafter⟩ := exists_collects hflows fd
    (hprovides.int_ne_zero hpos) hpos size s []
  rw [List.nil_append] at hsettles
  simp only [List.length_nil, Nat.zero_add] at hbefore hafter
  rw [readExact_iff_of_settles hsettles hoffset]
  by_cases hall : size = -1 ∨ s.kernel.remaining ≤ size
  · refine iff_of_true ?_ (hall.imp_right .inl)
    split <;> omega
  · rw [if_neg (by omega)]
    have hcount : (∃ m, brought host (chunkFor size chunkSize) s.kernel.calls m = size.toNat) ↔
        brought host (chunkFor size chunkSize) s.kernel.calls n = size.toNat :=
      exists_brought_eq_iff hflows hpos (fun m hm => by have hlt := hbefore m hm; omega) (by omega)
    have hcast : ∀ m : ℕ, (m : ℤ) = size ↔ m = size.toNat := by omega
    simp only [hcast]
    rw [hcount]
    clear hcount
    omega

/-- Five bytes are asked for, in chunks of three. -/
theorem readExact_iff_threes :
    let host : Host := ⟨fun _ => .new 4096, fun _ => .moves 3⟩
    ReadExact host 4 ⟨fun _ => 0, 0, ⟨[1, 2, 3, 4, 5, 6, 7], 0, [], 0⟩⟩ 6 3 ↔
      (6 : ℤ) = -1 ∨ (7 : ℕ) ≤ (6 : ℤ) ∨ ∃ n, brought host 3 0 n = (6 : ℤ) := by
  intro host
  refine readExact_iff (fun call => ⟨3, rfl, by decide, by decide⟩) 4 _ (by decide) (by decide) ?_
  intro _
  decide

/-- A read of five bytes in chunks of three returns six. -/
theorem not_readExact_five :
    ¬ ReadExact ⟨fun _ => .new 4096, fun _ => .moves 3⟩ 4
      ⟨fun _ => 0, 0, ⟨[1, 2, 3, 4, 5, 6, 7], 0, [], 0⟩⟩ 5 3 := by
  rintro ⟨t, ⟨enough, hrun⟩, -⟩
  have hsix : (read ⟨fun _ => .new 4096, fun _ => .moves 3⟩ 4 (enough + 3) 5 3 none
      ⟨fun _ => 0, 0, ⟨[1, 2, 3, 4, 5, 6, 7], 0, [], 0⟩⟩).1 = .ok [1, 2, 3, 4, 5, 6] := rfl
  have hfive := congrArg Prod.fst (hrun (enough + 3) (Nat.le_add_right _ _))
  have hlength : 6 = 5 := congrArg List.length (Except.ok.inj (hsix.symm.trans hfive))
  exact absurd hlength (by decide)

end RpcProject.Files.OpenFile
