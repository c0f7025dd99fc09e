/-
# Whole writes

`write` calls the remote `write` on what is left of its buffer until nothing is, so that each
byte is transferred once and in order. It then returns the length of what is left.

`pwrite` makes one call. The bytes of the buffer that this call does not take are lost,
unless the file has them already.
-/

import Mathlib.Data.List.TakeDrop
import RpcProject.Files.OpenFile

namespace RpcProject.Files.OpenFile

open Foundations Foundations.Effect Client

variable {host : Host} {s t : Remote Description} {contents buf data first second : List Byte}
  {offset i : ℕ}

/-! ## Overwriting -/

theorem overwrite_nil (contents : List Byte) (offset : ℕ) :
    overwrite contents offset [] = contents :=
  if_pos rfl

theorem overwrite_of_ne (h : data ≠ []) (contents : List Byte) (offset : ℕ) :
    overwrite contents offset data =
      contents.takeD offset 0 ++ (data ++ contents.drop (offset + data.length)) := by
  rw [overwrite, if_neg h, List.append_assoc]

/-- One write behind another. -/
theorem overwrite_append (contents : List Byte) (offset : ℕ) (first second : List Byte) :
    overwrite (overwrite contents offset first) (offset + first.length) second =
      overwrite contents offset (first ++ second) := by
  rcases eq_or_ne first [] with rfl | hfirst
  · rw [overwrite_nil, List.length_nil, Nat.add_zero, List.nil_append]
  rcases eq_or_ne second [] with rfl | hsecond
  · rw [overwrite_nil, List.append_nil]
  have hlength : (contents.takeD offset 0 ++ first).length = offset + first.length := by
    rw [List.length_append, List.takeD_length]
  rw [overwrite_of_ne hsecond, overwrite_of_ne hfirst, ← List.append_assoc (contents.takeD _ _),
    List.takeD_left' hlength, ← List.drop_drop, ← hlength, List.drop_left, hlength, List.drop_drop,
    overwrite_of_ne (List.append_ne_nil_of_left_ne_nil hfirst _), List.length_append]
  simp only [List.append_assoc, Nat.add_assoc]

theorem getElem?_overwrite_of_lt (h : i < data.length) (contents : List Byte) (offset : ℕ) :
    (overwrite contents offset data)[offset + i]? = data[i]? := by
  rw [overwrite_of_ne (List.ne_nil_of_length_pos (Nat.zero_lt_of_lt h)),
    List.getElem?_append_right (by rw [List.takeD_length]; exact Nat.le_add_right _ _),
    List.takeD_length, Nat.add_sub_cancel_left, List.getElem?_append_left h]

theorem getElem?_overwrite_of_le (h : data.length ≤ i) (contents : List Byte) (offset : ℕ) :
    (overwrite contents offset data)[offset + i]? = contents[offset + i]? := by
  rcases eq_or_ne data [] with rfl | hne
  · rw [overwrite_nil]
  rw [overwrite_of_ne hne,
    List.getElem?_append_right (by rw [List.takeD_length]; exact Nat.le_add_right _ _),
    List.takeD_length, Nat.add_sub_cancel_left, List.getElem?_append_right h, List.getElem?_drop]
  congr 1
  omega

theorem length_overwrite_le (contents : List Byte) (offset : ℕ) (data : List Byte) :
    (overwrite contents offset data).length ≤ max contents.length (offset + data.length) := by
  rcases eq_or_ne data [] with rfl | hne
  · rw [overwrite_nil]
    exact Nat.le_max_left _ _
  · rw [overwrite_of_ne hne, List.length_append, List.length_append, List.takeD_length,
      List.length_drop]
    omega

/-! ## Writing at the offset -/

/-- Each byte of the buffer has been transferred once and in order. -/
structure Transferred (s t : Remote Description) (buf : List Byte) : Prop where
  taken : t.kernel.taken = s.kernel.taken ++ buf
  contents : t.kernel.contents = overwrite s.kernel.contents s.kernel.offset buf
  offset : t.kernel.offset = s.kernel.offset + buf.length

theorem Transferred.nil (s : Remote Description) : Transferred s s [] :=
  ⟨(List.append_nil _).symm, (overwrite_nil _ _).symm, rfl⟩

/-- What is transferred in parts is transferred. -/
theorem Transferred.append {u : Remote Description} (h : Transferred s t first)
    (h' : Transferred t u second) : Transferred s u (first ++ second) where
  taken := by rw [h'.taken, h.taken, List.append_assoc]
  contents := by rw [h'.contents, h.contents, h.offset, overwrite_append]
  offset := by rw [h'.offset, h.offset, List.length_append, Nat.add_assoc]

/-- One call takes some of the next bytes and says how many. -/
theorem writeOnce_of_flows (hflows : host.Flows) (fd : ℤ) (hbuf : buf ≠ [])
    (s : Remote Description) :
    ∃ n t, 0 < n ∧ n ≤ buf.length ∧ writeOnce host fd buf s = (.ok n, t) ∧
      Transferred s t (buf.take n) := by
  obtain ⟨houtcome, hpos, hlt⟩ := hflows.outcome s.kernel.calls
  set n := min (host.most s.kernel.calls) buf.length with hn
  have hlength : (buf.take n).length = n := by
    rw [List.length_take]
    omega
  let t : Remote Description := { s with
    kernel := {
      contents := overwrite s.kernel.contents s.kernel.offset (buf.take n)
      offset := s.kernel.offset + (buf.take n).length
      taken := s.kernel.taken ++ buf.take n
      calls := s.kernel.calls + 1 } }
  have hcall : symbolsWrite host buf buf.length s = (.ok (.new (buf.take n).length), t) := by
    rw [symbolsWrite, houtcome]
  have hne : 0 < buf.length := List.length_pos_iff.mpr hbuf
  refine ⟨n, t, by omega, by omega, ?_, rfl, rfl, rfl⟩
  rw [writeOnce, bind_of_ok hcall, hlength, Symbol.cInt64_new_natCast (by omega),
    if_neg (by omega), Int.toNat_natCast]
  rfl

/-- All bytes are transferred, and the length of what is left is returned. -/
theorem write_settles (hflows : host.Flows) (fd : ℤ) (s : Remote Description) (buf : List Byte) :
    ∃ t, Settles (fun fuel => write host fd fuel buf) s (.ok 0, t) ∧ Transferred s t buf := by
  -- on the number of bytes that are left
  induction hleft : buf.length using Nat.strong_induction_on generalizing s buf with
  | _ left ih =>
    subst hleft
    rcases eq_or_ne buf [] with rfl | hne
    · refine ⟨s, Settles.succ ?_, .nil s⟩
      simp only [write, if_true]
      exact settles_const _ s
    · obtain ⟨n, t, hpos, hle, hcall, hfirst⟩ := writeOnce_of_flows hflows fd hne s
      have hdrop : (buf.drop n).length < buf.length := by
        rw [List.length_drop]
        omega
      obtain ⟨u, hsettles, hrest⟩ := ih (buf.drop n).length hdrop t (buf.drop n) rfl
      refine ⟨u, Settles.succ ?_, ?_⟩
      · simp only [write, if_neg hne]
        exact Settles.bind_const hcall hsettles
      · have hboth := hfirst.append hrest
        rwa [List.take_append_drop] at hboth

/-- Each byte is transferred once and in order, and their number is returned. -/
def WriteComplete (host : Host) (fd : ℤ) (s : Remote Description) (buf : List Byte) : Prop :=
  ∃ t, Settles (fun fuel => write host fd fuel buf) s (.ok buf.length, t) ∧ Transferred s t buf

/-- A write is complete just if there is nothing to write. -/
theorem writeComplete_iff_nil (hflows : host.Flows) (fd : ℤ) (s : Remote Description)
    (buf : List Byte) : WriteComplete host fd s buf ↔ buf = [] := by
  obtain ⟨t, hsettles, htransferred⟩ := write_settles hflows fd s buf
  constructor
  · rintro ⟨u, hsettles', -⟩
    have hresult := congrArg Prod.fst (hsettles.unique hsettles')
    exact List.length_eq_zero_iff.mp (Except.ok.inj hresult).symm
  · rintro rfl
    exact ⟨t, hsettles, htransferred⟩

/-- `RemotePath.write_bytes`, for a path that `openAt` opens. -/
def writeBytes (host : Host) (openAt : Call Description ℤ) (close : ℤ → Call Description Unit)
    (fuel : ℕ) (data : List Byte) : Call Description ℕ := do
  let fd ← openAt
  let written ← attempt (write host fd fuel data)
  close fd
  match written with
  | .ok n => pure n
  | .error e => raise e

/-- A path that opens and closes is written, and zero returned. -/
theorem writeBytes_settles (hflows : host.Flows) {openAt : Call Description ℤ}
    {close : ℤ → Call Description Unit} {fd : ℤ} (hopen : openAt s = (.ok fd, t))
    (hclose : ∀ u, (close fd u).1 = .ok ()) (data : List Byte) :
    ∃ u, Settles (fun fuel => writeBytes host openAt close fuel data) s (.ok 0, u) := by
  obtain ⟨u, ⟨enough, hwrite⟩, -⟩ := write_settles hflows fd t data
  have hend : close fd u = (.ok (), (close fd u).2) := Prod.ext (hclose u) rfl
  refine ⟨(close fd u).2, enough, fun fuel hle => ?_⟩
  have hattempt : attempt (write host fd fuel data) t = (.ok (.ok 0), u) := by
    have hrun : write host fd fuel data t = (.ok 0, u) := hwrite fuel hle
    rw [attempt, hrun]
  dsimp only
  rw [writeBytes, bind_of_ok hopen, bind_of_ok hattempt, bind_of_ok hend]
  rfl

/-! ## Writing at a given offset -/

/-- Each byte of the buffer stands at its place behind the offset. -/
def StandsAt (contents : List Byte) (offset : ℤ) (buf : List Byte) : Prop :=
  ∀ i < buf.length, ∃ p : ℕ, (p : ℤ) = offset + i ∧ contents[p]? = buf[i]?

/-- If the call returns, the buffer stands at the given offset. -/
def PwriteComplete (host : Host) (fd : ℤ) (s : Remote Description) (buf : List Byte) (offset : ℤ) :
    Prop :=
  ∀ t, pwrite host fd buf offset s = (.ok (), t) → StandsAt t.kernel.contents offset buf

theorem symbol_minus_one_neg : (Symbol.new (-1)).cInt64 < 0 := by decide

/-- An offset that is negative as an `off_t` is refused. -/
theorem pwrite_of_neg {place : ℤ} (h : (Symbol.new place).cInt64 < 0) (fd : ℤ) (buf : List Byte)
    (s t : Remote Description) : pwrite host fd buf place s ≠ (.ok (), t) := by
  have hcall : symbolsPwrite host buf buf.length place s = (.ok (.new (-1)), { s with
      errno := einval
      kernel := { s.kernel with calls := s.kernel.calls + 1 } }) := by
    rw [symbolsPwrite]
    exact if_pos h
  rw [pwrite, bind_of_ok hcall, if_pos symbol_minus_one_neg]
  exact fun hrun => nomatch congrArg Prod.fst hrun

/-- The bytes that the call takes are in the file where the offset stands as an `off_t`. -/
theorem pwrite_of_flows (hflows : host.Flows) {place : ℤ} (h : 0 ≤ (Symbol.new place).cInt64)
    (fd : ℤ) (buf : List Byte) (s : Remote Description) :
    ∃ t, pwrite host fd buf place s = (.ok (), t) ∧
      t.kernel.contents = overwrite s.kernel.contents (Symbol.new place).cInt64.toNat
        (buf.take (host.most s.kernel.calls)) := by
  obtain ⟨houtcome, hpos, hlt⟩ := hflows.outcome s.kernel.calls
  have htake : buf.take (min (host.most s.kernel.calls) buf.length) =
      buf.take (host.most s.kernel.calls) := List.take_eq_take_min.symm
  have hlength : (buf.take (host.most s.kernel.calls)).length < 2 ^ 63 := by
    rw [List.length_take]
    omega
  let t : Remote Description := { s with
    kernel := { s.kernel with
      calls := s.kernel.calls + 1
      contents := overwrite s.kernel.contents (Symbol.new place).cInt64.toNat
        (buf.take (host.most s.kernel.calls)) } }
  have hcall : symbolsPwrite host buf buf.length place s =
      (.ok (.new (buf.take (host.most s.kernel.calls)).length), t) := by
    rw [symbolsPwrite, houtcome]
    dsimp only
    rw [if_neg (Int.not_lt.mpr h), htake]
  refine ⟨t, ?_, rfl⟩
  rw [pwrite, bind_of_ok hcall, Symbol.cInt64_new_natCast hlength, if_neg (by omega)]
  rfl

/-- A part of the buffer is written where the buffer is to stand. -/
theorem standsAt_overwrite {place : ℤ} (h : 0 ≤ place) (contents buf : List Byte) (n : ℕ) :
    StandsAt (overwrite contents place.toNat (buf.take n)) place buf ↔
      ∀ i < buf.length, n ≤ i → contents[place.toNat + i]? = buf[i]? := by
  have hwritten : ∀ i < n, i < buf.length →
      (overwrite contents place.toNat (buf.take n))[place.toNat + i]? = buf[i]? := by
    intro i hi hlt
    rw [getElem?_overwrite_of_lt (by rw [List.length_take]; omega), List.getElem?_take_of_lt hi]
  have hkept : ∀ i, n ≤ i →
      (overwrite contents place.toNat (buf.take n))[place.toNat + i]? =
        contents[place.toNat + i]? :=
    fun i hi => getElem?_overwrite_of_le ((List.length_take_le n buf).trans hi) _ _
  constructor
  · intro hstands i hi hle
    obtain ⟨p, hp, hbyte⟩ := hstands i hi
    obtain rfl : p = place.toNat + i := by omega
    rwa [hkept i hle] at hbyte
  · intro htail i hi
    refine ⟨place.toNat + i, by omega, ?_⟩
    rcases Nat.lt_or_ge i n with hlt | hle
    · exact hwritten i hlt hi
    · rw [hkept i hle, htail i hi hle]

/-- The buffer stands at the offset just if the bytes that the call does not take stand there
already, and the offset is one that an `off_t` holds. -/
theorem pwriteComplete_iff (hflows : host.Flows) (fd : ℤ) (s : Remote Description)
    (hlength : s.kernel.contents.length < 2 ^ 63) (buf : List Byte) (place : ℤ) :
    PwriteComplete host fd s buf place ↔
      buf = [] ∨ (Symbol.new place).cInt64 < 0 ∨
        (Symbol.new place).cInt64 = place ∧ ∀ i < buf.length, host.most s.kernel.calls ≤ i →
          s.kernel.contents[place.toNat + i]? = buf[i]? := by
  rcases eq_or_ne buf [] with rfl | hne
  · exact iff_of_true (fun t _ i hi => absurd hi (Nat.not_lt_zero i)) (.inl rfl)
  by_cases hneg : (Symbol.new place).cInt64 < 0
  · exact iff_of_true (fun t hrun => absurd hrun (pwrite_of_neg hneg fd buf s t)) (.inr (.inl hneg))
  obtain ⟨t, hrun, hcontents⟩ := pwrite_of_flows hflows (Int.not_lt.mp hneg) fd buf s
  have hcomplete : PwriteComplete host fd s buf place ↔ StandsAt t.kernel.contents place buf := by
    refine ⟨fun h => h t hrun, fun h u hrun' => ?_⟩
    obtain ⟨-, rfl⟩ := Prod.mk.inj (hrun.symm.trans hrun')
    exact h
  rw [hcomplete, hcontents]
  by_cases hplace : (Symbol.new place).cInt64 = place
  · rw [hplace, standsAt_overwrite (by omega)]
    simp [hne, hplace ▸ hneg]
  · refine iff_of_false (fun h => hplace ?_) (by simp [hne, hneg, hplace])
    -- the file does not reach an offset that an `off_t` does not hold
    have hlen : 0 < buf.length := List.length_pos_iff.mpr hne
    obtain ⟨p, hp, hbyte⟩ := h 0 hlen
    rw [List.getElem?_eq_getElem hlen] at hbyte
    have hlt := (List.getElem?_eq_some_iff.mp hbyte).1.trans_le (length_overwrite_le _ _ _)
    have hmost := (hflows.outcome s.kernel.calls).2.2
    have hbound := (Symbol.new place).cInt64_lt
    rw [List.length_take] at hlt
    exact Symbol.cInt64_new_of_nonneg (by omega) (by omega) (Int.not_lt.mp hneg)

/-! ## Both -/

/-- The number of bytes is returned just for the empty buffer; what stands in the file after a
`pwrite` that returns depends on the bytes that its one call leaves over. -/
theorem writes_complete_iff (hflows : host.Flows) :
    (∀ fd s buf, WriteComplete host fd s buf ↔ buf = []) ∧
    (∀ fd s t openAt close data, openAt s = (.ok fd, t) → (∀ u, (close fd u).1 = .ok ()) →
      ((∃ u, Settles (fun fuel => writeBytes host openAt close fuel data) s
        (.ok data.length, u)) ↔ data = [])) ∧
    (∀ fd s buf place, s.kernel.contents.length < 2 ^ 63 →
      (PwriteComplete host fd s buf place ↔
        buf = [] ∨ (Symbol.new place).cInt64 < 0 ∨
          (Symbol.new place).cInt64 = place ∧ ∀ i < buf.length, host.most s.kernel.calls ≤ i →
            s.kernel.contents[place.toNat + i]? = buf[i]?)) := by
  refine ⟨writeComplete_iff_nil hflows, fun fd s t openAt close data hopen hclose => ?_,
    fun fd s buf place hlength => pwriteComplete_iff hflows fd s hlength buf place⟩
  obtain ⟨u, hsettles⟩ := writeBytes_settles hflows hopen hclose data
  constructor
  · rintro ⟨v, hsettles'⟩
    have hresult := congrArg Prod.fst (hsettles.unique hsettles')
    exact List.length_eq_zero_iff.mp (Except.ok.inj hresult).symm
  · rintro rfl
    exact ⟨u, hsettles⟩

/-- A call that takes two bytes of three, the third being in the file. -/
theorem writes_complete_iff_twos :
    let host : Host := ⟨fun _ => .new 4096, fun _ => .moves 2⟩
    PwriteComplete host 4 ⟨fun _ => 0, 0, ⟨[0, 0, 3], 0, [], 0⟩⟩ [1, 2, 3] 0 := by
  intro host
  refine ((writes_complete_iff fun call => ⟨2, rfl, by decide, by decide⟩).2.2 4 _ _ _
    (by decide)).mpr (.inr (.inr ⟨by decide, fun i hi hle => ?_⟩))
  obtain rfl : i = 2 := Nat.le_antisymm (Nat.le_of_lt_succ hi) hle
  rfl

/-- One byte is written and zero returned; the third byte of three is lost. -/
theorem not_writes_complete :
    ¬ WriteComplete ⟨fun _ => .new 4096, fun _ => .moves 2⟩ 4 ⟨fun _ => 0, 0, ⟨[], 0, [], 0⟩⟩ [1] ∧
    ¬ PwriteComplete ⟨fun _ => .new 4096, fun _ => .moves 2⟩ 4 ⟨fun _ => 0, 0, ⟨[], 0, [], 0⟩⟩
      [1, 2, 3] 0 := by
  constructor
  · rintro ⟨t, ⟨enough, hrun⟩, -⟩
    have hzero : (write ⟨fun _ => .new 4096, fun _ => .moves 2⟩ 4 (enough + 2) [1]
        ⟨fun _ => 0, 0, ⟨[], 0, [], 0⟩⟩).1 = .ok 0 := rfl
    have hone := congrArg Prod.fst (hrun (enough + 2) (Nat.le_add_right _ _))
    exact absurd (Except.ok.inj (hzero.symm.trans hone)) (by decide)
  · intro h
    obtain ⟨p, hp, hbyte⟩ := h _ rfl 2 (by decide)
    obtain rfl : p = 2 := by omega
    exact absurd hbyte (by decide)

end RpcProject.Files.OpenFile
