/-
# Byte memory with words of eight bytes

Memory maps every address of the machine to a byte. A word is loaded from and
stored to eight consecutive addresses, least significant byte first, and
addresses wrap around at the end of the address space.

A store changes the eight bytes it covers and no others, and a load of the same
word gives the stored value back. Copying words one after the other changes
nothing outside the destination, and copies the source unless the two overlap.

A list of bytes is stored to and loaded from as many consecutive addresses. Stores
apart from each other can be exchanged, and where bytes have been stored, and which,
is seen from what a store does to all memories.
-/

import Mathlib.Algebra.Order.Ring.Nat
import Mathlib.Data.Nat.Notation
import Mathlib.Tactic.Common

namespace RpcProject.Foundations

/-- The addresses of the memory. -/
abbrev Address := BitVec 64

/-- What an address holds. -/
abbrev Byte := BitVec 8

/-- A memory of 64-bit addresses. -/
abbrev Memory := Address → Byte

namespace Memory

/-- Whether an address is one of the `n` addresses from `start` on. -/
def InRange (start : Address) (n : ℕ) (a : Address) : Prop := (a - start).toNat < n

instance (start : Address) (n : ℕ) (a : Address) : Decidable (InRange start n a) :=
  inferInstanceAs (Decidable (_ < _))

/-- The bytes of a word, the lowest first. -/
def byteAt (value : BitVec 64) (i : ℕ) : BitVec 8 := value.extractLsb' (8 * i) 8

/-- The word at an address. -/
def load64 (m : Memory) (a : Address) : BitVec 64 :=
  m (a + 7#64) ++ m (a + 6#64) ++ m (a + 5#64) ++ m (a + 4#64) ++
    m (a + 3#64) ++ m (a + 2#64) ++ m (a + 1#64) ++ m a

/-- The memory after a word is stored. -/
def store64 (m : Memory) (a : Address) (value : BitVec 64) : Memory := fun b =>
  if InRange a 8 b then byteAt value (b - a).toNat else m b

variable {m m' : Memory} {a b start : Address} {value : BitVec 64} {n : ℕ}

/-- A word is put together from its bytes. -/
theorem append_byteAt (value : BitVec 64) :
    (byteAt value 7 ++ byteAt value 6 ++ byteAt value 5 ++ byteAt value 4 ++
      byteAt value 3 ++ byteAt value 2 ++ byteAt value 1 ++ byteAt value 0 : BitVec 64) =
        value := by
  simp only [byteAt]
  ext i hi
  simp only [BitVec.getElem_append, BitVec.getElem_extractLsb']
  repeat' split
  all_goals (rw [BitVec.getLsbD_eq_getElem (by omega)]; congr 1; omega)

/-- A word depends on its eight bytes only. -/
theorem load64_congr (h : ∀ i < 8, m (a + BitVec.ofNat 64 i) = m' (a + BitVec.ofNat 64 i)) :
    load64 m a = load64 m' a := by
  have h0 := h 0 (by decide)
  rw [BitVec.add_zero] at h0
  rw [load64, load64, h 7 (by decide), h 6 (by decide), h 5 (by decide), h 4 (by decide),
    h 3 (by decide), h 2 (by decide), h 1 (by decide), h0]

/-- A word that is stored leaves the bytes outside of it. -/
theorem store64_of_not_inRange (h : ¬ InRange a 8 b) : store64 m a value b = m b := if_neg h

theorem store64_add {i : ℕ} (hi : i < 8) :
    store64 m a value (a + BitVec.ofNat 64 i) = byteAt value i := by
  have hsub : (a + BitVec.ofNat 64 i - a).toNat = i := by
    rw [BitVec.add_comm, BitVec.add_sub_cancel, BitVec.toNat_ofNat]
    omega
  rw [store64, if_pos (by rw [InRange, hsub]; exact hi), hsub]

/-- A load gives back what was stored. -/
theorem load64_store64 (m : Memory) (a : Address) (value : BitVec 64) :
    load64 (store64 m a value) a = value := by
  have h0 : store64 m a value (a + BitVec.ofNat 64 0) = byteAt value 0 := store64_add (by decide)
  rw [BitVec.add_zero] at h0
  rw [load64, store64_add (by decide), store64_add (by decide), store64_add (by decide),
    store64_add (by decide), store64_add (by decide), store64_add (by decide),
    store64_add (by decide), h0]
  exact append_byteAt value

/-- A load elsewhere does not see a store. -/
theorem load64_store64_of_not_inRange (h : ∀ i < 8, ¬ InRange a 8 (b + BitVec.ofNat 64 i)) :
    load64 (store64 m a value) b = load64 m b :=
  load64_congr fun i hi => store64_of_not_inRange (h i hi)

/-! ## Copying words -/

/-- The address of word `i` behind `start`. -/
def wordAddress (start : Address) (i : ℕ) : Address := start + BitVec.ofNat 64 (8 * i)

/-- Copy `n` words, one after the other and from the lowest address on. -/
def copyWords (m : Memory) (source target : Address) : ℕ → Memory
  | 0 => m
  | n + 1 =>
      let m' := copyWords m source target n
      store64 m' (wordAddress target n) (load64 m' (wordAddress source n))

variable {source target : Address}

/-- Copying changes nothing outside the target area. -/
theorem copyWords_of_not_inRange (h : ¬ InRange target (8 * n) b) :
    copyWords m source target n b = m b := by
  induction n with
  | zero => rfl
  | succ n ih =>
    have hsmaller : ¬ InRange target (8 * n) b := fun hin => h (by unfold InRange at hin ⊢; omega)
    rw [copyWords, store64_of_not_inRange, ih hsmaller]
    unfold InRange wordAddress at *
    bv_omega

/-- Copying to an area apart from the source copies every word. -/
theorem load64_copyWords {size i : ℕ} (hsize : 8 * size ≤ 2 ^ 64)
    (apart : ∀ b, InRange source (8 * size) b → ¬ InRange target (8 * size) b)
    (hn : n ≤ size) (hi : i < n) :
    load64 (copyWords m source target n) (wordAddress target i) =
      load64 m (wordAddress source i) := by
  induction n with
  | zero => exact absurd hi (Nat.not_lt_zero i)
  | succ n ih =>
    rw [copyWords]
    rcases Nat.lt_succ_iff_lt_or_eq.mp hi with hlt | rfl
    · rw [load64_store64_of_not_inRange, ih (Nat.le_of_succ_le hn) hlt]
      intro j hj
      unfold InRange wordAddress
      bv_omega
    · rw [load64_store64]
      refine load64_congr fun j hj => copyWords_of_not_inRange fun hin => ?_
      refine apart _ ?_ (Nat.lt_of_lt_of_le hin (by omega))
      unfold InRange wordAddress
      bv_omega

/-! ## Lists of bytes -/

/-- So many bytes from an address on. -/
def load (m : Memory) (a : Address) (n : ℕ) : List Byte :=
  (List.range n).map fun i => m (a + BitVec.ofNat 64 i)

/-- The memory after bytes are stored. -/
def store (m : Memory) (a : Address) (bytes : List Byte) : Memory := fun b =>
  bytes.getD (b - a).toNat (m b)

variable {bytes : List Byte} {offset : ℕ}

/-- The bytes that are stored are found in their places. -/
theorem store_add (m : Memory) (a : Address) {i : ℕ} (hi : i < bytes.length)
    (hlength : bytes.length ≤ 2 ^ 64) : store m a bytes (a + BitVec.ofNat 64 i) = bytes[i] := by
  have hsub : (a + BitVec.ofNat 64 i - a).toNat = i := by
    rw [BitVec.add_comm, BitVec.add_sub_cancel, BitVec.toNat_ofNat]
    omega
  rw [store, hsub, List.getD_eq_getElem?_getD, List.getElem?_eq_getElem hi, Option.getD_some]

/-- A part of the bytes that were stored. -/
theorem load_store_add (m : Memory) (a : Address) (hle : offset + n ≤ bytes.length)
    (hlength : bytes.length ≤ 2 ^ 64) :
    load (store m a bytes) (a + BitVec.ofNat 64 offset) n = (bytes.drop offset).take n := by
  apply List.ext_getElem
  · rw [load, List.length_map, List.length_range, List.length_take, List.length_drop]
    omega
  · intro i hi _
    rw [load, List.length_map, List.length_range] at hi
    have hadd : a + BitVec.ofNat 64 offset + BitVec.ofNat 64 i =
        a + BitVec.ofNat 64 (offset + i) := by
      rw [BitVec.add_assoc, BitVec.ofNat_add]
    simp only [load, List.getElem_map, List.getElem_range, List.getElem_take, List.getElem_drop,
      hadd]
    exact store_add m a (by omega) hlength

/-- All the bytes that were stored. -/
theorem load_store (m : Memory) (a : Address) (hlength : bytes.length ≤ 2 ^ 64) :
    load (store m a bytes) a bytes.length = bytes := by
  have h : load (store m a bytes) (a + BitVec.ofNat 64 0) bytes.length =
      (bytes.drop 0).take bytes.length := load_store_add m a (Nat.zero_add _).le hlength
  rwa [BitVec.add_zero, List.drop_zero, List.take_length] at h

theorem store_of_not_inRange (h : ¬ InRange a bytes.length b) : store m a bytes b = m b := by
  rw [store, List.getD_eq_getElem?_getD, List.getElem?_eq_none (Nat.le_of_not_lt h),
    Option.getD_none]

/-- What a store leaves at an address in its range is one of the bytes, whatever was there. -/
theorem store_of_inRange (h : InRange a bytes.length b) :
    store m a bytes b = bytes[(b - a).toNat] := by
  rw [store, List.getD_eq_getElem?_getD, List.getElem?_eq_getElem h, Option.getD_some]

/-! ## Stores apart from each other -/

variable {bytes' : List Byte}

/-- No address is in both ranges. -/
def Apart (a : Address) (n : ℕ) (b : Address) (n' : ℕ) : Prop :=
  ∀ c, InRange a n c → ¬ InRange b n' c

theorem Apart.symm {n' : ℕ} (h : Apart a n b n') : Apart b n' a n := fun c hb ha => h c ha hb

theorem inRange_add {i : ℕ} (hi : i < n) : InRange a n (a + BitVec.ofNat 64 i) := by
  rw [InRange, BitVec.add_comm, BitVec.add_sub_cancel, BitVec.toNat_ofNat]
  exact Nat.lt_of_le_of_lt (Nat.mod_le _ _) hi

/-- A load elsewhere does not see a store. -/
theorem load_store_of_apart (h : Apart b n a bytes.length) :
    load (store m a bytes) b n = load m b n := by
  apply List.map_congr_left
  intro i hi
  exact store_of_not_inRange (h _ (inRange_add (List.mem_range.mp hi)))

/-- Stores that are apart can be exchanged. -/
theorem store_comm (h : Apart a bytes.length b bytes'.length) :
    store (store m a bytes) b bytes' = store (store m b bytes') a bytes := by
  funext c
  by_cases hb : InRange b bytes'.length c
  · rw [store_of_inRange hb, store_of_not_inRange (h.symm c hb), store_of_inRange hb]
  · rw [store_of_not_inRange hb]
    by_cases ha : InRange a bytes.length c
    · rw [store_of_inRange ha, store_of_inRange ha]
    · rw [store_of_not_inRange ha, store_of_not_inRange ha, store_of_not_inRange hb]

/-! ## What a store does to all memories -/

/-- Where two stores do the same to all memories, an address is in both ranges or in neither. -/
theorem inRange_of_store_eq (h : ∀ m, store m a bytes = store m b bytes') {c : Address}
    (hin : InRange a bytes.length c) : InRange b bytes'.length c := by
  by_contra hout
  -- a memory that has another byte there
  have hsame := congrFun (h fun _ => bytes[(c - a).toNat] + 1) c
  rw [store_of_inRange hin, store_of_not_inRange hout] at hsame
  revert hsame
  generalize bytes[(c - a).toNat] = byte
  bv_omega

/-- Stores that do the same to all memories are the same store. -/
theorem store_injective (hne : bytes ≠ []) (hne' : bytes' ≠ []) (hlength : bytes.length < 2 ^ 63)
    (hlength' : bytes'.length < 2 ^ 63) (h : ∀ m, store m a bytes = store m b bytes') :
    a = b ∧ bytes = bytes' := by
  have hpos : 0 < bytes.length := List.length_pos_iff.mpr hne
  have hpos' : 0 < bytes'.length := List.length_pos_iff.mpr hne'
  have hto := fun c => inRange_of_store_eq h (c := c)
  have hfrom := fun c => inRange_of_store_eq (fun m => (h m).symm) (c := c)
  have hstart : ∀ (x : Address) n, 0 < n → InRange x n x := fun x n hn => by
    rw [InRange, BitVec.sub_self]
    exact hn
  have hab : a = b := by
    have h1 : (a - b).toNat < bytes'.length := hto a (hstart a _ hpos)
    have h2 : (b - a).toNat < bytes.length := hfrom b (hstart b _ hpos')
    apply BitVec.eq_of_toNat_eq
    rw [BitVec.toNat_sub] at h1 h2
    have := a.isLt
    have := b.isLt
    omega
  subst hab
  -- each list is as long as the other, since the address behind the shorter one tells
  have hle : ∀ {l l' : List Byte}, l.length < 2 ^ 63 → l'.length < 2 ^ 63 →
      (∀ c, InRange a l.length c → InRange a l'.length c) → l.length ≤ l'.length := by
    intro l l' hl hl' himp
    by_contra hlt
    have hin := himp _ (inRange_add (a := a) (Nat.lt_of_not_le hlt))
    rw [InRange, BitVec.add_comm, BitVec.add_sub_cancel, BitVec.toNat_ofNat] at hin
    omega
  have hsame : bytes.length = bytes'.length :=
    Nat.le_antisymm (hle hlength hlength' hto) (hle hlength' hlength hfrom)
  refine ⟨rfl, ?_⟩
  have hload := load_store (fun _ => 0) a (by omega : bytes.length ≤ 2 ^ 64)
  rw [h, hsame, load_store _ _ (by omega)] at hload
  exact hload.symm

end Memory

end RpcProject.Foundations
