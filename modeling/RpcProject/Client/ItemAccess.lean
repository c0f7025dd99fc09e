/-
# Items of remote memory

`getindex` and `setindex` read and write one item of the memory behind a symbol. The
size of an item is an attribute of the symbol and has to be one that `struct` has a format
for; the index is scaled by it, and added to the symbol in 64 bits.

Items of one size at different places never overlap, since the size divides the size of
the address space.
-/

import RpcProject.Client.Remote
import RpcProject.Foundations.Framing

namespace RpcProject.Client

open Foundations Foundations.Effect

/-! ## Exceptions -/

/-- The exceptions of the client's Python code that works on remote memory. -/
inductive Raised
  | key
  | struct
  | attribute (name : String)
  | assertion
  | zeroDivision
  | type
  | settingIvar (name className : List Char)
  | remote (error : RpcError)
  deriving DecidableEq, Repr

/-- An access to memory, which may raise. -/
abbrev Access (K α : Type) := Effect (Remote K) Raised α

/-- A remote call among other code, which passes its exceptions on. -/
def remotely {K α : Type} (m : Call K α) : Access K α := fun s =>
  match m s with
  | (.ok a, t) => (.ok a, t)
  | (.error e, t) => (.error (.remote e), t)

/-! ## Formats -/

/-- The formats of `struct` for unsigned integers. -/
inductive Format
  | B
  | H
  | I
  | Q
  deriving DecidableEq, Repr

/-- How many bytes a format takes. -/
def Format.size : Format → ℕ
  | B => 1
  | H => 2
  | I => 4
  | Q => 8

/-- `ADDRESS_SIZE_TO_STRUCT_FORMAT` -/
def addressSizeToStructFormat (size : ℤ) : Except Raised Format :=
  if size = 1 then .ok .B
  else if size = 2 then .ok .H
  else if size = 4 then .ok .I
  else if size = 8 then .ok .Q
  else .error .key

/-- `struct.pack`, least significant byte first. -/
def Format.pack (fmt : Format) (value : ℤ) : Except Raised (List Byte) :=
  if 0 ≤ value ∧ value < 256 ^ fmt.size then .ok ((toLE fmt.size value.toNat).map UInt8.toBitVec)
  else .error .struct

/-- `struct.unpack` -/
def Format.unpack (fmt : Format) (data : List Byte) : Except Raised ℤ :=
  if data.length = fmt.size then .ok (ofLE (data.map UInt8.ofBitVec)) else .error .struct

/-! ## Items -/

namespace Symbol

/-- `self + offset` -/
def plus (s : Symbol) (offset : ℤ) : Symbol := .new (s.int + offset)

variable {K : Type}

/-- `self.peek(count, offset)` -/
def peek (s : Symbol) (count : ℕ) (offset : ℤ) : Access K (List Byte) :=
  remotely (Client.peek (s.plus offset) count)

/-- `self.poke(buf, offset)` -/
def poke (s : Symbol) (buf : List Byte) (offset : ℤ) : Access K Unit :=
  remotely (Client.poke (s.plus offset) buf)

/-- The item under an index, read as a number of its size. -/
def readItem (s : Symbol) (itemSize index : ℤ) : Access K Symbol := do
  let fmt ← ask fun _ => addressSizeToStructFormat itemSize
  let data ← s.peek itemSize.toNat (index * itemSize)
  let value ← ask fun _ => fmt.unpack data
  return .new value

/-- `getindex(index, *indices)`. The symbols read on the way have items of eight bytes. -/
def getindex (s : Symbol) (itemSize index : ℤ) : List ℤ → Access K Symbol
  | [] => s.readItem itemSize index
  | next :: indices => do
      let newSymbol ← s.readItem itemSize index
      newSymbol.getindex 8 next indices

/-- `setindex(index, value)` -/
def setindex (s : Symbol) (itemSize index value : ℤ) : Access K Unit := do
  let fmt ← ask fun _ => addressSizeToStructFormat itemSize
  let buf ← ask fun _ => fmt.pack value
  s.poke buf (index * itemSize)

end Symbol

/-! ## Packing -/

variable {fmt : Format} {size value : ℤ} {buf : List Byte}

theorem addressSizeToStructFormat_eq_ok_iff :
    addressSizeToStructFormat size = .ok fmt ↔ size = fmt.size := by
  constructor
  · rw [addressSizeToStructFormat]
    intro h
    repeat' split at h
    all_goals cases h
    all_goals assumption
  · rintro rfl
    cases fmt <;> rfl

/-- A size has a format exactly if it is one of the four. -/
theorem exists_format_iff : (∃ fmt, addressSizeToStructFormat size = .ok fmt) ↔
    size = 1 ∨ size = 2 ∨ size = 4 ∨ size = 8 := by
  simp only [addressSizeToStructFormat_eq_ok_iff]
  constructor
  · rintro ⟨_ | _ | _ | _, rfl⟩ <;> simp [Format.size]
  · rintro (rfl | rfl | rfl | rfl)
    · exact ⟨.B, rfl⟩
    · exact ⟨.H, rfl⟩
    · exact ⟨.I, rfl⟩
    · exact ⟨.Q, rfl⟩

/-- A number in range is packed as its bytes. -/
theorem Format.pack_of_fits (hnonneg : 0 ≤ value) (hlt : value < 256 ^ fmt.size) :
    fmt.pack value = .ok ((toLE fmt.size value.toNat).map UInt8.toBitVec) := if_pos ⟨hnonneg, hlt⟩

/-- Which numbers are packed, and as what. -/
theorem Format.pack_eq_ok_iff : fmt.pack value = .ok buf ↔
    (0 ≤ value ∧ value < 256 ^ fmt.size) ∧ buf =
    (toLE fmt.size value.toNat).map UInt8.toBitVec := by
  rw [Format.pack]
  split
  · next h => simp [h, eq_comm]
  · next h => simp [h]

theorem Format.length_of_pack (h : fmt.pack value = .ok buf) : buf.length = fmt.size := by
  obtain ⟨-, rfl⟩ := pack_eq_ok_iff.mp h
  rw [List.length_map, toLE_length]

/-- As many bytes as the format takes are unpacked. -/
theorem Format.unpack_of_length (h : buf.length = fmt.size) :
    fmt.unpack buf = .ok (ofLE (buf.map UInt8.ofBitVec)) := if_pos h

/-- What is unpacked is what was packed. -/
theorem Format.unpack_of_pack (h : fmt.pack value = .ok buf) : fmt.unpack buf = .ok value := by
  rw [unpack_of_length (length_of_pack h)]
  obtain ⟨⟨hnonneg, hlt⟩, rfl⟩ := pack_eq_ok_iff.mp h
  have hsame : ((toLE fmt.size value.toNat).map UInt8.toBitVec).map UInt8.ofBitVec =
      toLE fmt.size value.toNat := by
    rw [List.map_map]
    exact List.map_id _
  have hfits : value.toNat < 256 ^ fmt.size := by
    rw [Int.toNat_lt hnonneg]
    exact_mod_cast hlt
  rw [hsame, ofLE_toLE hfits, Int.toNat_of_nonneg hnonneg]

theorem Format.size_pos (fmt : Format) : 0 < fmt.size := by cases fmt <;> exact Nat.succ_pos _

theorem Format.size_injective {fmt fmt' : Format} (h : fmt.size = fmt'.size) : fmt = fmt' := by
  cases fmt <;> cases fmt' <;> first | rfl | cases h

theorem Format.size_le (fmt : Format) : fmt.size ≤ 8 := by cases fmt <;> decide

/-! ## Single accesses -/

namespace Symbol

variable {K : Type} {s : Symbol} {index index' offset : ℤ} {r : Remote K}

/-- The place of an item lies behind address zero and before the end of memory. -/
def InReach (s : Symbol) (itemSize index : ℤ) : Prop :=
  0 < s.int + index * itemSize ∧ s.int + index * itemSize < 2 ^ 64

theorem int_plus (hnonneg : 0 ≤ s.int + offset) (hlt : s.int + offset < 2 ^ 64) :
    (s.plus offset).int = s.int + offset := by
  rw [plus, new, int, BitVec.toNat_ofInt]
  omega

theorem InReach.int_plus (h : s.InReach size index) :
    (s.plus (index * size)).int = s.int + index * size := Symbol.int_plus h.1.le h.2

theorem InReach.int_ne (h : s.InReach size index) : (s.plus (index * size)).int ≠ 0 := by
  rw [h.int_plus]
  exact h.1.ne'

/-- The address of an item. -/
def itemAddress (s : Symbol) (itemSize index : ℤ) : Address := (s.plus (index * itemSize)).bits

/-- A write in reach stores the bytes of the value. -/
theorem setindex_of_pack (h : s.InReach fmt.size index) (hpack : fmt.pack value = .ok buf) :
    s.setindex fmt.size index value r =
      (.ok (), { r with memory := r.memory.store (s.itemAddress fmt.size index) buf }) := by
  rw [setindex, ask_bind_of_ok (addressSizeToStructFormat_eq_ok_iff.mpr rfl), ask_bind_of_ok hpack,
    poke, remotely, poke_of_ne h.int_ne]
  rfl

/-- The symbol of the bytes at the place of an item. -/
def itemAt (memory : Memory) (s : Symbol) (itemSize index : ℤ) : Symbol :=
  .new (ofLE ((memory.load (s.itemAddress itemSize index) itemSize.toNat).map UInt8.ofBitVec))

theorem length_load (memory : Memory) (a : Address) (n : ℕ) : (memory.load a n).length = n := by
  rw [Memory.load, List.length_map, List.length_range]

theorem getindex_of_inReach (h : s.InReach fmt.size index) :
    s.getindex fmt.size index [] r = (.ok (itemAt r.memory s fmt.size index), r) := by
  have hpeek : s.peek (fmt.size : ℤ).toNat (index * fmt.size) r =
      (.ok (r.memory.load (s.itemAddress fmt.size index) fmt.size), r) := by
    rw [peek, remotely, peek_of_ne h.int_ne]
    rfl
  rw [getindex, readItem, ask_bind_of_ok (addressSizeToStructFormat_eq_ok_iff.mpr rfl),
    bind_of_ok hpeek, ask_bind_of_ok (Format.unpack_of_length (length_load _ _ _))]
  rfl

/-- Items of one size at different places do not overlap. -/
theorem apart_of_ne (h : s.InReach fmt.size index) (h' : s.InReach fmt.size index')
    (hne : index ≠ index') :
    Memory.Apart (s.itemAddress fmt.size index) fmt.size
      (s.itemAddress fmt.size index') fmt.size := by
  intro c hc hc'
  have hat := h.int_plus
  have hat' := h'.int_plus
  have hpos := h.1
  have hpos' := h'.1
  have hlt := h.2
  have hlt' := h'.2
  rw [Memory.InRange, BitVec.toNat_sub] at hc hc'
  unfold itemAddress at hc hc'
  rw [int] at hat hat'
  have hc_lt := c.isLt
  -- the size divides the size of the address space, so that places differ by whole items
  cases fmt <;> simp only [Format.size, Nat.cast_one, Nat.cast_ofNat] at * <;> omega

/-! ## Two accesses -/

/-- A value that was written is read back. -/
theorem itemAt_store (h : fmt.pack value = .ok buf) (memory : Memory) :
    itemAt (memory.store (s.itemAddress fmt.size index) buf) s fmt.size index = .new value := by
  have hlength := Format.length_of_pack h
  have hload : (memory.store (s.itemAddress fmt.size index) buf).load (s.itemAddress fmt.size index)
      fmt.size = buf := by
    rw [← hlength]
    apply Memory.load_store
    have := fmt.size_le
    omega
  have hvalue := Format.unpack_of_pack h
  rw [Format.unpack_of_length hlength, Except.ok.injEq] at hvalue
  rw [itemAt, Int.toNat_natCast, hload, hvalue]

theorem itemAt_store_of_ne (h : s.InReach fmt.size index) (h' : s.InReach fmt.size index')
    (hne : index ≠ index') (hpack : fmt.pack value = .ok buf) (memory : Memory) :
    itemAt (memory.store (s.itemAddress fmt.size index) buf) s fmt.size index' =
      itemAt memory s fmt.size index' := by
  rw [itemAt, itemAt, Int.toNat_natCast, Memory.load_store_of_apart]
  rw [Format.length_of_pack hpack]
  exact apart_of_ne h' h hne.symm

/-- Writes of two items can be exchanged. -/
theorem setindex_independent {value' : ℤ} {buf' : List Byte} (h : s.InReach fmt.size index)
    (h' : s.InReach fmt.size index') (hne : index ≠ index') (hpack : fmt.pack value = .ok buf)
    (hpack' : fmt.pack value' = .ok buf') :
    Independent (s.setindex fmt.size index value : Access K Unit)
      (s.setindex fmt.size index' value') := by
  refine independent_of_total (fun _ => setindex_of_pack h hpack)
    (fun _ => setindex_of_pack h' hpack') (fun _ => rfl) (fun _ => rfl) fun r => ?_
  rw [Memory.store_comm]
  rw [Format.length_of_pack hpack, Format.length_of_pack hpack']
  exact apart_of_ne h h' hne

theorem setindex_getindex_independent (h : s.InReach fmt.size index)
    (h' : s.InReach fmt.size index')
    (hne : index ≠ index') (hpack : fmt.pack value = .ok buf) :
    Independent (s.setindex fmt.size index value : Access K Unit) (s.getindex fmt.size index' []) :=
  independent_of_total (fun _ => setindex_of_pack h hpack) (fun _ => getindex_of_inReach h')
    (fun _ => rfl) (fun r => itemAt_store_of_ne h h' hne hpack r.memory) fun _ => rfl

theorem getindex_independent (h : s.InReach fmt.size index) (h' : s.InReach fmt.size index') :
    Independent (s.getindex fmt.size index [] : Access K Symbol) (s.getindex fmt.size index' []) :=
  independent_of_total (fun _ => getindex_of_inReach h) (fun _ => getindex_of_inReach h')
    (fun _ => rfl) (fun _ => rfl) fun _ => rfl

/-- A number that fits is a symbol's own. -/
theorem int_new (hnonneg : 0 ≤ value) (hlt : value < 256 ^ fmt.size) : (new value).int = value := by
  rw [new, int, BitVec.toNat_ofInt]
  cases fmt <;> simp only [Format.size] at hlt <;> omega

/-- **Items.** An item that is written is read back, no byte outside it changes, and accesses
to two items of one size can be exchanged. -/
theorem item_laws (s : Symbol) {itemSize index value : ℤ}
    (hsize : itemSize = 1 ∨ itemSize = 2 ∨ itemSize = 4 ∨ itemSize = 8)
    (hreach : s.InReach itemSize index) (hvalue : 0 ≤ value ∧ value < 256 ^ itemSize.toNat) :
    (∀ r : Remote K, ∃ r', s.setindex itemSize index value r = (.ok (), r') ∧
      (∃ item, s.getindex itemSize index [] r' = (.ok item, r') ∧ item.int = value) ∧
      ∀ a, ¬ Memory.InRange (s.itemAddress itemSize index) itemSize.toNat a →
        r'.memory a = r.memory a) ∧
    ∀ index', s.InReach itemSize index' → index ≠ index' →
      (∀ value', 0 ≤ value' ∧ value' < 256 ^ itemSize.toNat →
        Independent (s.setindex itemSize index value : Access K Unit)
          (s.setindex itemSize index' value')) ∧
      Independent (s.setindex itemSize index value : Access K Unit)
        (s.getindex itemSize index' []) ∧
      Independent (s.getindex itemSize index [] : Access K Symbol)
        (s.getindex itemSize index' []) := by
  obtain ⟨fmt, hfmt⟩ := exists_format_iff.mpr hsize
  obtain rfl := addressSizeToStructFormat_eq_ok_iff.mp hfmt
  rw [Int.toNat_natCast] at hvalue
  have hpack := Format.pack_of_fits hvalue.1 hvalue.2
  refine ⟨fun r => ⟨_, setindex_of_pack hreach hpack, ⟨_, getindex_of_inReach hreach, ?_⟩, ?_⟩, ?_⟩
  · rw [itemAt_store hpack, int_new hvalue.1 hvalue.2]
  · intro a ha
    apply Memory.store_of_not_inRange
    rwa [Format.length_of_pack hpack]
  · intro index' hreach' hne
    refine ⟨fun value' hvalue' => ?_, setindex_getindex_independent hreach hreach' hne hpack,
      getindex_independent hreach hreach'⟩
    exact setindex_independent hreach hreach' hne hpack (Format.pack_of_fits hvalue'.1 hvalue'.2)

/-- A negative index of items of four bytes. -/
theorem item_laws_negative :
    (∀ r : Remote Unit, ∃ r', (⟨16⟩ : Symbol).setindex 4 (-2) 7 r = (.ok (), r') ∧
      (∃ item, (⟨16⟩ : Symbol).getindex 4 (-2) [] r' = (.ok item, r') ∧ item.int = 7) ∧
      ∀ a, ¬ Memory.InRange ((⟨16⟩ : Symbol).itemAddress 4 (-2)) 4 a → r'.memory a = r.memory a) ∧
    ∀ index', (⟨16⟩ : Symbol).InReach 4 index' → -2 ≠ index' →
      (∀ value', 0 ≤ value' ∧ value' < 256 ^ 4 →
        Independent ((⟨16⟩ : Symbol).setindex 4 (-2) 7 : Access Unit Unit)
          ((⟨16⟩ : Symbol).setindex 4 index' value')) ∧
      Independent ((⟨16⟩ : Symbol).setindex 4 (-2) 7 : Access Unit Unit)
        ((⟨16⟩ : Symbol).getindex 4 index' []) ∧
      Independent ((⟨16⟩ : Symbol).getindex 4 (-2) [] : Access Unit Symbol)
        ((⟨16⟩ : Symbol).getindex 4 index' []) :=
  item_laws ⟨16⟩ (by decide) (by unfold InReach; decide) (by decide)

end Symbol

end RpcProject.Client
