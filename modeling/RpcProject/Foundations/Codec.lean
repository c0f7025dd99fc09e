/-
# Codecs of message types

A codec says how a value travels in the fields of a message: which field numbers
it owns, how the value is written, which fields the receiver accepts, and how the
receiver reads the value off a message. What is written is read back up to `norm`,
which records what the format or one of the two sides drops.

A writer may put the fields of different numbers in any order. A reader that looks at
each number by itself does not see the difference.

Codecs are put together from scalars, repeated fields, nested messages and unions.
A product writes one part behind the other and reads each part off the fields that
it owns, so its parts may own no common number.
-/

import Mathlib.Data.List.TakeWhile
import RpcProject.Foundations.Wire

namespace RpcProject.Foundations.Wire

/-- How values of a type travel in a message. -/
structure Codec (α : Type) where
  numbers : List ℕ
  write : α → List Field
  accepts : Field → Bool
  read : List Field → α
  /-- what the receiver makes of a value -/
  norm : α → α
  /-- values that the format can carry -/
  Fits : α → Prop
  number_mem : ∀ a, ∀ f ∈ write a, f.number ∈ numbers
  fits_write : ∀ a, Fits a → ∀ f ∈ write a, f.Fits
  accepts_write : ∀ a, Fits a → ∀ f ∈ write a, accepts f = true
  accepts_of_not_mem : ∀ f, f.number ∉ numbers → accepts f = true
  read_own : ∀ fields, read (fields.filter fun f => f.number ∈ numbers) = read fields
  read_write : ∀ a, Fits a → read (write a) = norm a

namespace Codec

variable {α β : Type}

/-- The bytes of a message. -/
def pack (c : Codec α) (a : α) : Bytes := writeFields (c.write a)

/-- The message in some bytes, if the receiver takes them. -/
def unpack (c : Codec α) (bytes : Bytes) : Option α :=
  ((scan bytes).filter fun fields => fields.all c.accepts).map c.read

/-- The fields of a packed message are found again. -/
theorem scan_pack (c : Codec α) {a : α} (fits : c.Fits a) : scan (c.pack a) = some (c.write a) :=
  scan_writeFields (c.fits_write a fits)

theorem all_accepts_write (c : Codec α) {a : α} (fits : c.Fits a) :
    (c.write a).all c.accepts = true :=
  List.all_eq_true.mpr (c.accepts_write a fits)

/-- **Round trip.** The receiver of a packed value reads what is left of it. -/
theorem unpack_pack (c : Codec α) {a : α} (fits : c.Fits a) :
    c.unpack (c.pack a) = some (c.norm a) := by
  rw [unpack, c.scan_pack fits, Option.filter_some, if_pos (c.all_accepts_write fits),
    Option.map_some, c.read_write a fits]

/-- What is read depends on the message's own fields. -/
theorem read_filter_of_subset (c : Codec α) {keep : Field → Bool} {fields : List Field}
    (hkeep : ∀ f, f.number ∈ c.numbers → keep f = true) :
    c.read (fields.filter keep) = c.read fields := by
  rw [← c.read_own (fields.filter keep), ← c.read_own fields, List.filter_filter]
  congr 1
  apply List.filter_congr
  intro f _
  by_cases hmem : f.number ∈ c.numbers
  · simp [hmem, hkeep f hmem]
  · simp [hmem]

/-! ## Nothing, a product, a renaming -/

/-- The message type without fields. -/
def unit : Codec Unit where
  numbers := []
  write _ := []
  accepts _ := true
  read _ := ()
  norm _ := ()
  Fits _ := True
  number_mem := by simp
  fits_write := by simp
  accepts_write := by simp
  accepts_of_not_mem := by simp
  read_own _ := rfl
  read_write _ _ := rfl

/-- All fields that are written are the message's own. -/
theorem filter_write (c : Codec α) (a : α) :
    (c.write a).filter (fun f => f.number ∈ c.numbers) = c.write a :=
  List.filter_eq_self.mpr fun f hf => by simpa using c.number_mem a f hf

theorem filter_write_of_apart {c : Codec α} {d : Codec β} (apart : ∀ n ∈ d.numbers, n ∉ c.numbers)
    (b : β) : (d.write b).filter (fun f => f.number ∈ c.numbers) = [] := by
  rw [List.filter_eq_nil_iff]
  intro f hf hmem
  exact apart f.number (d.number_mem b f hf) (by simpa using hmem)

/-- Two codecs side by side. -/
def prod (c : Codec α) (d : Codec β) (apart : ∀ n ∈ c.numbers, n ∉ d.numbers := by decide) :
    Codec (α × β) where
  numbers := c.numbers ++ d.numbers
  write a := c.write a.1 ++ d.write a.2
  accepts f := c.accepts f && d.accepts f
  read fields := (c.read fields, d.read fields)
  norm a := (c.norm a.1, d.norm a.2)
  Fits a := c.Fits a.1 ∧ d.Fits a.2
  number_mem := by
    intro a f hf
    rw [List.mem_append] at hf ⊢
    exact hf.imp (c.number_mem a.1 f) (d.number_mem a.2 f)
  fits_write := by
    intro a fits f hf
    rcases List.mem_append.mp hf with hf | hf
    · exact c.fits_write a.1 fits.1 f hf
    · exact d.fits_write a.2 fits.2 f hf
  accepts_write := by
    intro a fits f hf
    rw [Bool.and_eq_true]
    rcases List.mem_append.mp hf with hf | hf
    · exact ⟨c.accepts_write a.1 fits.1 f hf,
        d.accepts_of_not_mem f (apart _ (c.number_mem a.1 f hf))⟩
    · exact ⟨c.accepts_of_not_mem f fun hmem => apart _ hmem (d.number_mem a.2 f hf),
        d.accepts_write a.2 fits.2 f hf⟩
  accepts_of_not_mem := by
    intro f hf
    rw [List.mem_append, not_or] at hf
    rw [Bool.and_eq_true]
    exact ⟨c.accepts_of_not_mem f hf.1, d.accepts_of_not_mem f hf.2⟩
  read_own := by
    intro fields
    rw [Prod.mk.injEq]
    constructor
    · exact c.read_filter_of_subset fun f hf => by simp [hf]
    · exact d.read_filter_of_subset fun f hf => by simp [hf]
  read_write := by
    intro a fits
    have hfirst : c.read (c.write a.1 ++ d.write a.2) = c.read (c.write a.1) := by
      rw [← c.read_own, List.filter_append, filter_write_of_apart (fun n hd hc => apart n hc hd),
        List.append_nil, c.filter_write]
    have hsecond : d.read (c.write a.1 ++ d.write a.2) = d.read (d.write a.2) := by
      rw [← d.read_own, List.filter_append, filter_write_of_apart apart, List.nil_append,
        d.filter_write]
    rw [hfirst, hsecond, c.read_write a.1 fits.1, d.read_write a.2 fits.2]

/-- A codec for a type with the same values under other names. -/
def rename (c : Codec α) (e : β ≃ α) : Codec β where
  numbers := c.numbers
  write b := c.write (e b)
  accepts := c.accepts
  read fields := e.symm (c.read fields)
  norm b := e.symm (c.norm (e b))
  Fits b := c.Fits (e b)
  number_mem b := c.number_mem (e b)
  fits_write b := c.fits_write (e b)
  accepts_write b := c.accepts_write (e b)
  accepts_of_not_mem := c.accepts_of_not_mem
  read_own fields := by rw [c.read_own]
  read_write b fits := by rw [c.read_write (e b) fits]

end Codec

/-! ## Scalars -/

/-- How a value travels in the value of one field. -/
structure Scalar (α : Type) where
  write : α → WireValue
  accepts : WireValue → Bool
  read : WireValue → Option α
  norm : α → α
  Fits : α → Prop
  fits_write : ∀ a, Fits a → (write a).Fits
  accepts_write : ∀ a, Fits a → accepts (write a) = true
  read_write : ∀ a, Fits a → read (write a) = some (norm a)

namespace Scalar

variable {α : Type}

/-- A number. A strict receiver rejects a field of the wrong wire type, another
one skips it. -/
def number (strict : Bool) (toNat : α → ℕ) (ofNat : ℕ → α) (small : ∀ a, toNat a < 2 ^ 64)
    (ofNat_toNat : ∀ a, ofNat (toNat a) = a) : Scalar α where
  write a := .varint (toNat a)
  accepts value := !strict || match value with
    | .varint _ => true
    | _ => false
  read
    | .varint n => some (ofNat n)
    | _ => none
  norm a := a
  Fits _ := True
  fits_write a _ := small a
  accepts_write a _ := by simp
  read_write a _ := congrArg some (ofNat_toNat a)

/-- Unsigned integers of 64 bits. -/
def uint64 (strict : Bool) : Scalar UInt64 :=
  number strict UInt64.toNat UInt64.ofNat UInt64.toNat_lt fun _ => UInt64.ofNat_toNat

/-- Unsigned integers of 32 bits. -/
def uint32 (strict : Bool) : Scalar UInt32 :=
  number strict UInt32.toNat UInt32.ofNat (fun n => lt_trans n.toNat_lt (by norm_num))
    fun _ => UInt32.ofNat_toNat

/-- A signed number, which travels sign-extended. Its low 32 bits are read. -/
def int32 (strict : Bool) : Scalar Int32 :=
  number strict (fun n => n.toInt64.toUInt64.toNat) (fun n => (UInt64.ofNat n).toInt64.toInt32)
    (fun n => n.toInt64.toUInt64.toNat_lt) fun n => by
      rw [UInt64.ofNat_toNat, Int64.toInt64_toUInt64, Int32.toInt32_toInt64]

/-- A truth value, which is read from any wire type. -/
def boolean : Scalar Bool where
  write b := .varint b.toNat
  accepts _ := true
  read value := some value.truth
  norm b := b
  Fits _ := True
  fits_write b _ := lt_of_le_of_lt (Bool.toNat_le b) (by norm_num)
  accepts_write _ _ := rfl
  read_write b _ := by cases b <;> rfl

/-- The bits of a floating-point number. -/
def double (strict : Bool) : Scalar UInt64 where
  write n := .fixed64 (toLE 8 n.toNat)
  accepts value := !strict || match value with
    | .fixed64 _ => true
    | _ => false
  read
    | .fixed64 bytes => some (UInt64.ofNat (ofLE bytes))
    | _ => none
  norm n := n
  Fits _ := True
  fits_write n _ := toLE_length _ _
  accepts_write n _ := by simp
  read_write n _ := by
    show some (UInt64.ofNat (ofLE (toLE 8 n.toNat))) = some n
    rw [ofLE_toLE (lt_of_lt_of_le n.toNat_lt (by norm_num)), UInt64.ofNat_toNat]

/-- A byte string, of which the receiver looks at a part and accepts it by a test. -/
def delimited (strict : Bool) (test : Bytes → Bool) (seen : Bytes → Bytes) : Scalar Bytes where
  write bytes := .delimited bytes
  accepts
    | .delimited bytes => test bytes
    | _ => !strict
  read
    | .delimited bytes => some (seen bytes)
    | _ => none
  norm := seen
  Fits bytes := bytes.length ≤ maxDelimited ∧ test bytes = true
  fits_write _ fits := fits.1
  accepts_write _ fits := fits.2
  read_write _ _ := rfl

/-- Bytes, all of which are seen. -/
def bytes (strict : Bool) : Scalar Bytes := delimited strict (fun _ => true) id

/-- The bytes of a text in front of its first zero. -/
def cString (bytes : Bytes) : Bytes := bytes.takeWhile (· ≠ 0)

/-- A nested message. -/
def message (strict : Bool) (c : Codec α) : Scalar α where
  write a := .delimited (c.pack a)
  accepts
    | .delimited bytes => (c.unpack bytes).isSome
    | _ => !strict
  read
    | .delimited bytes => c.unpack bytes
    | _ => none
  norm := c.norm
  Fits a := c.Fits a ∧ (c.pack a).length ≤ maxDelimited
  fits_write _ fits := fits.2
  accepts_write a fits := by
    show (c.unpack (c.pack a)).isSome = true
    rw [c.unpack_pack fits.1, Option.isSome_some]
  read_write a fits := c.unpack_pack fits.1

end Scalar

/-! ## Unions -/

/-- How a value travels in one field, whose number says which member it is. -/
structure Union (α : Type) where
  numbers : List ℕ
  write : α → Field
  accepts : Field → Bool
  read : Field → Option α
  norm : α → α
  Fits : α → Prop
  number_mem : ∀ a, (write a).number ∈ numbers
  fits_write : ∀ a, Fits a → (write a).Fits
  accepts_write : ∀ a, Fits a → accepts (write a) = true
  accepts_of_not_mem : ∀ f, f.number ∉ numbers → accepts f = true
  read_of_not_mem : ∀ f, f.number ∉ numbers → read f = none
  read_write : ∀ a, Fits a → read (write a) = some (norm a)

namespace Union

variable {α β : Type}

/-- The union with one member. -/
def member (number : ℕ) (s : Scalar α) (hnumber : 0 < number ∧ number < 2 ^ 29 := by decide) :
    Union α where
  numbers := [number]
  write a := ⟨number, s.write a⟩
  accepts f := if f.number = number then s.accepts f.value else true
  read f := if f.number = number then s.read f.value else none
  norm := s.norm
  Fits := s.Fits
  number_mem a := List.mem_singleton_self _
  fits_write a fits := ⟨hnumber.1, hnumber.2, s.fits_write a fits⟩
  accepts_write a fits := by rw [if_pos rfl, s.accepts_write a fits]
  accepts_of_not_mem f hf := if_neg (by simpa using hf)
  read_of_not_mem f hf := if_neg (by simpa using hf)
  read_write a fits := by rw [if_pos rfl, s.read_write a fits]

/-- The members of two unions. -/
def or (u : Union α) (v : Union β) (apart : ∀ n ∈ u.numbers, n ∉ v.numbers := by decide) :
    Union (α ⊕ β) where
  numbers := u.numbers ++ v.numbers
  write := Sum.elim u.write v.write
  accepts f := u.accepts f && v.accepts f
  read f := ((u.read f).map Sum.inl).or ((v.read f).map Sum.inr)
  norm := Sum.map u.norm v.norm
  Fits := Sum.elim u.Fits v.Fits
  number_mem := by
    rintro (a | b)
    · exact List.mem_append_left _ (u.number_mem a)
    · exact List.mem_append_right _ (v.number_mem b)
  fits_write := by
    rintro (a | b) fits
    · exact u.fits_write a fits
    · exact v.fits_write b fits
  accepts_write := by
    rintro (a | b) fits
    · rw [Bool.and_eq_true]
      exact ⟨u.accepts_write a fits, v.accepts_of_not_mem _ (apart _ (u.number_mem a))⟩
    · rw [Bool.and_eq_true]
      exact ⟨u.accepts_of_not_mem _ fun hmem => apart _ hmem (v.number_mem b),
        v.accepts_write b fits⟩
  accepts_of_not_mem := by
    intro f hf
    rw [List.mem_append, not_or] at hf
    rw [Bool.and_eq_true]
    exact ⟨u.accepts_of_not_mem f hf.1, v.accepts_of_not_mem f hf.2⟩
  read_of_not_mem := by
    intro f hf
    rw [List.mem_append, not_or] at hf
    rw [u.read_of_not_mem f hf.1, v.read_of_not_mem f hf.2]
    rfl
  read_write := by
    rintro (a | b) fits
    · rw [Sum.elim_inl, u.read_write a fits]
      rfl
    · rw [Sum.elim_inr, u.read_of_not_mem _ fun hmem => apart _ hmem (v.number_mem b),
        v.read_write b fits]
      rfl

/-- A union under other names. -/
def rename (u : Union α) (e : β ≃ α) : Union β where
  numbers := u.numbers
  write b := u.write (e b)
  accepts := u.accepts
  read f := (u.read f).map e.symm
  norm b := e.symm (u.norm (e b))
  Fits b := u.Fits (e b)
  number_mem b := u.number_mem (e b)
  fits_write b := u.fits_write (e b)
  accepts_write b := u.accepts_write (e b)
  accepts_of_not_mem := u.accepts_of_not_mem
  read_of_not_mem f hf := by rw [u.read_of_not_mem f hf, Option.map_none]
  read_write b fits := by rw [u.read_write (e b) fits, Option.map_some]

theorem filterMap_read_own (u : Union α) (fields : List Field) :
    (fields.filter fun f => f.number ∈ u.numbers).filterMap u.read = fields.filterMap u.read := by
  rw [List.filterMap_filter]
  congr 1
  funext f
  by_cases hf : f.number ∈ u.numbers
  · simp [hf]
  · simp [hf, u.read_of_not_mem f hf]

/-- Any number of values, in order. -/
def repeated (u : Union α) : Codec (List α) where
  numbers := u.numbers
  write as := as.map u.write
  accepts := u.accepts
  read fields := fields.filterMap u.read
  norm as := as.map u.norm
  Fits as := ∀ a ∈ as, u.Fits a
  number_mem := by
    intro as f hf
    obtain ⟨a, -, rfl⟩ := List.mem_map.mp hf
    exact u.number_mem a
  fits_write := by
    intro as fits f hf
    obtain ⟨a, ha, rfl⟩ := List.mem_map.mp hf
    exact u.fits_write a (fits a ha)
  accepts_write := by
    intro as fits f hf
    obtain ⟨a, ha, rfl⟩ := List.mem_map.mp hf
    exact u.accepts_write a (fits a ha)
  accepts_of_not_mem := u.accepts_of_not_mem
  read_own := u.filterMap_read_own
  read_write := by
    intro as fits
    induction as with
    | nil => rfl
    | cons a as ih =>
      rw [List.map_cons, List.filterMap_cons_some (u.read_write a (fits a List.mem_cons_self)),
        List.map_cons, ih fun b hb => fits b (List.mem_cons_of_mem _ hb)]

/-- A value or none. Of several the last one counts. -/
def optional (u : Union α) : Codec (Option α) where
  numbers := u.numbers
  write a := u.repeated.write a.toList
  accepts := u.accepts
  read fields := (u.repeated.read fields).getLast?
  norm a := a.map u.norm
  Fits a := ∀ b ∈ a, u.Fits b
  number_mem a := u.repeated.number_mem a.toList
  fits_write a fits := u.repeated.fits_write a.toList fun b hb => fits b (Option.mem_toList.mp hb)
  accepts_write a fits :=
    u.repeated.accepts_write a.toList fun b hb => fits b (Option.mem_toList.mp hb)
  accepts_of_not_mem := u.accepts_of_not_mem
  read_own fields := by
    rw [show u.numbers = u.repeated.numbers from rfl, u.repeated.read_own]
  read_write a fits := by
    rw [u.repeated.read_write a.toList fun b hb => fits b (Option.mem_toList.mp hb)]
    cases a <;> rfl

theorem optional_fits_some {u : Union α} {a : α} (fits : u.Fits a) : u.optional.Fits (some a) :=
  fun _ hb => Option.mem_some.mp hb ▸ fits

/-- A value that is left out when a test calls it zero, and then read as the default. -/
def implicit (u : Union α) (zeroish : α → Bool) (default : α) : Codec α where
  numbers := u.numbers
  write a := if zeroish a then [] else u.optional.write (some a)
  accepts := u.accepts
  read fields := (u.optional.read fields).getD default
  norm a := if zeroish a then default else u.norm a
  Fits := u.Fits
  number_mem := by
    intro a f hf
    split at hf
    · cases hf
    · exact u.optional.number_mem _ f hf
  fits_write := by
    intro a fits f hf
    split at hf
    · cases hf
    · exact u.optional.fits_write _ (optional_fits_some fits) f hf
  accepts_write := by
    intro a fits f hf
    split at hf
    · cases hf
    · exact u.optional.accepts_write _ (optional_fits_some fits) f hf
  accepts_of_not_mem := u.accepts_of_not_mem
  read_own fields := by
    rw [show u.numbers = u.optional.numbers from rfl, u.optional.read_own]
  read_write := by
    intro a fits
    split
    · rfl
    · rw [u.optional.read_write _ (optional_fits_some fits)]
      rfl

end Union

/-! ## Values that arrive as they are -/

section Exact

variable {α β : Type}

/-- A message of two parts arrives if both parts do. -/
theorem Codec.norm_prod_eq_iff {c : Codec α} {d : Codec β} {apart : ∀ n ∈ c.numbers, n ∉ d.numbers}
    {a : α × β} : (c.prod d apart).norm a = a ↔ c.norm a.1 = a.1 ∧ d.norm a.2 = a.2 :=
  Prod.ext_iff

/-- A renamed message arrives if the message does. -/
theorem Codec.norm_rename_eq_iff {c : Codec α} {e : β ≃ α} {b : β} :
    (c.rename e).norm b = b ↔ c.norm (e b) = e b :=
  Equiv.symm_apply_eq e

/-- A repeated field arrives if every member does. -/
theorem Union.norm_repeated_eq_iff {u : Union α} {as : List α} :
    u.repeated.norm as = as ↔ ∀ a ∈ as, u.norm a = a := by
  have hid : u.repeated.norm as = as ↔ as.map u.norm = as.map id := by
    rw [List.map_id]
    rfl
  rw [hid, List.map_eq_map_iff]
  rfl

/-- An optional one arrives if the member that is set does. -/
theorem Union.norm_optional_eq_iff {u : Union α} {a : Option α} :
    u.optional.norm a = a ↔ ∀ b ∈ a, u.norm b = b := by
  cases a with
  | none => simp [Union.optional]
  | some b => simp [Union.optional]

/-- A value without presence arrives if it is kept, or if it is the default. -/
theorem Union.norm_implicit_eq_iff {u : Union α} {zeroish : α → Bool} {default a : α} :
    (u.implicit zeroish default).norm a = a ↔
      if zeroish a = true then default = a else u.norm a = a := by
  by_cases hzero : zeroish a = true <;> simp [Union.implicit, hzero]

/-- What the receiver makes of a value is written like the value itself. -/
def Codec.WritesNorm (c : Codec α) : Prop := ∀ a, c.write (c.norm a) = c.write a

/-- Two parts are written as what is left of them if each is. -/
theorem Codec.WritesNorm.prod {c : Codec α} {d : Codec β} {apart : ∀ n ∈ c.numbers, n ∉ d.numbers}
    (hc : c.WritesNorm) (hd : d.WritesNorm) : (c.prod d apart).WritesNorm := fun a =>
  congrArg₂ (· ++ ·) (hc a.1) (hd a.2)

theorem Codec.WritesNorm.rename {c : Codec α} {e : β ≃ α} (hc : c.WritesNorm) :
    (c.rename e).WritesNorm := fun b => by
  have hnorm : e ((c.rename e).norm b) = c.norm (e b) := e.apply_symm_apply _
  show c.write (e ((c.rename e).norm b)) = c.write (e b)
  rw [hnorm, hc]

/-- A value that is left out is read as a default that is left out as well. -/
theorem Union.writesNorm_implicit {u : Union α} {zeroish : α → Bool} {default : α}
    (hkeep : ∀ a, u.norm a = a) (hdefault : zeroish default = true) :
    (u.implicit zeroish default).WritesNorm := by
  intro a
  by_cases hzero : zeroish a = true
  · simp [Union.implicit, hzero, hdefault]
  · simp [Union.implicit, hzero, hkeep]

/-- A message is packed as what is left of it. -/
theorem Codec.WritesNorm.pack {c : Codec α} (hc : c.WritesNorm) (a : α) :
    c.pack (c.norm a) = c.pack a := congrArg writeFields (hc a)

end Exact

/-! ## Descriptors of codecs

What a descriptor accepts, field by field, as a codec puts it. -/

section Descriptors

variable {α : Type} {number : ℕ} {type : ScalarType} {rest fields : Descriptor}
  {test : WireValue → Bool} {others : Field → Bool}

/-- What a descriptor of one field lets through. -/
theorem Descriptor.accepts_last (htest : ∀ value, type.reads value = test value) (f : Field) :
    (scalar number type empty).accepts f = if f.number = number then test f.value else true := by
  rw [accepts, htest]
  rfl

/-- What a descriptor with one more field lets through. -/
theorem Descriptor.accepts_scalar (htest : ∀ value, type.reads value = test value)
    (hothers : ∀ f, rest.accepts f = others f) (apart : ∀ f, f.number = number → others f = true)
    (f : Field) :
    (scalar number type rest).accepts f =
      ((if f.number = number then test f.value else true) && others f) := by
  rw [accepts]
  split
  · next hnumber => rw [htest, apart f hnumber, Bool.and_true]
  · rw [hothers, Bool.true_and]

theorem Codec.isSome_unpack (c : Codec α) (bytes : Bytes) :
    (c.unpack bytes).isSome = match scan bytes with
      | none => false
      | some nested => nested.all c.accepts := by
  unfold unpack
  cases scan bytes with
  | none => rfl
  | some nested => by_cases h : nested.all c.accepts = true <;> simp [Option.filter_some, h]

/-- What a descriptor with a nested message lets through. -/
theorem Descriptor.accepts_message {c : Codec α} (hfields : ∀ f, fields.accepts f = c.accepts f)
    (f : Field) :
    (message number fields empty).accepts f =
      if f.number = number then (Scalar.message true c).accepts f.value else true := by
  rw [accepts]
  split
  · simp only [Scalar.message, Codec.isSome_unpack, funext hfields]
    rfl
  · rfl

/-- A number is read where the descriptor expects one. -/
theorem reads_number {toNat : α → ℕ} {ofNat : ℕ → α} {small : ∀ a, toNat a < 2 ^ 64}
    {ofNat_toNat : ∀ a, ofNat (toNat a) = a} (value : WireValue) :
    ScalarType.varint.reads value =
      (Scalar.number true toNat ofNat small ofNat_toNat).accepts value := by
  cases value <;> rfl

theorem reads_double (value : WireValue) :
    ScalarType.fixed64.reads value = (Scalar.double true).accepts value := by
  cases value <;> rfl

theorem reads_delimited {seen : Bytes → Bytes} (value : WireValue) :
    ScalarType.bytes.reads value = (Scalar.delimited true (fun _ => true) seen).accepts value := by
  cases value <;> rfl

/-- A field of one number says nothing about the fields of another. -/
theorem test_of_ne {n : ℕ} (hne : number ≠ n) (f : Field) (hf : f.number = number) :
    (if f.number = n then test f.value else true) = true :=
  if_neg (by rw [hf]; exact hne)

/-- A descriptor that accepts what a codec accepts lets a packed value through. -/
theorem Descriptor.unpack_pack {d : Descriptor} {c : Codec α}
    (hd : ∀ f, d.accepts f = c.accepts f) {a : α} (fits : c.Fits a) :
    d.unpack (c.pack a) = some (c.write a) := by
  rw [unpack, c.scan_pack fits, Option.filter_some, show d.accepts = c.accepts from funext hd,
    if_pos (c.all_accepts_write fits)]

end Descriptors

/-! ## Fields in another order -/

/-- The same fields under every number, in the same order. Fields of different numbers may have
changed places. -/
def SameFields (fields fields' : List Field) : Prop :=
  ∀ n, fields.filter (fun f => f.number = n) = fields'.filter fun f => f.number = n

/-- A reader to whom it is the same. -/
def ByNumber {α : Type} (read : List Field → α) : Prop :=
  ∀ fields fields', SameFields fields fields' → read fields = read fields'

section ByNumber

variable {α β γ : Type} {fields fields' : List Field} {n : ℕ}

theorem SameFields.rfl : SameFields fields fields := fun _ => Eq.refl _

theorem SameFields.mem_iff (h : SameFields fields fields') (f : Field) :
    f ∈ fields ↔ f ∈ fields' := by
  have hmem : ∀ gs : List Field, f ∈ gs ↔ f ∈ gs.filter fun g => g.number = f.number := by simp
  rw [hmem fields, hmem fields', h]

theorem SameFields.perm (h : SameFields fields fields') : fields.Perm fields' := by
  rw [List.perm_iff_count]
  intro f
  have hcount : ∀ gs : List Field, gs.count f = (gs.filter fun g => g.number = f.number).count f :=
    fun gs => (List.count_filter (by simp)).symm
  rw [hcount fields, hcount fields', h]

/-- A reader of one number. -/
theorem byNumber_of_filter {read : List Field → α}
    (h : ∀ fields, read (fields.filter fun f => f.number = n) = read fields) : ByNumber read := by
  intro fields fields' hsame
  rw [← h fields, ← h fields', hsame]

theorem byNumber_const (a : α) : ByNumber fun _ => a := fun _ _ _ => Eq.refl a

/-- A function of what is read by numbers is read by numbers. -/
theorem ByNumber.map {read : List Field → α} (h : ByNumber read) (g : α → β) :
    ByNumber fun fields => g (read fields) := fun _ _ hsame => congrArg g (h _ _ hsame)

theorem ByNumber.map₂ {read : List Field → α} {read' : List Field → β} (h : ByNumber read)
    (h' : ByNumber read') (g : α → β → γ) : ByNumber fun fields => g (read fields) (read' fields) :=
  fun _ _ hsame => congrArg₂ g (h _ _ hsame) (h' _ _ hsame)

/-- The last value of a number is read by numbers. -/
theorem byNumber_lastVarint (n : ℕ) : ByNumber (lastVarint n) := by
  refine byNumber_of_filter (n := n) fun fields => ?_
  rw [lastVarint, lastVarint, List.foldl_filter]
  congr 1
  funext found f
  by_cases hf : f.number = n <;> cases f.value <;> simp [hf]

theorem byNumber_lastDelimited (n : ℕ) : ByNumber (lastDelimited n) := by
  refine byNumber_of_filter (n := n) fun fields => ?_
  rw [lastDelimited, lastDelimited, List.foldl_filter]
  congr 1
  funext found f
  by_cases hf : f.number = n <;> cases f.value <;> simp [hf]

/-- A codec with one number reads its own fields only. -/
theorem Codec.byNumber_of_numbers {c : Codec α} (h : c.numbers = [n]) : ByNumber c.read := by
  refine byNumber_of_filter (n := n) fun fields => ?_
  rw [← c.read_own fields, h]
  simp only [List.mem_singleton]

/-- A message of two parts is read by numbers if both are. -/
theorem Codec.byNumber_prod {c : Codec α} {d : Codec β} {apart : ∀ n ∈ c.numbers, n ∉ d.numbers}
    (hc : ByNumber c.read) (hd : ByNumber d.read) : ByNumber (c.prod d apart).read :=
  hc.map₂ hd Prod.mk

theorem Codec.byNumber_rename {c : Codec α} {e : β ≃ α} (hc : ByNumber c.read) :
    ByNumber (c.rename e).read := hc.map e.symm

/-- Bytes that hold the fields of a value in some order. -/
def Codec.Encodes (c : Codec α) (a : α) (bytes : Bytes) : Prop :=
  ∃ fields, SameFields fields (c.write a) ∧ bytes = writeFields fields

theorem Codec.encodes_pack (c : Codec α) (a : α) : c.Encodes a (c.pack a) :=
  ⟨_, SameFields.rfl, Eq.refl _⟩

/-- The fields of a value take the same room in any order. -/
theorem Codec.Encodes.length {c : Codec α} {a : α} {bytes : Bytes} (h : c.Encodes a bytes) :
    bytes.length = (c.pack a).length := by
  obtain ⟨fields, hsame, rfl⟩ := h
  exact (hsame.perm.flatMap_right Field.write).length_eq

/-- A descriptor that accepts what a codec accepts lets the fields of a value through. -/
theorem Codec.Encodes.unpack_descriptor {c : Codec α} {a : α} {bytes : Bytes} {d : Descriptor}
    (h : c.Encodes a bytes) (hd : ∀ f, d.accepts f = c.accepts f) (fits : c.Fits a) :
    ∃ fields, SameFields fields (c.write a) ∧ d.unpack bytes = some fields := by
  obtain ⟨fields, hsame, rfl⟩ := h
  refine ⟨fields, hsame,
    Descriptor.unpack_writeFields (fun f hf => ?_) (List.all_eq_true.mpr fun f hf => ?_)⟩
  · exact c.fits_write a fits f ((hsame.mem_iff f).mp hf)
  · rw [hd]
    exact c.accepts_write a fits f ((hsame.mem_iff f).mp hf)

/-- **Round trip in any order.** The receiver reads what is left of the value. -/
theorem Codec.Encodes.unpack {c : Codec α} {a : α} {bytes : Bytes} (h : c.Encodes a bytes)
    (hread : ByNumber c.read) (fits : c.Fits a) : c.unpack bytes = some (c.norm a) := by
  obtain ⟨fields, hsame, rfl⟩ := h
  have hscan : scan (writeFields fields) = some fields :=
    scan_writeFields fun f hf => c.fits_write a fits f ((hsame.mem_iff f).mp hf)
  have haccepts : fields.all c.accepts = true := List.all_eq_true.mpr fun f hf =>
    c.accepts_write a fits f ((hsame.mem_iff f).mp hf)
  rw [Codec.unpack, hscan, Option.filter_some, if_pos haccepts, Option.map_some,
    hread _ _ hsame, c.read_write a fits]

end ByNumber

/-! ## Lengths of packed values -/

namespace Codec

variable {α β : Type} {c : Codec α} {d : Codec β} {k l : ℕ}

/-- No value takes more than `k` bytes. -/
def PackedWithin (c : Codec α) (k : ℕ) : Prop := ∀ a, (c.pack a).length ≤ k

theorem PackedWithin.prod {apart : ∀ n ∈ c.numbers, n ∉ d.numbers} (hc : c.PackedWithin k)
    (hd : d.PackedWithin l) : (c.prod d apart).PackedWithin (k + l) := by
  intro a
  have hsplit : (c.prod d apart).pack a = c.pack a.1 ++ d.pack a.2 := List.flatMap_append
  rw [hsplit, List.length_append]
  exact Nat.add_le_add (hc a.1) (hd a.2)

/-- A renamed message takes as much room. -/
theorem PackedWithin.rename (hc : c.PackedWithin k) (e : β ≃ α) : (c.rename e).PackedWithin k :=
  fun b => hc (e b)

end Codec

theorem Union.pack_optional_length_le {α : Type} (u : Union α) (a : α) :
    (u.optional.pack (some a)).length ≤ 20 + (u.write a).value.content.length := by
  have hpack : u.optional.pack (some a) = (u.write a).write := List.append_nil _
  rw [hpack]
  exact Field.write_length_le _

/-- The room of a field with a default. -/
theorem Union.pack_implicit_length_le {α : Type} (u : Union α) (zeroish : α → Bool)
    (default a : α) :
    ((u.implicit zeroish default).pack a).length ≤ 20 + (u.write a).value.content.length := by
  by_cases hzero : zeroish a = true
  · have hpack : (u.implicit zeroish default).pack a = [] := by
      simp [Codec.pack, implicit, hzero, writeFields]
    rw [hpack]
    exact Nat.zero_le _
  · have hpack : (u.implicit zeroish default).pack a = u.optional.pack (some a) := by
      simp [Codec.pack, implicit, hzero]
    rw [hpack]
    exact u.pack_optional_length_le a

/-- A field is bounded as its content is. -/
theorem Union.packedWithin_implicit {α : Type} {u : Union α} {k : ℕ}
    (hu : ∀ a, (u.write a).value.content.length ≤ k) (zeroish : α → Bool) (default : α) :
    (u.implicit zeroish default).PackedWithin (20 + k) := fun a =>
  (u.pack_implicit_length_le zeroish default a).trans (Nat.add_le_add_left (hu a) 20)

end RpcProject.Foundations.Wire
