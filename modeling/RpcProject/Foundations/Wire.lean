/-
# The tag-length-value wire format

A message is a sequence of fields. Each field opens with a base-128 key that
carries its number and its wire type, and goes on with a base-128 number, four
or eight bytes, or a length-delimited byte string. A reader skips fields it does
not know and rejects a message that is cut short, whose key is zero, whose wire
type is not one of the four, or whose delimited value is longer than the format
allows.

A descriptor lists the fields a message type knows. A message is accepted under
a descriptor when it scans and every known field has a wire type the field's
type can be read from, nested messages included.

Writing fields and scanning the result gives the fields back.
-/

import Mathlib.Tactic.Linarith
import RpcProject.Foundations.Framing

namespace RpcProject.Foundations.Wire

/-! ## Base-128 numbers -/

/-- Base-128 digits of `n`, least significant first, in at most `k + 1` bytes. -/
def varintDigits : ℕ → ℕ → Bytes
  | 0, n => [UInt8.ofNat n]
  | k + 1, n =>
      if n < 128 then [UInt8.ofNat n] else UInt8.ofNat (n % 128 + 128) :: varintDigits k (n / 128)

/-- The base-128 form of a number below `128 ^ 10`. -/
def varint (n : ℕ) : Bytes := varintDigits 9 n

/-- Read a base-128 number of at most `limit` bytes. -/
def readVarint : ℕ → Bytes → Option (ℕ × Bytes)
  | 0, _ => none
  | _ + 1, [] => none
  | limit + 1, b :: bs =>
      if b.toNat < 128 then some (b.toNat, bs)
      else (readVarint limit bs).map fun (n, rest) => (b.toNat % 128 + 128 * n, rest)

private theorem readVarint_single {limit n : ℕ} (small : n < 128) (rest : Bytes) :
    readVarint (limit + 1) ([UInt8.ofNat n] ++ rest) = some (n, rest) := by
  have hbyte : (UInt8.ofNat n).toNat = n := by
    rw [UInt8.toNat_ofNat']
    omega
  rw [List.singleton_append, readVarint, hbyte, if_pos small]

/-- The digits of a number are read back as the number. -/
theorem readVarint_varintDigits {limit k n : ℕ} (hlimit : n < 128 ^ (limit + 1))
    (hk : n < 128 ^ (k + 1)) (rest : Bytes) :
    readVarint (limit + 1) (varintDigits k n ++ rest) = some (n, rest) := by
  induction k generalizing limit n with
  | zero => exact readVarint_single (by simpa using hk) rest
  | succ k ih =>
    by_cases small : n < 128
    · rw [varintDigits, if_pos small]
      exact readVarint_single small rest
    · cases limit with
      -- one byte is left to the reader, and the number needs more
      | zero => exact absurd (by simpa using hlimit) small
      | succ limit =>
        -- the high bit of the digit says that another one follows
        have hbyte : (UInt8.ofNat (n % 128 + 128)).toNat = n % 128 + 128 := by
          rw [UInt8.toNat_ofNat']
          omega
        have hrest := @ih limit (n / 128)
          (Nat.div_lt_of_lt_mul (by rwa [pow_succ'] at hlimit))
          (Nat.div_lt_of_lt_mul (by rwa [pow_succ'] at hk))
        rw [varintDigits, if_neg small, List.cons_append, readVarint, hbyte,
          if_neg (by omega), hrest]
        simp only [Option.map_some, Option.some.injEq, Prod.mk.injEq, and_true]
        omega

theorem readVarint_varint {limit n : ℕ} (hlimit : n < 128 ^ (limit + 1)) (hn : n < 128 ^ 10)
    (rest : Bytes) : readVarint (limit + 1) (varint n ++ rest) = some (n, rest) :=
  readVarint_varintDigits hlimit hn rest

theorem varintDigits_length (k n : ℕ) :
    0 < (varintDigits k n).length ∧ (varintDigits k n).length ≤ k + 1 := by
  induction k generalizing n with
  | zero => simp [varintDigits]
  | succ k ih =>
    rw [varintDigits]
    split
    · simp
    · have := ih (n / 128)
      simp only [List.length_cons]
      omega

/-! ## Fields -/

/-- The value of a field, as its wire type delimits it. -/
inductive WireValue
  | varint (n : ℕ)
  | fixed64 (bytes : Bytes)
  | delimited (bytes : Bytes)
  | fixed32 (bytes : Bytes)
  deriving DecidableEq, Repr

/-- A field of a message. -/
structure Field where
  number : ℕ
  value : WireValue
  deriving DecidableEq, Repr

/-- The longest length-delimited value of the format. -/
def maxDelimited : ℕ := 2 ^ 31 - 1

namespace WireValue

/-- The wire type, the low three bits of a key. -/
def wireType : WireValue → ℕ
  | varint _ => 0
  | fixed64 _ => 1
  | delimited _ => 2
  | fixed32 _ => 5

/-- The bytes of a value. -/
def write : WireValue → Bytes
  | varint n => Wire.varint n
  | fixed64 bytes => bytes
  | delimited bytes => Wire.varint bytes.length ++ bytes
  | fixed32 bytes => bytes

/-- Values that the format can carry. -/
def Fits : WireValue → Prop
  | varint n => n < 2 ^ 64
  | fixed64 bytes => bytes.length = 8
  | delimited bytes => bytes.length ≤ maxDelimited
  | fixed32 bytes => bytes.length = 4

/-- Read a value of a given wire type. -/
def read (wireType : ℕ) (bytes : Bytes) : Option (WireValue × Bytes) :=
  match wireType with
  | 0 => (readVarint 10 bytes).map fun (n, rest) => (varint n, rest)
  | 1 => if bytes.length < 8 then none else some (fixed64 (bytes.take 8), bytes.drop 8)
  | 2 =>
      match readVarint 5 bytes with
      | none => none
      | some (len, rest) =>
          if maxDelimited < len ∨ rest.length < len then none
          else some (delimited (rest.take len), rest.drop len)
  | 5 => if bytes.length < 4 then none else some (fixed32 (bytes.take 4), bytes.drop 4)
  | _ => none

theorem read_write {value : WireValue} (fits : value.Fits) (rest : Bytes) :
    read value.wireType (value.write ++ rest) = some (value, rest) := by
  cases value with
  | varint n =>
    have hn : n < 128 ^ 10 := lt_trans fits (by norm_num)
    rw [wireType, write, read, readVarint_varint hn hn]
    rfl
  | fixed64 bytes =>
    have hlength : bytes.length = 8 := fits
    simp [wireType, write, read, List.take_left' hlength, List.drop_left' hlength, hlength]
  | delimited bytes =>
    have hlength : bytes.length ≤ 2 ^ 31 - 1 := fits
    have hlen : bytes.length < 128 ^ 5 := by omega
    rw [wireType, write, read, List.append_assoc, readVarint_varint hlen (by omega)]
    simp only [maxDelimited, List.length_append, List.take_left', List.drop_left']
    rw [if_neg (by omega)]
  | fixed32 bytes =>
    have hlength : bytes.length = 4 := fits
    simp [wireType, write, read, List.take_left' hlength, List.drop_left' hlength, hlength]

end WireValue

namespace Field

/-- The bytes of a field. -/
def write (f : Field) : Bytes := varint (f.number * 8 + f.value.wireType) ++ f.value.write

/-- Fields that the format can carry: the number is positive and leaves room
for the wire type in a five-byte key. -/
def Fits (f : Field) : Prop := 0 < f.number ∧ f.number < 2 ^ 29 ∧ f.value.Fits

/-- Read one field. A first byte below eight announces field zero. -/
def read (bytes : Bytes) : Option (Field × Bytes) :=
  if (bytes.headD 0).toNat < 8 then none
  else
    match readVarint 5 bytes with
    | none => none
    | some (key, rest) =>
        (WireValue.read (key % 8) rest).map fun (value, rest) => (⟨key / 8, value⟩, rest)

theorem eight_le_headD_varint {n : ℕ} (hn : 8 ≤ n) (rest : Bytes) :
    8 ≤ ((varint n ++ rest).headD 0).toNat := by
  by_cases small : n < 128
  · simp only [varint, varintDigits, if_pos small, List.cons_append, List.headD_cons,
      UInt8.toNat_ofNat']
    omega
  · simp only [varint, varintDigits, if_neg small, List.cons_append, List.headD_cons,
      UInt8.toNat_ofNat']
    omega

theorem read_write {f : Field} (fits : f.Fits) (rest : Bytes) :
    read (f.write ++ rest) = some (f, rest) := by
  obtain ⟨hpos, hnumber, hvalue⟩ := fits
  have htype : f.value.wireType < 8 := by
    cases f.value <;> simp [WireValue.wireType]
  have hkey : f.number * 8 + f.value.wireType < 128 ^ 5 := by omega
  -- the number is positive, so the reader does not take the key for field zero
  have hhead : 8 ≤ ((varint (f.number * 8 + f.value.wireType) ++
      (f.value.write ++ rest)).headD 0).toNat := eight_le_headD_varint (by omega) _
  rw [write, List.append_assoc, read, if_neg (Nat.not_lt.mpr hhead),
    readVarint_varint hkey (by omega)]
  have hmod : (f.number * 8 + f.value.wireType) % 8 = f.value.wireType := by omega
  have hdiv : (f.number * 8 + f.value.wireType) / 8 = f.number := by omega
  simp only [hmod, hdiv, WireValue.read_write hvalue, Option.map_some]

theorem write_ne_nil (f : Field) : 0 < f.write.length := by
  rw [write, List.length_append]
  have := (varintDigits_length 9 (f.number * 8 + f.value.wireType)).1
  unfold varint
  omega

end Field

/-! ## Messages -/

/-- Write a message field by field. -/
def writeFields (fields : List Field) : Bytes := fields.flatMap Field.write

/-- Read fields until the bytes run out, at most `fuel` of them. -/
def scanUpTo : ℕ → Bytes → Option (List Field)
  | _, [] => some []
  | 0, _ :: _ => none
  | fuel + 1, b :: bs =>
      match Field.read (b :: bs) with
      | none => none
      | some (f, rest) => (scanUpTo fuel rest).map (f :: ·)

/-- Scan a message. Every field takes at least one byte, so its length bounds
the number of fields. -/
def scan (bytes : Bytes) : Option (List Field) := scanUpTo bytes.length bytes

/-- The fields of a message are found one after the other. -/
theorem scanUpTo_writeFields {fields : List Field} (fits : ∀ f ∈ fields, f.Fits) {fuel : ℕ}
    (hfuel : fields.length ≤ fuel) : scanUpTo fuel (writeFields fields) = some fields := by
  induction fields generalizing fuel with
  | nil => cases fuel <;> rfl
  | cons f fields ih =>
    obtain ⟨fuel, rfl⟩ : ∃ k, fuel = k + 1 := ⟨fuel - 1, by rw [List.length_cons] at hfuel; omega⟩
    have hread := Field.read_write (fits f List.mem_cons_self) (writeFields fields)
    have hwrite : writeFields (f :: fields) = f.write ++ writeFields fields := rfl
    -- the scanner looks at the first byte before it reads the field
    obtain ⟨b, bs, hbytes⟩ : ∃ b bs, f.write ++ writeFields fields = b :: bs := by
      apply List.exists_cons_of_ne_nil
      intro hnil
      have := f.write_ne_nil
      rw [(List.append_eq_nil_iff.mp hnil).1] at this
      exact absurd this (lt_irrefl 0)
    rw [hwrite, hbytes, scanUpTo, ← hbytes, hread]
    simp only
    rw [ih (fun g hg => fits g (List.mem_cons_of_mem _ hg)) (by simpa using hfuel)]
    rfl

/-- **Round trip.** Scanning what was written gives the fields back. -/
theorem scan_writeFields {fields : List Field} (fits : ∀ f ∈ fields, f.Fits) :
    scan (writeFields fields) = some fields := by
  apply scanUpTo_writeFields fits
  induction fields with
  | nil => rfl
  | cons f fields ih =>
    have htail := ih fun g hg => fits g (List.mem_cons_of_mem _ hg)
    have := f.write_ne_nil
    simp only [writeFields, List.flatMap_cons, List.length_append, List.length_cons] at htail ⊢
    omega

/-! ## Descriptors -/

/-- The ways a scalar field is read. A boolean is read from any wire type. -/
inductive ScalarType
  | varint
  | boolean
  | fixed64
  | fixed32
  | bytes
  deriving DecidableEq, Repr

/-- Which values a field of a type is read from. -/
def ScalarType.reads : ScalarType → WireValue → Bool
  | .varint, .varint _ => true
  | .boolean, _ => true
  | .fixed64, .fixed64 _ => true
  | .fixed32, .fixed32 _ => true
  | .bytes, .delimited _ => true
  | _, _ => false

/-- The fields a message type knows, by number: scalars and nested messages. -/
inductive Descriptor
  | empty
  | scalar (number : ℕ) (type : ScalarType) (rest : Descriptor)
  | message (number : ℕ) (fields : Descriptor) (rest : Descriptor)
  deriving Repr

/-- Whether a descriptor can read a field. Unknown fields are skipped. -/
def Descriptor.accepts : Descriptor → Field → Bool
  | empty, _ => true
  | scalar number type rest, f =>
      if f.number = number then type.reads f.value else rest.accepts f
  | message number fields rest, f =>
      if f.number = number then
        match f.value with
        | .delimited bytes =>
            match scan bytes with
            | none => false
            | some nested => nested.all fun g => fields.accepts g
        | _ => false
      else rest.accepts f

/-- Read a message under a descriptor. -/
def Descriptor.unpack (d : Descriptor) (bytes : Bytes) : Option (List Field) :=
  (scan bytes).filter fun fields => fields.all d.accepts

/-- What was written under a descriptor that accepts it is read back. -/
theorem Descriptor.unpack_writeFields {d : Descriptor} {fields : List Field}
    (fits : ∀ f ∈ fields, f.Fits) (accepted : fields.all d.accepts = true) :
    d.unpack (writeFields fields) = some fields := by
  rw [unpack, scan_writeFields fits, Option.filter_some, if_pos accepted]

/-! ## Reading known fields

Of several occurrences of a field the last one counts, and a missing one has its
type's default. -/

/-- The last number given for a field, or zero. -/
def lastVarint (number : ℕ) (fields : List Field) : ℕ :=
  fields.foldl (fun found f =>
    match f.value with
    | .varint n => if f.number = number then n else found
    | _ => found) 0

/-- The last byte string given for a field, or the empty one. -/
def lastDelimited (number : ℕ) (fields : List Field) : Bytes :=
  fields.foldl (fun found f =>
    match f.value with
    | .delimited bytes => if f.number = number then bytes else found
    | _ => found) []

/-- Whether a value reads as true: some of its bytes, the length of a delimited
value included, has a bit among its low seven. -/
def WireValue.truth : WireValue → Bool
  | varint n => n ≠ 0
  | fixed64 bytes => bytes.any fun b => b.toNat % 128 ≠ 0
  | delimited bytes => bytes ≠ []
  | fixed32 bytes => bytes.any fun b => b.toNat % 128 ≠ 0

/-- The last truth value given for a field, or false. -/
def lastBool (number : ℕ) (fields : List Field) : Bool :=
  fields.foldl (fun found f => if f.number = number then f.value.truth else found) false

/-! ## Lengths -/

/-- The bytes a value carries besides base-128 numbers. -/
def WireValue.content : WireValue → Bytes
  | varint _ => []
  | fixed64 bytes => bytes
  | delimited bytes => bytes
  | fixed32 bytes => bytes

/-- No content is longer than a length can tell. -/
theorem WireValue.content_length_le {value : WireValue} (fits : value.Fits) :
    value.content.length ≤ maxDelimited := by
  cases value with
  | varint n => exact Nat.zero_le _
  | fixed64 bytes => exact le_of_eq_of_le fits (by decide)
  | delimited bytes => exact fits
  | fixed32 bytes => exact le_of_eq_of_le fits (by decide)

/-- A field takes its content, a key and at most one length. -/
theorem Field.write_length_le (f : Field) : f.write.length ≤ 20 + f.value.content.length := by
  have hkey := (varintDigits_length 9 (f.number * 8 + f.value.wireType)).2
  have hvalue : f.value.write.length ≤ 10 + f.value.content.length := by
    cases f.value with
    | varint n => exact (varintDigits_length 9 n).2
    | fixed64 bytes => exact Nat.le_add_left _ _
    | delimited bytes =>
      rw [WireValue.write, List.length_append]
      exact Nat.add_le_add_right (varintDigits_length 9 bytes.length).2 _
    | fixed32 bytes => exact Nat.le_add_left _ _
  rw [Field.write, List.length_append, varint]
  omega

theorem writeFields_length_le {fields : List Field} (fits : ∀ f ∈ fields, f.Fits) :
    (writeFields fields).length ≤ fields.length * (20 + maxDelimited) := by
  induction fields with
  | nil => simp [writeFields]
  | cons f fields ih =>
    have hhead := f.write_length_le
    have hcontent := WireValue.content_length_le (fits f List.mem_cons_self).2.2
    have htail := ih fun g hg => fits g (List.mem_cons_of_mem _ hg)
    unfold writeFields at htail ⊢
    rw [List.flatMap_cons, List.length_append, List.length_cons, Nat.succ_mul]
    omega

end RpcProject.Foundations.Wire
