/-
# Setting an ivar

The server tells the name and the offset of each ivar of an object, those of the class first
and then those of each superclass, but not how wide it is. `set_ivar` takes an ivar to reach up
to the next one of the list, or to have the wrapper's `item_size` if it is the last, and writes
it as an item of that size.

A wrapper of an object has no `item_size` unless somebody sets it: the initialiser does not, and
without it the attribute is looked up as a member of the class.
-/

import RpcProject.Client.ItemAccess
import RpcProject.Darwin.Selectors

namespace RpcProject.Darwin

open Client Foundations Foundations.Effect

/-! ## The wrapper -/

/-- What `item_size` can be: a number, or a coroutine that nobody has awaited. -/
inductive ItemSize
  | size (n : ℤ)
  | coroutine
  deriving DecidableEq, Repr

/-- A wrapper of an object, with `item_size` once it has been set. -/
structure Wrapper where
  object : ObjectiveCSymbol
  itemSize : Option ItemSize
  deriving DecidableEq, Repr

/-- The wrapper and the remote process. -/
structure Scene (K : Type) where
  wrapper : Wrapper
  remote : Remote K

/-- A step of `set_ivar`, which may raise. -/
abbrev Step (K α : Type) := Effect (Scene K) Raised α

/-- The part of a step that takes place in the remote process. -/
def onRemote {K α : Type} (m : Access K α) : Step K α := fun s =>
  match m s.remote with
  | (result, r) => (result, { s with remote := r })

namespace Wrapper

/-- `self.item_size` -/
def readItemSize (w : Wrapper) : Except Raised ItemSize :=
  match w.itemSize with
  | some itemSize => .ok itemSize
  | none =>
      -- `__getattr__` returns the coroutine of `get`, unless the loaded class has no such member
      match w.object.layout with
      | none => .ok .coroutine
      | some l =>
          if l.hasMember (sanitizeName "item_size".toList) = true then .ok .coroutine
          else .error (.attribute "item_size")

end Wrapper

section Steps

variable {K : Type}

/-- The size of the items is changed. -/
def setItemSize (itemSize : ItemSize) : Step K Unit :=
  Effect.modify fun s => { s with wrapper := { s.wrapper with itemSize := some itemSize } }

/-- Temporarily change item size. -/
def changeItemSize (newItemSize : ItemSize) (body : Step K Unit) : Step K Unit := do
  let saveItemSize ← ask fun s => s.wrapper.readItemSize
  setItemSize newItemSize
  let result ← attempt body
  setItemSize saveItemSize
  ask fun _ => result

/-- `offset // size` -/
def floorDiv (offset : ℤ) : ItemSize → Except Raised ℤ
  | .size n => if n = 0 then .error .zeroDivision else .ok (offset.fdiv n)
  | .coroutine => .error .type

/-- The first ivar of a name, with the one behind it. -/
def findIvar (name : Name) : List Ivar → Option (Ivar × Option Ivar)
  | [] => none
  | ivar :: rest => if ivar.name = name then some (ivar, rest.head?) else findIvar name rest

/-- The size that an ivar is taken to have. -/
def inferredSize (itemSize : ItemSize) (ivar : Ivar) : Option Ivar → ItemSize
  | some next => .size (next.offset - ivar.offset)
  | none => itemSize

/-- `self.setindex(index, value)` -/
def setindex (index value : ℤ) : Step K Unit := fun s =>
  match s.wrapper.readItemSize with
  | .ok (.size n) => onRemote (s.wrapper.object.value.setindex n index value) s
  | .ok .coroutine => raise .key s
  | .error e => raise e s

/-- Keep the value with the first ivar of its name. -/
def keepValue (name : Name) (value : ℤ) : List Ivar → List Ivar
  | [] => []
  | ivar :: rest =>
      if ivar.name = name then { ivar with value := .new value } :: rest
      else ivar :: keepValue name value rest

/-- The value that the wrapper keeps of an ivar is changed. -/
def Wrapper.updateValue (w : Wrapper) (name : Name) (value : ℤ) : Wrapper :=
  { w with object := { w.object with
    layout := w.object.layout.map fun l => { l with ivars := keepValue name value l.ivars } } }

/-- `self.setindex(ivar.offset // size, value)` and `ivar.value = value` -/
def writeIvar (name : Name) (value offset : ℤ) (size : ItemSize) : Step K Unit := do
  let index ← ask fun _ => floorDiv offset size
  setindex index value
  Effect.modify fun s : Scene K => { s with wrapper := s.wrapper.updateValue name value }

/-- `set_ivar` -/
def setIvar (name : Name) (value : ℤ) : Step K Unit := fun s =>
  match s.wrapper.object.layout with
  -- the assertion raises an exception that the handler for missing attributes lets pass
  | none => raise .assertion s
  | some l =>
      match findIvar name l.ivars with
      | none => raise (.settingIvar name l.class_.name) s
      | some (ivar, next) =>
          (do
            let itemSize ← ask fun s : Scene K => s.wrapper.readItemSize
            let size := inferredSize itemSize ivar next
            changeItemSize size (writeIvar name value ivar.offset size)) s

end Steps

/-! ## Layouts -/

/-- An ivar as the runtime places it in an object. -/
structure IvarSlot where
  name : Name
  offset : ℕ
  width : ℕ
  width_mem : width = 1 ∨ width = 2 ∨ width = 4 ∨ width = 8

/-- `addIvarsToDictionary`, for a class with its superclasses. -/
def addIvarsToDictionary (chain : List (List IvarSlot)) (value : IvarSlot → Symbol) : List Ivar :=
  chain.flatten.map fun slot => ⟨slot.name, value slot, slot.offset⟩

/-- The ivars are those that the server has told, with any values. -/
def Reported (slots : List IvarSlot) (ivars : List Ivar) : Prop :=
  (ivars.map fun ivar => (ivar.name, ivar.offset)) = slots.map fun slot =>
    (slot.name, (slot.offset : ℤ))

/-- The first slot of a name, with the one behind it. -/
def findSlot (name : Name) : List IvarSlot → Option (IvarSlot × Option IvarSlot)
  | [] => none
  | slot :: rest => if slot.name = name then some (slot, rest.head?) else findSlot name rest

/-- The bytes of a value of so many bytes. -/
def leBytes (width : ℕ) (value : ℤ) : List Byte := (toLE width value.toNat).map UInt8.toBitVec

/-- Whatever the memory holds, the bytes of the ivar are written, and no others. -/
def Wrapper.Writes (w : Wrapper) (name : Name) (value : ℤ) (slot : IvarSlot) : Prop :=
  ∀ r : Remote Unit, ∃ w', setIvar name value ⟨w, r⟩ = (.ok (), ⟨w', { r with
    memory := r.memory.store (w.object.value.plus slot.offset).bits (leBytes slot.width value) }⟩)

/-- There is nothing to be set: the call says so and leaves the process as it is. -/
def Wrapper.Refuses (w : Wrapper) (name : Name) (value : ℤ) : Prop :=
  ∀ r : Remote Unit, ∃ name' className w',
    setIvar name value ⟨w, r⟩ = (.error (.settingIvar name' className), ⟨w', r⟩)

/-- The ivar of a name is set, or refused if there is none or the object is not loaded. -/
def SetsIvar (w : Wrapper) (slots : List IvarSlot) (name : Name) (value : ℤ) : Prop :=
  match w.object.layout, findSlot name slots with
  | some _, some (slot, _) => w.Writes name value slot
  | _, _ => w.Refuses name value

/-- The size that an ivar is taken to have is its width. -/
def Wrapper.InfersWidth (w : Wrapper) (slot : IvarSlot) : Option IvarSlot → Prop
  | some next =>
      (∃ itemSize, w.readItemSize = .ok itemSize) ∧ (next.offset : ℤ) - slot.offset = slot.width
  | none => w.readItemSize = .ok (.size slot.width)

/-! ## Runs -/

section Runs

variable {K : Type} {s t : Scene K} {r r' : Remote K} {w : Wrapper} {l : Layout} {name : Name}
  {value d : ℤ} {itemSize : ItemSize} {ivar : Ivar} {next : Option Ivar}

/-- An item is written exactly if its size has a format, the value fits and the address is not
null. -/
theorem setindex_eq_ok_iff {symbol : Symbol} {index : ℤ} :
    symbol.setindex d index value r = (.ok (), r') ↔
      ∃ fmt buf, d = (fmt : Format).size ∧ fmt.pack value = .ok buf ∧
        (symbol.plus (index * d)).int ≠ 0 ∧
        r' = { r with memory := r.memory.store (symbol.plus (index * d)).bits buf } := by
  rw [Symbol.setindex, ask_bind_eq_ok_iff]
  constructor
  · rintro ⟨fmt, hfmt, hrest⟩
    obtain ⟨buf, hbuf, hpoke⟩ := ask_bind_eq_ok_iff.mp hrest
    refine ⟨fmt, buf, addressSizeToStructFormat_eq_ok_iff.mp hfmt, hbuf, ?_⟩
    by_cases hnull : (symbol.plus (index * d)).int = 0
    · rw [Symbol.poke, remotely, poke, bind_of_error (raiseIf_of hnull _ _)] at hpoke
      cases hpoke
    · rw [Symbol.poke, remotely, poke_of_ne hnull] at hpoke
      cases hpoke
      exact ⟨hnull, rfl⟩
  · rintro ⟨fmt, buf, rfl, hbuf, hne, rfl⟩
    refine ⟨fmt, addressSizeToStructFormat_eq_ok_iff.mpr rfl, ?_⟩
    rw [ask_bind_of_ok hbuf, Symbol.poke, remotely, poke_of_ne hne]

/-- Whatever comes of the body, the size is put back. -/
theorem changeItemSize_of_ok {body : Step K Unit} {new saved : ItemSize}
    {result : Except Raised Unit}
    (hsaved : s.wrapper.readItemSize = .ok saved)
    (hbody : body ⟨{ s.wrapper with itemSize := some new }, s.remote⟩ = (result, t)) :
    changeItemSize new body s =
      (result, ⟨{ t.wrapper with itemSize := some saved }, t.remote⟩) := by
  simp only [changeItemSize, bind_apply, ask, hsaved, setItemSize, Effect.modify, attempt, hbody]

/-- When the write of an ivar returns, and what it has done then. -/
theorem writeIvar_eq_ok_iff {offset : ℤ} {size : ItemSize}
    (hsize : s.wrapper.itemSize = some size) :
    (∃ w', writeIvar name value offset size s = (.ok (), ⟨w', r'⟩)) ↔
      ∃ d, size = .size d ∧ d ≠ 0 ∧
        s.wrapper.object.value.setindex d (offset.fdiv d) value s.remote = (.ok (), r') := by
  cases size with
  | coroutine => simp [writeIvar, ask_bind_eq_ok_iff, floorDiv]
  | size d =>
    by_cases hd : d = 0
    · simp [writeIvar, ask_bind_eq_ok_iff, floorDiv, hd]
    · have hindex : floorDiv offset (.size d) = .ok (offset.fdiv d) := if_neg hd
      have hset : setindex (offset.fdiv d) value s =
          onRemote (s.wrapper.object.value.setindex d (offset.fdiv d) value) s := by
        rw [setindex, Wrapper.readItemSize, hsize]
      rw [writeIvar, ask_bind_of_ok hindex, bind_apply, hset, onRemote]
      rcases hrun : s.wrapper.object.value.setindex d
        (offset.fdiv d) value s.remote with ⟨e | ⟨⟩, t⟩
      · simp [hrun]
      · simp [Effect.modify, hd, hrun]

/-- A loaded object is set exactly if the item behind the ivar of the name is written. -/
theorem setIvar_eq_ok_iff (hlayout : w.object.layout = some l)
    (hfind : findIvar name l.ivars = some (ivar, next)) :
    (∃ w', setIvar name value ⟨w, r⟩ = (.ok (), ⟨w', r'⟩)) ↔
      ∃ itemSize d, w.readItemSize = .ok itemSize ∧
        inferredSize itemSize ivar next = .size d ∧ d ≠ 0 ∧
        w.object.value.setindex d (ivar.offset.fdiv d) value r = (.ok (), r') := by
  have hrun : setIvar name value ⟨w, r⟩ = (do
      let itemSize ← ask fun s : Scene K => s.wrapper.readItemSize
      let size := inferredSize itemSize ivar next
      changeItemSize size (writeIvar name value ivar.offset size)) ⟨w, r⟩ := by
    rw [setIvar]
    simp only [hlayout, hfind]
  simp only [hrun, ask_bind_eq_ok_iff]
  constructor
  · rintro ⟨w', itemSize, hread, hrest⟩
    rcases hbody : writeIvar name value ivar.offset (inferredSize itemSize ivar next)
      ⟨{ w with itemSize := some (inferredSize itemSize ivar next) }, r⟩ with ⟨result, t⟩
    rw [changeItemSize_of_ok hread hbody] at hrest
    obtain ⟨rfl, hscene⟩ := Prod.mk.inj hrest
    obtain ⟨d, hd, hne, hset⟩ := (writeIvar_eq_ok_iff rfl).mp ⟨t.wrapper, hbody⟩
    refine ⟨itemSize, d, hread, hd, hne, ?_⟩
    rw [hset, ← (Scene.mk.inj hscene).2]
  · rintro ⟨itemSize, d, hread, hd, hne, hset⟩
    obtain ⟨w', hbody⟩ : ∃ w', writeIvar name value ivar.offset (inferredSize itemSize ivar next)
        ⟨{ w with itemSize := some (inferredSize itemSize ivar next) }, r⟩ = (.ok (), ⟨w', r'⟩) :=
      (writeIvar_eq_ok_iff rfl).mpr ⟨d, hd, hne, hset⟩
    exact ⟨_, itemSize, hread, changeItemSize_of_ok (s := ⟨w, r⟩) hread hbody⟩

end Runs

/-! ## Layouts and runs -/

section Layouts

variable {w : Wrapper} {slots : List IvarSlot} {slot : IvarSlot} {next : Option IvarSlot}
  {ivars : List Ivar} {l : Layout} {name : Name} {value : ℤ}

/-- The ivar that is found stands for the slot of the name, and the one behind it for the slot
behind that. -/
theorem Reported.findIvar (h : Reported slots ivars) (name : Name) :
    ((findIvar name ivars).map fun p => (p.1.offset, p.2.map Ivar.offset)) =
      (findSlot name slots).map fun p => ((p.1.offset : ℤ), p.2.map fun n => (n.offset : ℤ)) := by
  induction slots generalizing ivars with
  | nil =>
    obtain rfl := List.map_eq_nil_iff.mp h
    rfl
  | cons slot slots ih =>
    obtain ⟨ivar, rest, rfl, hivar, hrest⟩ := List.map_eq_cons_iff.mp h
    obtain ⟨hname, hoffset⟩ := Prod.mk.inj hivar
    rw [Darwin.findIvar, findSlot, hname]
    split
    · have hheads := congrArg List.head? hrest
      rw [List.head?_map, List.head?_map] at hheads
      have hoffsets := congrArg (Option.map Prod.snd) hheads
      rw [Option.map_map, Option.map_map] at hoffsets
      rw [Option.map_some, Option.map_some, hoffset]
      exact congrArg (fun o => some ((slot.offset : ℤ), o)) hoffsets
    · exact ih hrest

/-- The slot that is found is one of the object. -/
theorem mem_of_findSlot (h : findSlot name slots = some (slot, next)) : slot ∈ slots := by
  induction slots with
  | nil => cases h
  | cons first slots ih =>
    rw [findSlot] at h
    split at h
    · obtain ⟨rfl, -⟩ := Prod.mk.inj (Option.some.inj h)
      exact List.mem_cons_self
    · exact List.mem_cons_of_mem _ (ih h)

theorem length_leBytes (width : ℕ) (value : ℤ) : (leBytes width value).length = width := by
  rw [leBytes, List.length_map, toLE_length]

/-- The place that an offset is rounded down to. -/
theorem fdiv_mul (offset size : ℕ) :
    (offset : ℤ).fdiv size * size = (offset / size * size : ℕ) := by
  rw [← Int.ofNat_fdiv, Nat.cast_mul]

/-- Blocks that are the same in all memories have one length, and the offset is no more rounded
down. -/
theorem width_of_store {symbol : Symbol} {fmt : Format} {buf : List Byte}
    (hpos : 0 < symbol.int) (hlt : symbol.int + slot.offset < 2 ^ 64)
    (hlength : buf.length = fmt.size)
    (hstore : ∀ m : Memory, m.store (symbol.plus slot.offset).bits (leBytes slot.width value) =
      m.store (symbol.plus ((slot.offset : ℤ).fdiv fmt.size * fmt.size)).bits buf) :
    fmt.size = slot.width ∧ slot.width ∣ slot.offset := by
  have hwidth := slot.width_mem
  have hsize := fmt.size_le
  have hsize_pos := fmt.size_pos
  obtain ⟨haddress, hbytes⟩ := Memory.store_injective
    (List.length_pos_iff.mp (by rw [length_leBytes]; omega))
    (List.length_pos_iff.mp (by omega)) (by rw [length_leBytes]; omega) (by omega) hstore
  have hsame : slot.width = fmt.size := by rw [← length_leBytes slot.width value, hbytes, hlength]
  rw [fdiv_mul] at haddress
  have hle := Nat.div_mul_le_self slot.offset fmt.size
  have hint : (symbol.plus slot.offset).int =
      (symbol.plus (slot.offset / fmt.size * fmt.size : ℕ)).int :=
    congrArg (fun bits : Address => (Symbol.mk bits).int) haddress
  rw [Symbol.int_plus (by omega) hlt, Symbol.int_plus (by omega) (by omega)] at hint
  rw [hsame]
  refine ⟨rfl, slot.offset / fmt.size, ?_⟩
  rw [Nat.mul_comm]
  omega

/-- What is written is the ivar exactly if the size is its width and a divisor of its offset, and
the value fits. -/
theorem writes_item_iff {symbol : Symbol} {d : ℤ} (hpos : 0 < symbol.int)
    (hlt : symbol.int + slot.offset < 2 ^ 64) :
    (∀ r : Remote Unit, symbol.setindex d ((slot.offset : ℤ).fdiv d) value r = (.ok (), { r with
        memory := r.memory.store (symbol.plus slot.offset).bits (leBytes slot.width value) })) ↔
      d = slot.width ∧ slot.width ∣ slot.offset ∧ 0 ≤ value ∧ value < 256 ^ slot.width := by
  simp only [setindex_eq_ok_iff]
  constructor
  · intro h
    obtain ⟨fmt, buf, rfl, hpack, -, -⟩ := h ⟨fun _ => 0, 0, ()⟩
    -- the format and the bytes are the same for all memories
    have hstore : ∀ m : Memory, m.store (symbol.plus slot.offset).bits (leBytes slot.width value) =
        m.store (symbol.plus ((slot.offset : ℤ).fdiv fmt.size * fmt.size)).bits buf := by
      intro m
      obtain ⟨fmt', buf', hsize, hpack', -, hr⟩ := h ⟨m, 0, ()⟩
      obtain rfl : fmt = fmt' := Format.size_injective (Int.ofNat_inj.mp hsize)
      obtain rfl : buf = buf' := Except.ok.inj (hpack.symm.trans hpack')
      exact (Remote.mk.inj hr).1
    obtain ⟨hsame, hdvd⟩ := width_of_store hpos hlt (Format.length_of_pack hpack) hstore
    have hfits := (Format.pack_eq_ok_iff.mp hpack).1
    rw [hsame] at hfits ⊢
    exact ⟨rfl, hdvd, hfits⟩
  · rintro ⟨rfl, hdvd, hnonneg, hfits⟩ r
    have hwidth : (slot.width : ℤ) = 1 ∨ (slot.width : ℤ) = 2 ∨ (slot.width : ℤ) = 4 ∨
        (slot.width : ℤ) = 8 := by exact_mod_cast slot.width_mem
    obtain ⟨fmt, hfmt⟩ := exists_format_iff.mpr hwidth
    have hsize : slot.width = fmt.size :=
      Int.ofNat_inj.mp (addressSizeToStructFormat_eq_ok_iff.mp hfmt)
    rw [hsize] at hdvd hfits ⊢
    rw [fdiv_mul, Nat.div_mul_cancel hdvd]
    refine ⟨fmt, _, rfl, Format.pack_of_fits hnonneg hfits, ?_, rfl⟩
    rw [Symbol.int_plus (by omega) hlt]
    omega

/-- The ivar is written exactly if the size that is inferred for it writes it. -/
theorem writes_iff_item {ivar : Ivar} {next' : Option Ivar} (hlayout : w.object.layout = some l)
    (hivar : Darwin.findIvar name l.ivars = some (ivar, next'))
    (hoffset : ivar.offset = slot.offset) :
    w.Writes name value slot ↔ ∃ itemSize d, w.readItemSize = .ok itemSize ∧
      inferredSize itemSize ivar next' = .size d ∧ d ≠ 0 ∧
        ∀ r : Remote Unit, w.object.value.setindex d ((slot.offset : ℤ).fdiv d) value r =
          (.ok (), { r with
            memory := r.memory.store (w.object.value.plus slot.offset).bits
              (leBytes slot.width value) }) := by
  simp only [Wrapper.Writes, setIvar_eq_ok_iff hlayout hivar, hoffset]
  constructor
  · intro h
    obtain ⟨itemSize, d, hread, hsize, hd, -⟩ := h ⟨fun _ => 0, 0, ()⟩
    refine ⟨itemSize, d, hread, hsize, hd, fun r => ?_⟩
    -- the size that is inferred is the same for all memories
    obtain ⟨itemSize', d', hread', hsize', -, hset⟩ := h r
    obtain rfl := Except.ok.inj (hread.symm.trans hread')
    obtain rfl := ItemSize.size.inj (hsize.symm.trans hsize')
    exact hset
  · rintro ⟨itemSize, d, hread, hsize, hd, hset⟩ r
    exact ⟨itemSize, d, hread, hsize, hd, hset r⟩

/-- The inferred size is the width of the slot. -/
theorem infersWidth_iff {ivar : Ivar} {next' : Option Ivar} (hoffset : ivar.offset = slot.offset)
    (hnext : next'.map Ivar.offset = next.map fun n => (n.offset : ℤ)) :
    w.InfersWidth slot next ↔ ∃ itemSize, w.readItemSize = .ok itemSize ∧
      inferredSize itemSize ivar next' = .size slot.width := by
  cases next <;> cases next' <;> simp only [Option.map_some, Option.map_none, reduceCtorEq] at hnext
  · simp [Wrapper.InfersWidth, inferredSize]
  · simp [Wrapper.InfersWidth, inferredSize, Option.some.inj hnext, hoffset]

/-- When a value is written to the slot. -/
theorem writes_iff (hlayout : w.object.layout = some l) (hreported : Reported slots l.ivars)
    (hfind : findSlot name slots = some (slot, next)) (hpos : 0 < w.object.value.int)
    (hlt : w.object.value.int + slot.offset < 2 ^ 64) :
    w.Writes name value slot ↔
      w.InfersWidth slot next ∧ slot.width ∣ slot.offset ∧ 0 ≤ value ∧
        value < 256 ^ slot.width := by
  have hsame := hreported.findIvar name
  rw [hfind] at hsame
  obtain ⟨⟨ivar, next'⟩, hivar, hboth⟩ := Option.map_eq_some_iff.mp hsame
  have hoffset : ivar.offset = slot.offset := (Prod.mk.inj hboth).1
  have hnext : next'.map Ivar.offset = next.map fun n => (n.offset : ℤ) := (Prod.mk.inj hboth).2
  have hwidth := slot.width_mem
  rw [writes_iff_item hlayout hivar hoffset, infersWidth_iff hoffset hnext]
  simp only [writes_item_iff hpos hlt]
  constructor
  · rintro ⟨itemSize, d, hread, hsize, -, rfl, hrest⟩
    exact ⟨⟨itemSize, hread, hsize⟩, hrest⟩
  · rintro ⟨⟨itemSize, hread, hsize⟩, hrest⟩
    exact ⟨itemSize, slot.width, hread, hsize, by omega, rfl, hrest⟩

/-- The server's list, with the values that it has told. -/
theorem reported_addIvarsToDictionary (chain : List (List IvarSlot)) (told : IvarSlot → Symbol) :
    Reported chain.flatten (addIvarsToDictionary chain told) := by
  rw [Reported, addIvarsToDictionary, List.map_map]
  rfl

/-- What `set_ivar` keeps of a value leaves the list as the server has told it. -/
theorem Reported.keepValue (h : Reported slots ivars) :
    Reported slots (keepValue name value ivars) := by
  rw [Reported] at h ⊢
  rw [← h]
  clear h
  induction ivars with
  | nil => rfl
  | cons ivar ivars ih =>
    rw [Darwin.keepValue]
    split
    · rfl
    · rw [List.map_cons, ih, List.map_cons]

/-- A wrapper whose `item_size` has not been set, of an object without a member of that name. -/
def Wrapper.IsFresh (w : Wrapper) : Prop :=
  w.itemSize = none ∧
    ∀ l, w.object.layout = some l → l.hasMember (sanitizeName "item_size".toList) = false

/-- A fresh wrapper has no size to infer from. -/
theorem Wrapper.IsFresh.not_infersWidth (h : w.IsFresh) (hloaded : w.object.layout.isSome) :
    ¬ w.InfersWidth slot next := by
  obtain ⟨l, hlayout⟩ := Option.isSome_iff_exists.mp hloaded
  have hread : w.readItemSize = .error (.attribute "item_size") := by
    rw [readItemSize, h.1]
    simp only [hlayout, h.2 l hlayout, Bool.false_eq_true, if_false]
  cases next with
  | none => simp [InfersWidth, hread]
  | some next => simp [InfersWidth, hread]

/-- An object that is not loaded does not refuse a name. -/
theorem not_refuses_of_not_loaded (hlayout : w.object.layout = none) : ¬ w.Refuses name value := by
  intro h
  obtain ⟨name', className, w', hrun⟩ := h ⟨fun _ => 0, 0, ()⟩
  rw [setIvar, hlayout] at hrun
  cases hrun

theorem refuses_of_no_ivar (hlayout : w.object.layout = some l) (hreported : Reported slots l.ivars)
    (hfind : findSlot name slots = none) : w.Refuses name value := by
  have hsame := hreported.findIvar name
  rw [hfind] at hsame
  have hnone : findIvar name l.ivars = none := Option.map_eq_none_iff.mp hsame
  intro r
  refine ⟨name, l.class_.name, w, ?_⟩
  rw [setIvar]
  simp only [hlayout, hnone]
  rfl

end Layouts

/-- **Setting an ivar.** An ivar is set or refused as it should be exactly if the object is loaded
and either there is no such ivar, or the size that it is taken to have can be read and is its
width and a divisor of its offset, and the value fits. A wrapper without `item_size`, for which
the class has no member either, sets no ivar at all. -/
theorem setsIvar_iff (w : Wrapper) (chain : List (List IvarSlot)) (name : Name) (value : ℤ)
    (hpos : 0 < w.object.value.int)
    (hplace : ∀ slot ∈ chain.flatten, w.object.value.int + slot.offset < 2 ^ 64)
    (hreported : ∀ l, w.object.layout = some l → Reported chain.flatten l.ivars) :
    (SetsIvar w chain.flatten name value ↔
      ∃ l, w.object.layout = some l ∧
        ∀ slot next, findSlot name chain.flatten = some (slot, next) →
          w.InfersWidth slot next ∧ slot.width ∣ slot.offset ∧
            0 ≤ value ∧ value < 256 ^ slot.width) ∧
    (w.IsFresh → (SetsIvar w chain.flatten name value ↔
      ∃ l, w.object.layout = some l ∧ findSlot name chain.flatten = none)) := by
  cases hlayout : w.object.layout with
  | none => simp [SetsIvar, hlayout, not_refuses_of_not_loaded hlayout]
  | some l =>
    have hslots := hreported l hlayout
    cases hfind : findSlot name chain.flatten with
    | none => simp [SetsIvar, hlayout, hfind, refuses_of_no_ivar hlayout hslots hfind]
    | some found =>
      obtain ⟨slot, next⟩ := found
      have hwrites : w.Writes name value slot ↔ w.InfersWidth slot next ∧
          slot.width ∣ slot.offset ∧ 0 ≤ value ∧ value < 256 ^ slot.width :=
        writes_iff hlayout hslots hfind hpos (hplace slot (mem_of_findSlot hfind))
      simp only [SetsIvar, hlayout, hfind, hwrites]
      refine ⟨⟨fun h => ⟨l, rfl, fun slot' next' heq => ?_⟩, ?_⟩, fun hfresh => ?_⟩
      · obtain ⟨rfl, rfl⟩ := Prod.mk.inj (Option.some.inj heq)
        exact h
      · rintro ⟨_, -, h⟩
        exact h slot next rfl
      · simp [hfresh.not_infersWidth (by rw [hlayout]; rfl)]

/-! ## Fresh wrappers -/

/-- The layout of an object with two counters behind its class pointer. -/
def counters : List (List IvarSlot) :=
  [[⟨"_hits".toList, 8, 8, by decide⟩, ⟨"_misses".toList, 16, 8, by decide⟩],
    [⟨"isa".toList, 0, 8, by decide⟩]]

/-- A wrapper of such an object as it is after loading. -/
def freshWrapper : Wrapper :=
  ⟨⟨⟨0x1000⟩, some ⟨addIvarsToDictionary counters fun _ => ⟨0⟩, [],
    .root "Counter".toList ⟨[], ["hits".toList]⟩⟩⟩, none⟩

/-- What is said of a fresh wrapper of three counters. -/
theorem setsIvar_iff_hits :
    (SetsIvar freshWrapper counters.flatten "_hits".toList 7 ↔
      ∃ l, freshWrapper.object.layout = some l ∧
        ∀ slot next, findSlot "_hits".toList counters.flatten = some (slot, next) →
          freshWrapper.InfersWidth slot next ∧ slot.width ∣ slot.offset ∧
            (0 : ℤ) ≤ 7 ∧ (7 : ℤ) < 256 ^ slot.width) ∧
    (freshWrapper.IsFresh → (SetsIvar freshWrapper counters.flatten "_hits".toList 7 ↔
      ∃ l, freshWrapper.object.layout = some l ∧
        findSlot "_hits".toList counters.flatten = none)) :=
  setsIvar_iff freshWrapper counters _ 7 (by decide) (by decide) fun _ h => by
    cases h
    exact reported_addIvarsToDictionary counters _

/-- A wrapper without `item_size` and without a member of that name sets no ivar. -/
theorem fresh_not_setsIvar : ¬ SetsIvar freshWrapper counters.flatten "_hits".toList 7 := by
  intro h
  obtain ⟨w', hrun⟩ := h ⟨fun _ => 0, 0, ()⟩
  have herror : (setIvar "_hits".toList 7 ⟨freshWrapper, (⟨fun _ => 0, 0, ()⟩ : Remote Unit)⟩).1 =
      .error (.attribute "item_size") := by rfl
  rw [hrun] at herror
  cases herror

end RpcProject.Darwin
