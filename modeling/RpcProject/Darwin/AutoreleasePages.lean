/-
# Pages of autorelease pools

The runtime keeps the objects to be released in pages, which are linked in both
directions. Behind its header a page has slots, used up to its `next`: a slot with zero
is the boundary of a pool, any other one holds an object. Only the last page of a chain
may be unused.

The client finds the page of an address by going back from it in steps of eight bytes up
to the magic number of the page, and the first page by the links to parents. It parses
the headers of pages with a package, of which only this much is assumed: the fields of a
structure are read one behind the other, and a stream has to return bytes.
-/

import RpcProject.Client.ItemAccess

namespace RpcProject.Darwin

open Client Foundations Foundations.Effect

/-! ## Walking -/

/-- What a walk through the pages raises. `outOfFuel` is none of the client's exceptions: it
ends a loop whose bound was too small. -/
inductive PoolError
  | access (e : Raised)
  /-- a coroutine where bytes were expected -/
  | type
  | outOfFuel
  deriving DecidableEq, Repr

/-- A walk over the pages, which reads memory and may raise. -/
abbrev Walk (K α : Type) := Effect (Remote K) PoolError α

/-- An access to remote memory on a walk, which passes its exceptions on. -/
def accessing {K α : Type} (m : Access K α) : Walk K α := fun s =>
  match m s with
  | (.ok a, t) => (.ok a, t)
  | (.error e, t) => (.error (.access e), t)

/-- `sizeof()` of the head of a page. -/
def sizeofPageData : ℤ := 0x38

/-- The head of a page, as `construct` returns it. -/
structure AutoreleasePoolPageData where
  m0 : ℕ
  m1 : List Byte
  next : Symbol
  thread : Symbol
  parent : Symbol
  child : Symbol
  depth : ℕ
  hiwat : ℕ
  deriving DecidableEq, Repr

/-- `Int32ul` -/
def int32Field (data : List Byte) (offset : ℕ) : ℕ :=
  ofLE (((data.drop offset).take 4).map UInt8.ofBitVec)

/-- `SymbolFormatField` -/
def symbolField (data : List Byte) (offset : ℕ) : Symbol :=
  .new (ofLE (((data.drop offset).take 8).map UInt8.ofBitVec))

/-- The fields at their offsets. -/
def AutoreleasePoolPageData.ofBytes (data : List Byte) : AutoreleasePoolPageData where
  m0 := int32Field data 0
  m1 := (data.drop 4).take 12
  next := symbolField data 0x10
  thread := symbolField data 0x18
  parent := symbolField data 0x20
  child := symbolField data 0x28
  depth := int32Field data 0x30
  hiwat := int32Field data 0x34

/-- What `read` of a stream returns. -/
inductive Chunk
  | bytes (data : List Byte)
  | coroutine
  deriving DecidableEq, Repr

/-- The package that parses the header of a page, out of bytes or of a stream. -/
structure Construct where
  sizeof : ℕ
  parse : List Byte → Except PoolError AutoreleasePoolPageData
  parseStream : (ℕ → Chunk) → Except PoolError AutoreleasePoolPageData
  sizeof_page : sizeof = 0x38
  /-- the text has to be ASCII -/
  parse_page : ∀ data : List Byte, data.length = 0x38 →
    (∀ b ∈ (data.drop 4).take 12, b.toNat < 128) → parse data = .ok (.ofBytes data)
  /-- a coroutine has no length, which the package asks for -/
  parse_coroutine : ∀ read, (∀ n, read n = .coroutine) → parseStream read = .error .type

/-- A package that asks for no more than that. -/
def Construct.standard : Construct where
  sizeof := 0x38
  parse data := .ok (.ofBytes data)
  parseStream read :=
    match read 0x38 with
    | .bytes data => .ok (.ofBytes data)
    | .coroutine => .error .type
  sizeof_page := rfl
  parse_page _ _ _ := rfl
  parse_coroutine read h := by rw [h 0x38]

/-- `read` of a symbol is a coroutine function. -/
def read (_stream : Symbol) (_count : ℕ) : Chunk := .coroutine

section Client

variable {K : Type} (construct : Construct)

/-- `parse` of a page -/
def parsePage (pageSym : Symbol) : Walk K AutoreleasePoolPageData := do
  let data ← accessing (pageSym.peek construct.sizeof 0)
  Effect.ask fun _ => construct.parse data

/-- The runtime of the process. -/
structure Runtime (K : Type) where
  autoreleasePoolPush : Access K Symbol
  autoreleasePoolPop : Symbol → Access K Unit

/-- `_get_autorelease_pool_end`: a pool is pushed and popped again. -/
def getAutoreleasePoolEnd (runtime : Runtime K) : Walk K Symbol := do
  let endSymbol ← accessing runtime.autoreleasePoolPush
  accessing (runtime.autoreleasePoolPop endSymbol)
  return endSymbol

/-- The first bytes of a page. -/
def pageMagic : List Byte := [0xa1, 0xa1, 0xa1, 0xa1]

/-- The loop of `find_page_for_address`. -/
def findPageLoop : ℕ → Symbol → Walk K Symbol
  | 0, _ => raise .outOfFuel
  | fuel + 1, current => do
      let data ← accessing (current.peek 4 0)
      if data ≠ pageMagic then findPageLoop fuel (current.plus (-8)) else return current

/-- `_find_page_for_address` -/
def findPageForAddress (fuel : ℕ) (address : Symbol) : Walk K Symbol :=
  findPageLoop fuel (address.plus (-sizeofPageData))

/-- `_find_hot_page` -/
def findHotPage (runtime : Runtime K) (fuel : ℕ) : Walk K Symbol := do
  let endSymbol ← getAutoreleasePoolEnd runtime
  findPageForAddress fuel endSymbol

/-- The loop of `find_first_page`. -/
def parentLoop : ℕ → Symbol → AutoreleasePoolPageData → Walk K Symbol
  | 0, _, _ => raise .outOfFuel
  | fuel + 1, pageSym, page =>
      if page.parent.int ≠ 0 then do
        let parentPage ← parsePage construct page.parent
        parentLoop fuel page.parent parentPage
      else return pageSym

/-- `_find_first_page`: from the hot page to its parents. -/
def findFirstPage (runtime : Runtime K) (fuel : ℕ) : Walk K Symbol := do
  let pageSym ← findHotPage runtime fuel
  let page ← parsePage construct pageSym
  parentLoop construct fuel pageSym page

end Client

/-! ## Pages -/

/-- An object to be released, with the number of times in bits that its address leaves. -/
structure Entry where
  bits : BitVec 64
  ne_zero : bits ≠ 0
  aligned : bits.toNat % 8 = 0
  deriving DecidableEq, Repr

/-- A slot of a page: the boundary of a pool, or an entry. -/
inductive Slot
  | boundary
  | entry (entry : Entry)
  deriving DecidableEq, Repr

/-- What the slot holds. -/
def Slot.word : Slot → ℕ
  | boundary => 0
  | entry e => e.bits.toNat

/-- A page of the runtime, with what is behind its head. -/
structure Page where
  address : ℕ
  slots : List Slot
  thread : ℕ
  address_pos : 0 < address
  address_aligned : address % 8 = 0
  fits : address + 0x38 + 8 * slots.length + 8 < 2 ^ 64
  thread_aligned : thread % 8 = 0
  thread_lt : thread < 2 ^ 64
  deriving DecidableEq, Repr

namespace Page

/-- The address of a slot. -/
def slotAddress (p : Page) (i : ℕ) : ℕ := p.address + 0x38 + 8 * i

/-- The address behind the slots that are used. -/
def next (p : Page) : ℕ := p.slotAddress p.slots.length

/-- Two pages lie apart, as far as they are used. -/
def Apart (p q : Page) : Prop := p.next ≤ q.address ∨ q.next ≤ p.address

end Page

/-- Pages that are linked, in the order of the links to children. -/
structure Chain where
  before : List Page
  /-- the last page that is used -/
  hot : Page
  spare : Option Page
  before_used : ∀ p ∈ before, p.slots ≠ []
  hot_used : spare ≠ none → hot.slots ≠ []
  spare_unused : ∀ p ∈ spare, p.slots = []
  apart : (before ++ hot :: spare.toList).Pairwise Page.Apart

namespace Chain

/-- The pages, from the first one on. -/
def pages (chain : Chain) : List Page := chain.before ++ chain.hot :: chain.spare.toList

/-- The slots of all pages. -/
def slots (chain : Chain) : List Slot := chain.pages.flatMap Page.slots

end Chain

/-! ## Pages in memory -/

/-- The word of eight bytes at an address. -/
def wordAt (m : Memory) (a : ℕ) : ℕ := ofLE ((m.load (BitVec.ofNat 64 a) 8).map UInt8.ofBitVec)

/-- The text behind the magic number, "AUTORELEASE!". -/
def pageText : List Byte :=
  [0x41, 0x55, 0x54, 0x4f, 0x52, 0x45, 0x4c, 0x45, 0x41, 0x53, 0x45, 0x21]

/-- The memory holds a page with these links. -/
structure Page.HeldIn (m : Memory) (parent child : ℕ) (p : Page) : Prop where
  magic : m.load (BitVec.ofNat 64 p.address) 4 = pageMagic
  text : m.load (BitVec.ofNat 64 (p.address + 4)) 12 = pageText
  next : wordAt m (p.address + 0x10) = p.next
  thread : wordAt m (p.address + 0x18) = p.thread
  parent : wordAt m (p.address + 0x20) = parent
  child : wordAt m (p.address + 0x28) = child
  depth : m.load (BitVec.ofNat 64 (p.address + 0x30)) 4 ≠ pageMagic
  slots : ∀ i (h : i < p.slots.length), wordAt m (p.slotAddress i) = p.slots[i].word

/-- The address of a page, zero for none. -/
def addressOf (p : Option Page) : ℕ := p.elim 0 Page.address

/-- The memory holds all pages of a chain. -/
def Chain.HeldIn (m : Memory) (chain : Chain) : Prop :=
  ∀ before p after, chain.pages = before ++ p :: after →
    p.HeldIn m (addressOf before.getLast?) (addressOf after.head?)

section Reading

variable {K : Type} {r : Remote K} {m : Memory} {a : ℕ} {offset : ℤ}

theorem bits_new (a : ℕ) : (Symbol.new a).bits = BitVec.ofNat 64 a := BitVec.ofInt_natCast 64 a

theorem int_new_natCast (ha : a < 2 ^ 64) : (Symbol.new a).int = a := by
  rw [Symbol.int, bits_new, BitVec.toNat_ofNat, Nat.mod_eq_of_lt ha]

/-- Symbols of addresses are added as the addresses are. -/
theorem plus_new (ha : a < 2 ^ 64) (offset : ℤ) :
    (Symbol.new a).plus offset = .new (a + offset) := by
  rw [Symbol.plus, int_new_natCast ha]

theorem new_injective {b : ℕ} (ha : a < 2 ^ 64) (hb : b < 2 ^ 64) :
    Symbol.new a = Symbol.new b ↔ a = b := by
  constructor
  · intro hsame
    have hint := congrArg Symbol.int hsame
    rw [int_new_natCast ha, int_new_natCast hb] at hint
    exact_mod_cast hint
  · exact fun hsame => by rw [hsame]

theorem accessing_of_ok {α : Type} {access : Access K α} {x : α} {t : Remote K}
    (hrun : access r = (.ok x, t)) : accessing access r = (.ok x, t) := by
  rw [accessing, hrun]

theorem peek_new (hpos : 0 < a) (ha : a < 2 ^ 64) (n : ℕ) :
    accessing ((Symbol.new a).peek n 0) r = (.ok (r.memory.load (BitVec.ofNat 64 a) n), r) := by
  have hzero : (Symbol.new a).plus 0 = .new a := by rw [plus_new ha, add_zero]
  apply accessing_of_ok
  rw [Symbol.peek, hzero, remotely, peek_of_ne, bits_new]
  rw [int_new_natCast ha]
  omega

theorem getindex_new (hpos : 0 < a) (ha : a < 2 ^ 64) :
    (Symbol.new a).getindex 8 0 [] r = (.ok (.new (wordAt r.memory a)), r) := by
  have hzero : (Symbol.new a).plus (0 * 8) = .new a := by rw [plus_new ha, zero_mul, add_zero]
  have hreach : (Symbol.new a).InReach (Format.size .Q) 0 := by
    rw [Symbol.InReach, int_new_natCast ha]
    omega
  rw [show (8 : ℤ) = Format.size .Q from rfl, Symbol.getindex_of_inReach hreach]
  have hsize : ((Format.size .Q : ℕ) : ℤ) = 8 := rfl
  rw [Symbol.itemAt, Symbol.itemAddress, hsize, hzero, bits_new]
  rfl

/-- A part of the bytes that are loaded. -/
theorem load_part (m : Memory) (a : ℕ) {k n total : ℕ} (hle : k + n ≤ total) :
    ((m.load (BitVec.ofNat 64 a) total).drop k).take n = m.load (BitVec.ofNat 64 (a + k)) n := by
  apply List.ext_getElem
  · simp only [Memory.load, List.length_take, List.length_drop, List.length_map, List.length_range]
    omega
  · intro i hi hi'
    simp only [Memory.load, List.getElem_take, List.getElem_drop, List.getElem_map,
      List.getElem_range]
    rw [BitVec.ofNat_add, BitVec.ofNat_add, BitVec.add_assoc]

/-- A field of a loaded head is the word at its offset. -/
theorem symbolField_load (m : Memory) (a : ℕ) {k : ℕ} (hle : k + 8 ≤ 0x38) :
    symbolField (m.load (BitVec.ofNat 64 a) 0x38) k = .new (wordAt m (a + k)) := by
  rw [symbolField, load_part m a hle, wordAt]

/-- A word that begins with the magic number is odd. -/
theorem word_of_magic (hmagic : m.load (BitVec.ofNat 64 a) 4 = pageMagic) : wordAt m a % 8 = 1 := by
  have hsplit : m.load (BitVec.ofNat 64 a) 8 =
      pageMagic ++ (m.load (BitVec.ofNat 64 a) 8).drop 4 := by
    have hfirst := load_part m a (show 0 + 4 ≤ 8 by omega)
    rw [List.drop_zero, Nat.add_zero, hmagic] at hfirst
    rw [← hfirst, List.take_append_drop]
  have hvalue : ofLE (pageMagic.map UInt8.ofBitVec) = 0xa1a1a1a1 := by decide
  rw [wordAt, hsplit, List.map_append, ofLE_append, hvalue]
  have hlength : (pageMagic.map UInt8.ofBitVec).length = 4 := rfl
  rw [hlength]
  omega

end Reading

section Pages

variable {K : Type} {construct : Construct} {r : Remote K} {m : Memory} {p : Page}
  {parent child : ℕ}

theorem Slot.word_mod (slot : Slot) : slot.word % 8 = 0 := by
  cases slot with
  | boundary => rfl
  | entry e => exact e.aligned

theorem Slot.word_lt (slot : Slot) : slot.word < 2 ^ 64 := by
  cases slot with
  | boundary => exact Nat.two_pow_pos 64
  | entry e => exact e.bits.isLt

theorem Page.slotAddress_lt (p : Page) {i : ℕ} (hi : i ≤ p.slots.length) :
    0 < p.slotAddress i ∧ p.slotAddress i + 8 < 2 ^ 64 := by
  have hfits := p.fits
  rw [Page.slotAddress]
  omega

theorem Page.next_lt (p : Page) : p.next < 2 ^ 64 := by
  have := (p.slotAddress_lt (Nat.le_refl _)).2
  rw [Page.next]
  omega

/-- The text behind the magic number is none. -/
theorem Page.HeldIn.text_not_magic (hheld : p.HeldIn m parent child) :
    m.load (BitVec.ofNat 64 (p.address + 8)) 4 ≠ pageMagic := by
  have htext := load_part m (p.address + 4) (show 4 + 4 ≤ 12 by omega)
  rw [hheld.text, Nat.add_assoc] at htext
  rw [← htext]
  decide

/-- No slot looks like the head of a page. -/
theorem Page.HeldIn.slot_not_magic (hheld : p.HeldIn m parent child) {i : ℕ}
    (hi : i < p.slots.length) : m.load (BitVec.ofNat 64 (p.slotAddress i)) 4 ≠ pageMagic := by
  intro hmagic
  have hword := word_of_magic hmagic
  rw [hheld.slots i hi, Slot.word_mod] at hword
  contradiction

/-- Behind the start of a page, no word up to its used slots looks like the start of a page. -/
theorem Page.HeldIn.not_magic (hheld : p.HeldIn m parent child) (hparent : parent % 8 = 0)
    (hchild : child % 8 = 0) {k : ℕ} (hpos : 0 < k) (hk : k < 7 + p.slots.length) :
    m.load (BitVec.ofNat 64 (p.address + 8 * k)) 4 ≠ pageMagic := by
  intro hmagic
  have hword := word_of_magic hmagic
  have haligned := p.address_aligned
  -- the words of the header one by one, and then the slots
  rcases (by omega : k = 1 ∨ k = 2 ∨ k = 3 ∨ k = 4 ∨ k = 5 ∨ k = 6 ∨ 7 ≤ k) with
    rfl | rfl | rfl | rfl | rfl | rfl | hslot
  · exact hheld.text_not_magic hmagic
  · simp only [Nat.reduceMul, hheld.next, Page.next, Page.slotAddress] at hword
    omega
  · simp only [Nat.reduceMul, hheld.thread, p.thread_aligned] at hword
    omega
  · simp only [Nat.reduceMul, hheld.parent] at hword
    omega
  · simp only [Nat.reduceMul, hheld.child] at hword
    omega
  · exact hheld.depth hmagic
  · obtain ⟨i, rfl⟩ := Nat.exists_eq_add_of_le' hslot
    have haddress : p.address + 8 * (i + 7) = p.slotAddress i := by
      rw [Page.slotAddress]
      omega
    rw [haddress] at hmagic
    exact hheld.slot_not_magic (by omega) hmagic

/-- The head of a page in memory is read. -/
theorem parsePage_of_heldIn (hheld : p.HeldIn r.memory parent child) :
    ∃ page, (parsePage construct (.new p.address) : Walk K _) r = (.ok page, r) ∧
      page.next = .new p.next ∧ page.parent = .new parent ∧ page.child = .new child := by
  have hfits := p.fits
  have hparse : construct.parse (r.memory.load (BitVec.ofNat 64 p.address) 0x38) =
      .ok (.ofBytes (r.memory.load (BitVec.ofNat 64 p.address) 0x38)) := by
    apply construct.parse_page
    · simp [Memory.load]
    · rw [load_part r.memory p.address (by omega), hheld.text]
      decide
  refine ⟨.ofBytes (r.memory.load (BitVec.ofNat 64 p.address) 0x38), ?_, ?_, ?_, ?_⟩
  · rw [parsePage, construct.sizeof_page, bind_of_ok (peek_new p.address_pos (by omega) 0x38),
        hparse]
    rfl
  · exact (symbolField_load r.memory p.address (by omega)).trans (by rw [hheld.next])
  · exact (symbolField_load r.memory p.address (by omega)).trans (by rw [hheld.parent])
  · exact (symbolField_load r.memory p.address (by omega)).trans (by rw [hheld.child])

/-! ## Finding pages -/

/-- The search backwards ends at the start of the page. -/
theorem findPageLoop_settles (hheld : p.HeldIn r.memory parent child) (hparent : parent % 8 = 0)
    (hchild : child % 8 = 0) {k : ℕ} (hk : k < 7 + p.slots.length) :
    Settles (fun fuel => (findPageLoop fuel (.new (p.address + 8 * k : ℕ)) : Walk K Symbol)) r
      (.ok (.new p.address), r) := by
  have hfits := p.fits
  have hpos := p.address_pos
  induction k with
  | zero =>
    have hpeek := peek_new (K := K) (r := r) hpos (by omega) 4
    rw [hheld.magic] at hpeek
    refine Settles.succ (Settles.bind_const hpeek ?_)
    simp only [ne_eq, not_true, if_false]
    exact settles_const _ r
  | succ k ih =>
    have hpeek := peek_new (K := K) (r := r) (a := p.address + 8 * (k + 1)) (by omega) (by omega) 4
    refine Settles.succ (Settles.bind_const hpeek ?_)
    have hback : (Symbol.new (p.address + 8 * (k + 1) : ℕ)).plus (-8) =
        .new (p.address + 8 * k : ℕ) := by
      rw [plus_new (by omega)]
      congr 1
      omega
    simp only [if_pos (hheld.not_magic hparent hchild (Nat.succ_pos k) hk), hback]
    exact ih (by omega)

/-- The page of a slot, or of the first free one, is found. -/
theorem findPageForAddress_settles (hheld : p.HeldIn r.memory parent child)
    (hparent : parent % 8 = 0) (hchild : child % 8 = 0) {i : ℕ} (hi : i ≤ p.slots.length) :
    Settles (fun fuel => (findPageForAddress fuel (.new (p.slotAddress i)) : Walk K Symbol)) r
      (.ok (.new p.address), r) := by
  have hslot := p.slotAddress_lt hi
  have hback : (Symbol.new (p.slotAddress i)).plus (-sizeofPageData) =
      .new (p.address + 8 * i : ℕ) := by
    rw [plus_new (by omega), sizeofPageData, Page.slotAddress]
    congr 1
    omega
  simp only [findPageForAddress, hback]
  exact findPageLoop_settles hheld hparent hchild (by omega)

end Pages

/-! ## Chains in memory -/

section Chains

variable {K : Type} {construct : Construct} {runtime : Runtime K} {r r' : Remote K}
  {chain : Chain} {p : Page} {before after : List Page}

theorem addressOf_mod (p : Option Page) : addressOf p % 8 = 0 := by
  cases p with
  | none => rfl
  | some p => exact p.address_aligned

theorem addressOf_lt (p : Option Page) : addressOf p < 2 ^ 64 := by
  cases p with
  | none => exact Nat.two_pow_pos 64
  | some p =>
    have := p.fits
    rw [addressOf, Option.elim]
    omega

/-- A push that is popped again settles a chain: it returns the first free slot of the last
page that is used, where a page may have been added or taken away behind it, and leaves the
memory in a state where one more push and its pop return the same and change nothing. -/
structure Marks (runtime : Runtime K) (r : Remote K) (chain : Chain) (r' : Remote K)
    (settled : Chain) : Prop where
  held : chain.HeldIn r.memory
  settled_held : settled.HeldIn r'.memory
  slots : settled.slots = chain.slots
  first : getAutoreleasePoolEnd runtime r = (.ok (.new settled.hot.next), r')
  again : getAutoreleasePoolEnd runtime r' = (.ok (.new settled.hot.next), r')

/-- The links to parents lead to the first page. -/
theorem parentLoop_settles {first : Page} (hfirst : chain.pages.head? = some first)
    (hheld : chain.HeldIn r.memory) (hpages : chain.pages = before ++ p :: after)
    {page : AutoreleasePoolPageData} (hparent : page.parent = .new (addressOf before.getLast?)) :
    Settles (fun fuel => (parentLoop construct fuel (.new p.address) page : Walk K Symbol)) r
      (.ok (.new first.address), r) := by
  induction before using List.reverseRecOn generalizing p after page with
  | nil =>
    rw [hpages] at hfirst
    obtain rfl : p = first := Option.some.inj hfirst
    apply Settles.succ
    have hzero : page.parent.int = 0 := by
      rw [hparent]
      rfl
    simp only [parentLoop, hzero, ne_eq, not_true, if_false]
    exact settles_const _ r
  | append_singleton before q ih =>
    rw [List.getLast?_concat] at hparent
    have hpages' : chain.pages = before ++ q :: (p :: after) := by
      rw [hpages, List.append_assoc, List.singleton_append]
    obtain ⟨page', hparse, -, hparent', -⟩ := parsePage_of_heldIn (hheld before q _ hpages')
    have hne : page.parent.int ≠ 0 := by
      rw [hparent, int_new_natCast (addressOf_lt _)]
      exact_mod_cast q.address_pos.ne'
    apply Settles.succ
    simp only [parentLoop, if_pos hne]
    rw [hparent]
    exact Settles.bind_const hparse (ih hpages' hparent')

/-- The walk to the first page ends there. -/
theorem findFirstPage_settles {first : Page} (hfirst : chain.pages.head? = some first)
    (hmark : getAutoreleasePoolEnd runtime r = (.ok (.new chain.hot.next), r'))
    (hheld : chain.HeldIn r'.memory) :
    Settles (findFirstPage construct runtime) r (.ok (.new first.address), r') := by
  have hhot := hheld chain.before chain.hot chain.spare.toList rfl
  obtain ⟨page, hparse, -, hparent, -⟩ := parsePage_of_heldIn hhot
  refine Settles.bind (Settles.bind_const hmark ?_) (Settles.bind_const hparse ?_)
  · exact findPageForAddress_settles hhot (addressOf_mod _) (addressOf_mod _) (Nat.le_refl _)
  · exact parentLoop_settles hfirst hheld rfl hparent

end Chains

/-! ## Writing pages -/

/-- The bytes of a word. -/
def wordBytes (word : ℕ) : List Byte := (toLE 8 word).map UInt8.toBitVec

/-- The words of a page behind its magic number and text. -/
def Page.words (parent child : ℕ) (p : Page) : List ℕ :=
  [p.next, p.thread, parent, child, 0] ++ p.slots.map Slot.word

/-- The bytes of a page. -/
def Page.bytes (parent child : ℕ) (p : Page) : List Byte :=
  pageMagic ++ pageText ++ (p.words parent child).flatMap wordBytes

/-- Pages with the links between them. -/
def writePages (parent : ℕ) : List Page → Memory → Memory
  | [], m => m
  | p :: rest, m => (writePages p.address rest m).store (BitVec.ofNat 64 p.address)
      (p.bytes parent (addressOf rest.head?))

section Writing

variable {m : Memory} {p q : Page} {parent child : ℕ} {words : List ℕ} {word : ℕ}

theorem length_wordBytes (word : ℕ) : (wordBytes word).length = 8 := by
  rw [wordBytes, List.length_map, toLE_length]

theorem ofLE_wordBytes (hlt : word < 2 ^ 64) :
    ofLE ((wordBytes word).map UInt8.ofBitVec) = word := by
  have hsame : (wordBytes word).map UInt8.ofBitVec = toLE 8 word := by
    rw [wordBytes, List.map_map]
    exact List.map_id _
  rw [hsame, ofLE_toLE (by omega)]

theorem length_flatMap_wordBytes (words : List ℕ) :
    (words.flatMap wordBytes).length = 8 * words.length := by
  induction words with
  | nil => rfl
  | cons word words ih =>
    rw [List.flatMap_cons, List.length_append, length_wordBytes, ih, List.length_cons]
    omega

/-- The bytes of one word of a list. -/
theorem take_drop_flatMap {j : ℕ} (hj : j < words.length) :
    ((words.flatMap wordBytes).drop (8 * j)).take 8 = wordBytes words[j] := by
  induction words generalizing j with
  | nil => cases hj
  | cons word words ih =>
    rw [List.flatMap_cons]
    cases j with
    | zero => rw [Nat.mul_zero, List.drop_zero, List.take_left' (length_wordBytes word)]; rfl
    | succ j =>
      have hdrop : (wordBytes word ++ words.flatMap wordBytes).drop (8 * (j + 1)) =
          (words.flatMap wordBytes).drop (8 * j) := by
        rw [List.drop_append, length_wordBytes, List.drop_eq_nil_of_le, List.nil_append]
        · congr 1
        · rw [length_wordBytes]
          omega
      rw [hdrop, ih (by simpa using hj)]
      rfl

/-- A page holds its head and its slots. -/
theorem length_words (p : Page) (parent child : ℕ) :
    (p.words parent child).length = 5 + p.slots.length := by
  rw [Page.words, List.length_append, List.length_map]
  rfl

theorem length_bytes (p : Page) (parent child : ℕ) :
    (p.bytes parent child).length = 0x38 + 8 * p.slots.length := by
  have hstart : (pageMagic ++ pageText).length = 0x10 := rfl
  rw [Page.bytes, List.length_append, hstart, length_flatMap_wordBytes, length_words]
  omega

/-- What is read of the bytes of a page that is stored. -/
theorem load_bytes (m : Memory) (p : Page) (parent child : ℕ) {k n : ℕ}
    (hle : k + n ≤ 0x38 + 8 * p.slots.length) :
    (m.store (BitVec.ofNat 64 p.address) (p.bytes parent child)).load
        (BitVec.ofNat 64 (p.address + k)) n = ((p.bytes parent child).drop k).take n := by
  have hfits := p.fits
  rw [BitVec.ofNat_add]
  apply Memory.load_store_add <;> rw [length_bytes] <;> omega

/-- A page that is written can be read back. -/
theorem wordAt_bytes (m : Memory) {j k : ℕ} (hword : (p.words parent child)[j]? = some word)
    (hlt : word < 2 ^ 64) (hk : k = 0x10 + 8 * j) :
    wordAt (m.store (BitVec.ofNat 64 p.address) (p.bytes parent child)) (p.address + k) = word := by
  obtain ⟨hj, rfl⟩ := List.getElem?_eq_some_iff.mp hword
  have hlength := length_words p parent child
  have hstart : (p.bytes parent child).drop 0x10 = (p.words parent child).flatMap wordBytes :=
    List.drop_left' rfl
  have hbytes : ((p.bytes parent child).drop k).take 8 = wordBytes (p.words parent child)[j] := by
    rw [hk, ← List.drop_drop, hstart, take_drop_flatMap hj]
  rw [wordAt, load_bytes m p parent child (by omega), hbytes, ofLE_wordBytes hlt]

/-- A page that is written is held. -/
theorem heldIn_store (m : Memory) (p : Page) (hparent : parent < 2 ^ 64) (hchild : child < 2 ^ 64) :
    p.HeldIn (m.store (BitVec.ofNat 64 p.address) (p.bytes parent child)) parent child where
  magic := by
    have hload := load_bytes m p parent child (k := 0) (n := 4) (by omega)
    rw [Nat.add_zero] at hload
    rw [hload]
    rfl
  text := by
    rw [load_bytes m p parent child (by omega)]
    rfl
  next := wordAt_bytes m (j := 0) rfl p.next_lt rfl
  thread := wordAt_bytes m (j := 1) rfl p.thread_lt rfl
  parent := wordAt_bytes m (j := 2) rfl hparent rfl
  child := wordAt_bytes m (j := 3) rfl hchild rfl
  depth := by
    rw [load_bytes m p parent child (by omega)]
    exact (by decide : (wordBytes 0).take 4 ≠ pageMagic)
  slots i hi := by
    have hword : (p.words parent child)[i + 5]? = some p.slots[i].word := by
      simp [Page.words, hi]
    rw [Page.slotAddress, Nat.add_assoc]
    exact wordAt_bytes m hword (Slot.word_lt _) (by omega)

/-- A part of a block is loaded as before after a store apart from the block. -/
theorem load_part_store {a total : ℕ} {b : Address} {bytes : List Byte}
    (hapart : Memory.Apart (BitVec.ofNat 64 a) total b bytes.length) {k n : ℕ}
    (hle : k + n ≤ total) :
    (m.store b bytes).load (BitVec.ofNat 64 (a + k)) n = m.load (BitVec.ofNat 64 (a + k)) n := by
  apply Memory.load_store_of_apart
  intro c hc
  apply hapart
  rw [Memory.InRange, BitVec.ofNat_add] at hc
  rw [Memory.InRange]
  bv_omega

/-- A page that is held is not affected by a store apart from it. -/
theorem Page.HeldIn.store {b : Address} {bytes : List Byte} (hheld : p.HeldIn m parent child)
    (hapart : Memory.Apart (BitVec.ofNat 64 p.address) (0x38 + 8 * p.slots.length) b bytes.length) :
    p.HeldIn (m.store b bytes) parent child := by
  have hword : ∀ k, k + 8 ≤ 0x38 + 8 * p.slots.length →
      wordAt (m.store b bytes) (p.address + k) = wordAt m (p.address + k) := by
    intro k hle
    rw [wordAt, load_part_store hapart hle, wordAt]
  have hmagic := load_part_store (m := m) hapart (show 0 + 4 ≤ 0x38 + 8 * p.slots.length by omega)
  rw [Nat.add_zero] at hmagic
  exact {
    magic := hmagic.trans hheld.magic
    text := (load_part_store hapart (by omega)).trans hheld.text
    next := (hword 0x10 (by omega)).trans hheld.next
    thread := (hword 0x18 (by omega)).trans hheld.thread
    parent := (hword 0x20 (by omega)).trans hheld.parent
    child := (hword 0x28 (by omega)).trans hheld.child
    depth := by
      rw [load_part_store hapart (by omega)]
      exact hheld.depth
    slots := fun i hi => by
      have hslot := hheld.slots i hi
      rw [Page.slotAddress, Nat.add_assoc] at hslot ⊢
      rw [hword _ (by omega), hslot] }

/-- Pages apart from each other occupy memory apart from each other. -/
theorem Page.Apart.memory (hapart : p.Apart q) (parent child : ℕ) :
    Memory.Apart (BitVec.ofNat 64 q.address) (0x38 + 8 * q.slots.length)
      (BitVec.ofNat 64 p.address) (p.bytes parent child).length := by
  have hfits := p.fits
  have hfits' := q.fits
  rw [Page.Apart, Page.next, Page.next, Page.slotAddress, Page.slotAddress] at hapart
  rw [length_bytes]
  intro c hc hc'
  rw [Memory.InRange, BitVec.toNat_sub, BitVec.toNat_ofNat] at hc hc'
  have := c.isLt
  omega

/-- All pages that are written are held, with the links between them. -/
theorem heldIn_writePages (m : Memory) {pages before after : List Page}
    (hapart : pages.Pairwise Page.Apart) (hparent : parent < 2 ^ 64)
    (hpages : pages = before ++ p :: after) :
    p.HeldIn (writePages parent pages m) (before.getLast?.elim parent Page.address)
      (addressOf after.head?) := by
  induction pages generalizing parent before with
  | nil => cases before <;> cases hpages
  | cons first rest ih =>
    obtain ⟨hfirst, hrest⟩ := List.pairwise_cons.mp hapart
    cases before with
    | nil =>
      obtain ⟨rfl, rfl⟩ := List.cons.inj hpages
      exact heldIn_store _ first hparent (addressOf_lt _)
    | cons first' before =>
      obtain ⟨rfl, rfl⟩ := List.cons.inj hpages
      have hfits := first.fits
      have hheld := ih hrest (by omega : first.address < 2 ^ 64) rfl
      have hlast : (first :: before).getLast?.elim parent Page.address =
          before.getLast?.elim first.address Page.address := by
        rw [List.getLast?_cons]
        cases before.getLast? <;> rfl
      rw [hlast, writePages]
      exact hheld.store ((hfirst p (by simp)).memory _ _)

/-- Every chain is held in some memory. -/
theorem Chain.heldIn_writePages (m : Memory) (chain : Chain) :
    chain.HeldIn (writePages 0 chain.pages m) := fun _ _ _ hpages =>
  Darwin.heldIn_writePages m chain.apart (Nat.two_pow_pos 64) hpages

end Writing

/-- A process whose memory holds a chain and, in the free slots, what a marker leaves there. -/
def Chain.remote (chain : Chain) : Remote Unit :=
  ⟨writePages 0 chain.pages fun _ => 0xa3, 0, ()⟩

/-- A runtime at work on that process. The marker is gone again when it has been popped. -/
def Chain.runtime (chain : Chain) : Runtime Unit :=
  ⟨pure (.new chain.hot.next), fun _ => pure ()⟩

/-- The memory to which a chain is written holds it. -/
theorem Chain.marks_remote (chain : Chain) :
    Marks chain.runtime chain.remote chain chain.remote chain where
  held := chain.heldIn_writePages _
  settled_held := chain.heldIn_writePages _
  slots := rfl
  first := rfl
  again := rfl

end RpcProject.Darwin
