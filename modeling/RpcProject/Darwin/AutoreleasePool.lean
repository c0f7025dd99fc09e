/-
# Autorelease pools

A pool reaches from its boundary up to the next one, or up to the end of the used slots,
and may go on in the next page. The client reads the pools one after the other, from the
first slot of the first page on, until a pool ends where the next object would be put.

Where a pool goes on in the next page, the client parses that page out of the address
itself as if it were a stream. Its `read` is a coroutine function, so that the parser gets
a coroutine in place of bytes. So the pools are read exactly where a chain has only one
page, and this begins with a boundary.
-/

import RpcProject.Darwin.AutoreleasePages

namespace RpcProject.Darwin

open Client Foundations Foundations.Effect

/-! ## The client -/

/-- A pool: where it starts, its entries, and where it ends. -/
structure AutoreleasePool where
  address : Symbol
  data : List Symbol
  endSymbol : Symbol
  mask : Symbol
  deriving DecidableEq, Repr

/-- `self & other` -/
def symbolAnd (s other : Symbol) : Symbol := ⟨s.bits &&& other.bits⟩

/-- The values that end a pool. -/
def endValues : List ℤ := [0, 0xA3A3A3A3, 0xA3A3A3A3A3A3A3A3]

section Client

variable {K : Type} (construct : Construct)

/-- `parse_stream` on a symbol. What `read` returns is not awaited. -/
def parseStream (stream : Symbol) : Walk K AutoreleasePoolPageData :=
  Effect.ask fun _ => construct.parseStream (read stream)

/-- What is read from a stream is a coroutine, and no bytes. -/
theorem parseStream_eq (stream : Symbol) :
    (parseStream construct stream : Walk K _) = raise .type :=
  funext fun r => congrArg (·, r) (construct.parse_coroutine (read stream) fun _ => rfl)

/-- The loop of `refresh`. -/
def refreshLoop (mask : Symbol) :
    ℕ → AutoreleasePoolPageData → Symbol → List Symbol → Walk K (List Symbol × Symbol)
  | 0, _, _, _ => raise .outOfFuel
  | fuel + 1, page, nextAddress, data => do
      let value ← accessing (nextAddress.getindex 8 0 [])
      if value.cInt64 ∉ endValues ∨ nextAddress = page.next then
        if nextAddress = page.next then
          if page.child.int = 0 then return (data, nextAddress)
          else do
            let childPage ← parseStream construct page.child
            refreshLoop mask fuel childPage (page.child.plus sizeofPageData) data
        else do
          let value ← accessing (nextAddress.getindex 8 0 [])
          refreshLoop mask fuel page (nextAddress.plus 8) (data ++ [symbolAnd value mask])
      else return (data, nextAddress)

variable (runtime : Runtime K)

/-- `refresh`: the entries from the boundary of the pool to the next one. -/
def refresh (fuel : ℕ) (address mask : Symbol) : Walk K AutoreleasePool := do
  -- to solve autorelease pool bug
  let _ ← getAutoreleasePoolEnd runtime
  let pageSym ← findPageForAddress fuel address
  let page ← parsePage construct pageSym
  let (data, endSymbol) ← refreshLoop construct mask fuel page (address.plus 8) []
  return ⟨address, data, endSymbol, mask⟩

variable (ptrMask : Symbol)

/-- `AutoreleasePool.create`, with the address of `objc_debug_autoreleasepoolpage_ptr_mask` -/
def createPool (fuel : ℕ) (address : Symbol) : Walk K AutoreleasePool := do
  let mask ← accessing (ptrMask.getindex 8 0 [])
  refresh construct runtime fuel address mask

/-- The loop of `get_autorelease_pools`. -/
def poolsLoop (endSymbol : Symbol) :
    ℕ → List AutoreleasePool → AutoreleasePool → Walk K (List AutoreleasePool)
  | 0, _, _ => raise .outOfFuel
  | fuel + 1, pools, pool =>
      if pool.endSymbol ≠ endSymbol then do
        let pool ← createPool construct runtime ptrMask fuel pool.endSymbol
        poolsLoop endSymbol fuel (pools ++ [pool]) pool
      else return pools

/-- `get_autorelease_pools` -/
def getAutoreleasePools (fuel : ℕ) : Walk K (List AutoreleasePool) := do
  let endSymbol ← getAutoreleasePoolEnd runtime
  let pageSym ← findFirstPage construct runtime fuel
  let pool ← createPool construct runtime ptrMask fuel (pageSym.plus sizeofPageData)
  poolsLoop construct runtime ptrMask endSymbol fuel [pool] pool

end Client

/-! ## Pools in slots -/

/-- The objects up to the next boundary. -/
def leading : List Slot → List Entry
  | .entry e :: rest => e :: leading rest
  | _ => []

/-- What is left from the next boundary on. -/
def behind : List Slot → List Slot
  | .entry _ :: rest => behind rest
  | rest => rest

/-- The object of an entry, without the bits that are no part of its address. -/
def Entry.masked (mask : Symbol) (e : Entry) : Symbol := symbolAnd ⟨e.bits⟩ mask

/-- The objects of each pool, from its boundary on. -/
def poolsOf (mask : Symbol) : List Slot → List (List Symbol)
  | [] => []
  | .boundary :: rest => (leading rest).map (Entry.masked mask) :: poolsOf mask rest
  | .entry _ :: rest => poolsOf mask rest

section Slots

variable {slots rest : List Slot} {mask : Symbol}

/-- The entries of a pool and what comes behind them. -/
theorem leading_append_behind (slots : List Slot) :
    (leading slots).map .entry ++ behind slots = slots := by
  induction slots with
  | nil => rfl
  | cons slot rest ih =>
    cases slot with
    | boundary => rfl
    | entry e =>
      rw [leading, behind, List.map_cons, List.cons_append, ih]

/-- Behind the entries there is the end or a boundary. -/
theorem behind_cases (slots : List Slot) :
    behind slots = [] ∨ ∃ rest, behind slots = .boundary :: rest := by
  induction slots with
  | nil => exact Or.inl rfl
  | cons slot rest ih =>
    cases slot with
    | boundary => exact Or.inr ⟨rest, rfl⟩
    | entry e => exact ih

/-- Entries before the first boundary make no pool. -/
theorem poolsOf_behind (mask : Symbol) (slots : List Slot) :
    poolsOf mask (behind slots) = poolsOf mask slots := by
  induction slots with
  | nil => rfl
  | cons slot rest ih =>
    cases slot with
    | boundary => rfl
    | entry e => exact ih

theorem length_behind_le (slots : List Slot) : (behind slots).length ≤ slots.length := by
  induction slots with
  | nil => exact Nat.le_refl 0
  | cons slot rest ih =>
    cases slot with
    | boundary => exact Nat.le_refl _
    | entry e => exact Nat.le_succ_of_le ih

/-- The slots up to the boundary behind a pool. -/
def upTo (done : List Slot) (slot : Slot) (rest : List Slot) : List Slot :=
  done ++ slot :: (leading rest).map .entry

theorem length_upTo (done : List Slot) (slot : Slot) (rest : List Slot) :
    (upTo done slot rest).length = done.length + 1 + (leading rest).length := by
  rw [upTo, List.length_append, List.length_cons, List.length_map, Nat.add_assoc, Nat.add_comm 1]

theorem upTo_append_behind (done : List Slot) (slot : Slot) (rest : List Slot) :
    upTo done slot rest ++ behind rest = done ++ slot :: rest := by
  rw [upTo, List.append_assoc, List.cons_append, leading_append_behind]

/-- The next pool begins where the slots up to it end. -/
theorem eq_upTo_append {done rest' : List Slot} {slot : Slot}
    (hslots : slots = done ++ slot :: rest)
    (hbehind : behind rest = .boundary :: rest') :
    slots = upTo done slot rest ++ .boundary :: rest' := by
  rw [← hbehind, upTo_append_behind, hslots]

theorem length_lt_of_behind {rest' : List Slot} (hbehind : behind rest = .boundary :: rest') :
    rest'.length < rest.length := by
  have hle := length_behind_le rest
  rw [hbehind, List.length_cons] at hle
  exact hle

end Slots

/-! ## Reading one pool -/

section Reading

variable {K : Type} {construct : Construct} {r : Remote K} {p : Page} {parent child : ℕ}
  {mask : Symbol}
  {page : AutoreleasePoolPageData} {data : List Symbol} {done rest : List Slot} {slot : Slot}
  {result : Except PoolError (List Symbol × Symbol) × Remote K}

/-- No object has a value that ends a pool. -/
theorem cInt64_entry_notMem (e : Entry) : (Symbol.mk e.bits).cInt64 ∉ endValues := by
  have haligned := e.aligned
  have hlt : (Symbol.mk e.bits).cInt64 < 2 ^ 63 := Symbol.cInt64_lt _
  have hne : e.bits.toNat ≠ 0 := fun hzero => e.ne_zero (BitVec.eq_of_toNat_eq hzero)
  rw [Symbol.cInt64, BitVec.toInt_eq_toNat_cond] at hlt ⊢
  simp only [endValues, List.mem_cons, List.not_mem_nil, or_false]
  split at hlt <;> omega

/-- A slot of a page in memory is read. -/
theorem getindex_slot (hheld : p.HeldIn r.memory parent child)
    (hslots : p.slots = done ++ slot :: rest) :
    accessing ((Symbol.new (p.slotAddress done.length)).getindex 8 0 []) r =
      (.ok (.new slot.word), r) := by
  have hlt : done.length < p.slots.length := by simp [hslots]
  have hslot := p.slotAddress_lt hlt.le
  rw [accessing_of_ok (getindex_new (by omega) (by omega)), hheld.slots _ hlt]
  simp [hslots]

theorem slot_ne_next (hslots : p.slots = done ++ slot :: rest) :
    Symbol.new (p.slotAddress done.length) ≠ .new p.next := by
  have hlt : done.length < p.slots.length := by simp [hslots]
  have hslot := p.slotAddress_lt hlt.le
  have hnext := p.next_lt
  intro hsame
  rw [new_injective (by omega) hnext] at hsame
  rw [Page.next, Page.slotAddress, Page.slotAddress] at hsame
  omega

theorem new_word (e : Entry) : Symbol.new (Slot.entry e).word = ⟨e.bits⟩ := by
  have hbits : (Symbol.new (Slot.entry e).word).bits = e.bits := by
    rw [bits_new, Slot.word, BitVec.ofNat_toNat, BitVec.setWidth_eq]
  exact congrArg Symbol.mk hbits

theorem slotAddress_succ (hi : done.length < p.slots.length) :
    (Symbol.new (p.slotAddress done.length)).plus 8 = .new (p.slotAddress (done.length + 1)) := by
  have hslot := p.slotAddress_lt hi.le
  rw [plus_new (by omega), Page.slotAddress, Page.slotAddress]
  congr 1

/-- One round at an object. -/
theorem refreshLoop_entry (hheld : p.HeldIn r.memory parent child) {e : Entry}
    (hslots : p.slots = done ++ .entry e :: rest) (hnext : page.next = .new p.next)
    (hrest : Settles (fun fuel => (refreshLoop construct mask fuel page
      (.new (p.slotAddress (done.length + 1))) (data ++ [e.masked mask]) : Walk K _)) r result) :
    Settles (fun fuel =>
        (refreshLoop construct mask fuel page (.new (p.slotAddress done.length)) data :
      Walk K _)) r result := by
  have hread := getindex_slot hheld hslots
  have hne := slot_ne_next hslots
  have hlt : done.length < p.slots.length := by simp [hslots]
  rw [new_word] at hread
  refine Settles.succ (Settles.bind_const hread ?_)
  simp only [cInt64_entry_notMem, not_false_iff, true_or, if_true, hnext, hne, if_false,
    slotAddress_succ hlt]
  exact Settles.bind_const hread hrest

/-- The objects up to a slot are read one after the other. -/
theorem refreshLoop_entries (hheld : p.HeldIn r.memory parent child) (entries : List Entry)
    (hslots : p.slots = done ++ (entries.map .entry ++ rest)) (hnext : page.next = .new p.next)
    (hrest : Settles (fun fuel => (refreshLoop construct mask fuel page
      (.new (p.slotAddress (done.length + entries.length)))
      (data ++ entries.map (Entry.masked mask)) : Walk K _)) r result) :
    Settles (fun fuel =>
        (refreshLoop construct mask fuel page (.new (p.slotAddress done.length)) data :
      Walk K _)) r result := by
  induction entries generalizing done data with
  | nil => simpa using hrest
  | cons e entries ih =>
    have hslots' : p.slots = done ++ .entry e :: (entries.map .entry ++ rest) := hslots
    apply refreshLoop_entry hheld hslots' hnext
    have hlength : (done ++ [Slot.entry e]).length = done.length + 1 := by simp
    rw [← hlength]
    apply ih (by simpa using hslots)
    have hcount : (done ++ [Slot.entry e]).length + entries.length =
        done.length + (e :: entries).length := by
      rw [hlength, List.length_cons]
      omega
    rw [hcount, List.append_assoc, List.singleton_append]
    exact hrest

/-- The objects of the pool at a slot are read, and what comes behind them is left. -/
theorem refreshLoop_leading (hheld : p.HeldIn r.memory parent child)
    (hslots : p.slots = done ++ slot :: rest) (hnext : page.next = .new p.next)
    (hbehind : Settles (fun fuel => (refreshLoop construct mask fuel page
      (.new (p.slotAddress (done.length + 1 + (leading rest).length)))
      ((leading rest).map (Entry.masked mask)) : Walk K _)) r result) :
    Settles (fun fuel =>
        (refreshLoop construct mask fuel page (.new (p.slotAddress (done.length + 1))) [] :
      Walk K _)) r result := by
  have hlength : (done ++ [slot]).length = done.length + 1 := by simp
  rw [← hlength] at hbehind ⊢
  have hsplit : p.slots = (done ++ [slot]) ++ ((leading rest).map .entry ++ behind rest) := by
    rw [leading_append_behind, hslots, List.append_assoc, List.singleton_append]
  exact refreshLoop_entries hheld (leading rest) hsplit hnext hbehind

/-- A boundary ends the pool before it. -/
theorem refreshLoop_boundary (hheld : p.HeldIn r.memory parent child)
    (hslots : p.slots = done ++ .boundary :: rest) (hnext : page.next = .new p.next) :
    Settles (fun fuel =>
        (refreshLoop construct mask fuel page (.new (p.slotAddress done.length)) data :
      Walk K _)) r (.ok (data, .new (p.slotAddress done.length)), r) := by
  have hread := getindex_slot hheld hslots
  have hne := slot_ne_next hslots
  have hzero : (Symbol.new (Slot.word .boundary)).cInt64 ∈ endValues := by decide
  refine Settles.succ (Settles.bind_const hread ?_)
  simp only [hzero, not_true, hnext, hne, or_self, if_false]
  exact settles_const _ r

/-- The end of the used slots ends the last pool of the last page. On another page, the
next one is parsed out of its address. -/
theorem refreshLoop_end (hnext : page.next = .new p.next) (hchild : page.child = .new child)
    (hlt : child < 2 ^ 64) (mask : Symbol) (data : List Symbol) (r : Remote K) :
    Settles (fun fuel => (refreshLoop construct mask fuel page (.new p.next) data : Walk K _)) r
      (if child = 0 then .ok (data, .new p.next) else .error .type, r) := by
  have hslot := p.slotAddress_lt (Nat.le_refl _)
  have hread := accessing_of_ok (getindex_new (K := K) (r := r) (a := p.next) hslot.1 p.next_lt)
  have hzero : page.child.int = 0 ↔ child = 0 := by
    rw [hchild, int_new_natCast hlt]
    exact Int.natCast_eq_zero
  refine Settles.succ (Settles.bind_const hread ?_)
  simp only [hnext, or_true, if_true, hzero]
  by_cases hlast : child = 0
  · simp only [if_pos hlast]
    exact settles_const _ r
  · simp only [if_neg hlast, parseStream_eq]
    exact settles_const _ r

end Reading

/-! ## Reading all pools -/

section Pools

variable {K : Type} {construct : Construct} {runtime : Runtime K} {r : Remote K} {p : Page}
  {parent child : ℕ}
  {ptrMask mask endSymbol : Symbol} {done rest : List Slot} {slot : Slot}

/-- What creating a pool relies on: the page of its boundary, a marker that changes nothing and
the mask. -/
structure Ready (runtime : Runtime K) (ptrMask mask endSymbol : Symbol) (r : Remote K) (p : Page)
    (parent child : ℕ) : Prop where
  held : p.HeldIn r.memory parent child
  parent_mod : parent % 8 = 0
  child_mod : child % 8 = 0
  child_lt : child < 2 ^ 64
  marker : getAutoreleasePoolEnd runtime r = (.ok endSymbol, r)
  mask : ptrMask.getindex 8 0 [] r = (.ok mask, r)

/-- A pool is made of what the loop has gathered. -/
theorem createPool_of_loop (hready : Ready runtime ptrMask mask endSymbol r p parent child)
    (hslots : p.slots = done ++ slot :: rest) {result : Except PoolError (List Symbol × Symbol)}
    (hloop : ∀ page : AutoreleasePoolPageData, page.next = .new p.next → page.child = .new child →
      Settles (fun fuel =>
          (refreshLoop construct mask fuel page (.new (p.slotAddress (done.length + 1))) [] :
        Walk K _)) r (result, r)) :
    Settles (fun fuel =>
        createPool construct runtime ptrMask fuel (.new (p.slotAddress done.length))) r
      (result.map fun found => ⟨.new (p.slotAddress done.length), found.1, found.2, mask⟩, r) := by
  have hlt : done.length < p.slots.length := by simp [hslots]
  obtain ⟨page, hparse, hnext, -, hchild⟩ := parsePage_of_heldIn hready.held
  have hpage := findPageForAddress_settles hready.held hready.parent_mod hready.child_mod hlt.le
  refine Settles.bind_const (accessing_of_ok hready.mask) (Settles.bind_const hready.marker
    (Settles.bind hpage (Settles.bind_const hparse ?_)))
  rw [slotAddress_succ hlt]
  cases result with
  | error e => exact (hloop page hnext hchild).bind_of_error
  | ok found => exact (hloop page hnext hchild).bind (settles_const _ r)

/-- A pool that another one follows on its page. -/
theorem createPool_of_boundary (hready : Ready runtime ptrMask mask endSymbol r p parent child)
    (hslots : p.slots = done ++ slot :: rest) {rest' : List Slot}
    (hbehind : behind rest = .boundary :: rest') :
    Settles (fun fuel =>
        createPool construct runtime ptrMask fuel (.new (p.slotAddress done.length))) r
      (.ok ⟨.new (p.slotAddress done.length), (leading rest).map (Entry.masked mask),
        .new (p.slotAddress (upTo done slot rest).length), mask⟩, r) := by
  have hsplit := eq_upTo_append hslots hbehind
  have hloop : ∀ page : AutoreleasePoolPageData, page.next = .new p.next →
      page.child = .new child →
      Settles (fun fuel =>
          (refreshLoop construct mask fuel page (.new (p.slotAddress (done.length + 1))) [] :
        Walk K _)) r (.ok ((leading rest).map (Entry.masked mask),
          .new (p.slotAddress (upTo done slot rest).length)), r) := by
    intro page hnext _
    apply refreshLoop_leading hready.held hslots hnext
    rw [← length_upTo done slot rest]
    exact refreshLoop_boundary hready.held hsplit hnext
  exact createPool_of_loop hready hslots hloop

variable (construct) in
/-- The last pool of a page. -/
theorem createPool_of_end (hready : Ready runtime ptrMask mask endSymbol r p parent child)
    (hslots : p.slots = done ++ slot :: rest) (hbehind : behind rest = []) :
    Settles (fun fuel =>
        createPool construct runtime ptrMask fuel (.new (p.slotAddress done.length))) r
      (if child = 0 then .ok ⟨.new (p.slotAddress done.length),
        (leading rest).map (Entry.masked mask), .new p.next, mask⟩ else .error .type, r) := by
  have hend : p.next = p.slotAddress (done.length + 1 + (leading rest).length) := by
    rw [Page.next, hslots, ← upTo_append_behind, hbehind, List.append_nil, length_upTo]
  have hresult : (if child = 0 then .ok ⟨.new (p.slotAddress done.length),
      (leading rest).map (Entry.masked mask), .new p.next, mask⟩ else .error .type :
        Except PoolError AutoreleasePool) =
      (if child = 0 then .ok ((leading rest).map (Entry.masked mask), .new p.next)
        else .error .type : Except PoolError (List Symbol × Symbol)).map fun found =>
          ⟨.new (p.slotAddress done.length), found.1, found.2, mask⟩ := by
    split <;> rfl
  rw [hresult]
  apply createPool_of_loop hready hslots
  intro page hnext hchild
  apply refreshLoop_leading hready.held hslots hnext
  rw [← hend]
  exact refreshLoop_end hnext hchild hready.child_lt mask _ r

/-- On a page without a child, the pools are those of its slots, but that one is read from the
first of these whatever it is. -/
theorem poolsLoop_of_last (hready : Ready runtime ptrMask mask (.new p.next) r p parent 0)
    (pools : List AutoreleasePool) (hslots : p.slots = done ++ slot :: rest) :
    ∃ result : List AutoreleasePool, Settles (fun fuel => do
        let pool ← createPool construct runtime ptrMask fuel (.new (p.slotAddress done.length))
        poolsLoop construct runtime ptrMask (.new p.next) fuel (pools ++ [pool]) pool) r
          (.ok result, r) ∧
      result.map AutoreleasePool.data = pools.map AutoreleasePool.data ++
        (leading rest).map (Entry.masked mask) :: poolsOf mask rest := by
  -- each pool is followed by fewer slots than the one before it
  induction hlength : rest.length using Nat.strong_induction_on
    generalizing done slot rest pools with
  | _ length ih =>
    subst hlength
    rcases behind_cases rest with hbehind | ⟨rest', hbehind⟩
    · have hcreate := createPool_of_end construct hready hslots hbehind
      rw [if_pos rfl] at hcreate
      refine ⟨pools ++ [⟨.new (p.slotAddress done.length), (leading rest).map (Entry.masked mask),
        .new p.next, mask⟩], hcreate.bind (Settles.succ ?_), ?_⟩
      · simp only [poolsLoop, ne_eq, not_true, if_false]
        exact settles_const _ r
      · rw [← poolsOf_behind mask rest, hbehind, List.map_append]
        rfl
    · have hsplit := eq_upTo_append hslots hbehind
      -- the next pool begins where this one ends
      obtain ⟨result, hrun, hresult⟩ := ih _ (length_lt_of_behind hbehind)
        (pools ++ [⟨.new (p.slotAddress done.length), (leading rest).map (Entry.masked mask),
          .new (p.slotAddress (upTo done slot rest).length), mask⟩]) hsplit rfl
      refine ⟨result, (createPool_of_boundary hready hslots hbehind).bind (Settles.succ ?_), ?_⟩
      · simp only [poolsLoop, ne_eq, slot_ne_next hsplit, not_false_iff, if_true]
        exact hrun
      · rw [hresult, ← poolsOf_behind mask rest, hbehind, List.map_append, List.append_assoc]
        rfl

variable (construct) in
/-- On a page with a child, the last pool cannot be read. -/
theorem poolsLoop_of_child (hready : Ready runtime ptrMask mask endSymbol r p parent child)
    (hchild : child ≠ 0) (hend : ∀ i < p.slots.length, Symbol.new (p.slotAddress i) ≠ endSymbol)
    (pools : List AutoreleasePool) (hslots : p.slots = done ++ slot :: rest) :
    Settles (fun fuel => do
        let pool ← createPool construct runtime ptrMask fuel (.new (p.slotAddress done.length))
        poolsLoop construct runtime ptrMask endSymbol fuel (pools ++ [pool]) pool) r
          (.error .type, r) := by
  induction hlength : rest.length using Nat.strong_induction_on
    generalizing done slot rest pools with
  | _ length ih =>
    subst hlength
    rcases behind_cases rest with hbehind | ⟨rest', hbehind⟩
    · have hcreate := createPool_of_end construct hready hslots hbehind
      rw [if_neg hchild] at hcreate
      exact hcreate.bind_of_error
    · have hsplit := eq_upTo_append hslots hbehind
      have hne := hend (upTo done slot rest).length (by simp [hsplit])
      refine (createPool_of_boundary hready hslots hbehind).bind (Settles.succ ?_)
      simp only [poolsLoop, ne_eq, hne, not_false_iff, if_true]
      exact ih _ (length_lt_of_behind hbehind) _ hsplit rfl

/-- The loop takes no pool away. -/
theorem length_le_of_poolsLoop {fuel : ℕ} {pools result : List AutoreleasePool}
    {pool : AutoreleasePool} {t : Remote K}
    (hrun : poolsLoop construct runtime ptrMask endSymbol fuel pools pool r = (.ok result, t)) :
    pools.length ≤ result.length := by
  induction fuel generalizing pools pool r with
  | zero => cases hrun
  | succ fuel ih =>
    rw [poolsLoop] at hrun
    split at hrun
    · obtain ⟨pool', u, -, hrest⟩ := bind_eq_ok_iff.mp hrun
      have hle := ih hrest
      rw [List.length_append] at hle
      exact Nat.le_trans (Nat.le_add_right _ _) hle
    · obtain ⟨rfl, -⟩ := pure_eq_ok_iff.mp hrun
      exact Nat.le_refl _

theorem ne_nil_of_getAutoreleasePools {fuel : ℕ} {pools : List AutoreleasePool} {t : Remote K}
    (hrun : getAutoreleasePools construct runtime ptrMask fuel r = (.ok pools, t)) :
    pools ≠ [] := by
  obtain ⟨endSymbol, t₁, -, hrun⟩ := bind_eq_ok_iff.mp hrun
  obtain ⟨pageSym, t₂, -, hrun⟩ := bind_eq_ok_iff.mp hrun
  obtain ⟨pool, t₃, -, hrun⟩ := bind_eq_ok_iff.mp hrun
  rintro rfl
  exact absurd (length_le_of_poolsLoop hrun) (by simp)

end Pools

section Chains

variable {K : Type} {construct : Construct} {runtime : Runtime K} {r r' : Remote K}
  {chain settled : Chain}
  {ptrMask mask : Symbol} {first : Page} {others : List Page}

/-- No used slot of the first page is where the next object would be put. -/
theorem Chain.slotAddress_ne_next (hpages : chain.pages = first :: others) {i : ℕ}
    (hi : i < first.slots.length) : first.slotAddress i ≠ chain.hot.next := by
  have hapart := chain.apart
  rw [Chain.pages] at hpages
  cases hbefore : chain.before with
  | nil =>
    rw [hbefore, List.nil_append] at hpages
    obtain rfl := (List.cons.inj hpages).1
    rw [Page.next, Page.slotAddress, Page.slotAddress]
    omega
  | cons p before =>
    rw [hbefore, List.cons_append] at hpages hapart
    obtain rfl := (List.cons.inj hpages).1
    have hhot := (List.pairwise_cons.mp hapart).1 chain.hot (by simp)
    rw [Page.Apart, Page.next, Page.next, Page.slotAddress, Page.slotAddress] at hhot
    rw [Page.next, Page.slotAddress, Page.slotAddress]
    omega

/-- Only a chain of one page has a first page without used slots. -/
theorem Chain.used_of_cons (hpages : chain.pages = first :: others) (hothers : others ≠ []) :
    first.slots ≠ [] := by
  rw [Chain.pages] at hpages
  cases hbefore : chain.before with
  | nil =>
    rw [hbefore, List.nil_append] at hpages
    obtain ⟨rfl, hspare⟩ := List.cons.inj hpages
    apply chain.hot_used
    intro hnone
    rw [hnone] at hspare
    exact hothers hspare.symm
  | cons p before =>
    rw [hbefore, List.cons_append] at hpages
    obtain rfl := (List.cons.inj hpages).1
    exact chain.before_used p (by simp [hbefore])

/-- The first page is ready to be read. -/
theorem Marks.ready (hmarks : Marks runtime r chain r' settled)
    (hmask : ptrMask.getindex 8 0 [] r' = (.ok mask, r'))
    (hpages : settled.pages = first :: others) :
    Ready runtime ptrMask mask (.new settled.hot.next) r' first 0 (addressOf others.head?) where
  held := hmarks.settled_held [] first others hpages
  parent_mod := rfl
  child_mod := addressOf_mod _
  child_lt := addressOf_lt _
  marker := hmarks.again
  mask := hmask

/-- After the first marker, the pools are read from the first slot of the first page on. -/
theorem getAutoreleasePools_settles (hmarks : Marks runtime r chain r' settled)
    (hpages : settled.pages = first :: others)
    {result : Except PoolError (List AutoreleasePool) × Remote K}
    (hloop : Settles (fun fuel => do
      let pool ← createPool construct runtime ptrMask fuel (.new (first.slotAddress 0))
      poolsLoop construct runtime ptrMask (.new settled.hot.next) fuel [pool] pool) r' result) :
    Settles (getAutoreleasePools construct runtime ptrMask) r result := by
  have hfits := first.fits
  have hstart : (Symbol.new first.address).plus sizeofPageData = .new (first.slotAddress 0) := by
    rw [plus_new (by omega), Page.slotAddress, sizeofPageData]
    rfl
  have hhead : settled.pages.head? = some first := by
    rw [hpages]
    rfl
  obtain ⟨enough, hpage⟩ := findFirstPage_settles hhead hmarks.again hmarks.settled_held
  obtain ⟨enough', hrest⟩ := hloop
  refine ⟨max enough enough', fun fuel hle => ?_⟩
  rw [getAutoreleasePools, bind_of_ok hmarks.first, bind_of_ok (hpage fuel (by omega)), hstart]
  exact hrest fuel (by omega)

/-- The only page of a chain is the hot one. -/
theorem Chain.hot_eq_of_one_page (hpages : chain.pages = [first]) : chain.hot = first := by
  have hmem : chain.hot ∈ chain.pages := List.mem_append_right _ List.mem_cons_self
  rw [hpages] at hmem
  exact List.mem_singleton.mp hmem

/-- On one page, a pool is read from the first slot on, and then those behind it. -/
theorem getAutoreleasePools_of_one_page (hmarks : Marks runtime r chain r' settled)
    (hmask : ptrMask.getindex 8 0 [] r' = (.ok mask, r')) (hpages : settled.pages = [first])
    {slot : Slot} {rest : List Slot} (hslots : first.slots = slot :: rest) :
    ∃ pools, Settles (getAutoreleasePools construct runtime ptrMask) r (.ok pools, r') ∧
      pools.map AutoreleasePool.data =
        (leading rest).map (Entry.masked mask) :: poolsOf mask rest := by
  have hready := hmarks.ready hmask hpages
  rw [Chain.hot_eq_of_one_page hpages] at hready
  have hslots' : first.slots = [] ++ slot :: rest := hslots
  obtain ⟨pools, hrun, hdata⟩ := poolsLoop_of_last hready [] hslots'
  refine ⟨pools, getAutoreleasePools_settles hmarks hpages ?_, hdata⟩
  rw [Chain.hot_eq_of_one_page hpages]
  exact hrun

variable (construct) in
/-- On the first of several pages, the pool that goes on in the next one cannot be read. -/
theorem getAutoreleasePools_of_child (hmarks : Marks runtime r chain r' settled)
    (hmask : ptrMask.getindex 8 0 [] r' = (.ok mask, r')) (hpages : settled.pages = first :: others)
    (hothers : others ≠ []) :
    Settles (getAutoreleasePools construct runtime ptrMask) r (.error .type, r') := by
  have hready := hmarks.ready hmask hpages
  have hchild : addressOf others.head? ≠ 0 := by
    obtain ⟨second, more, rfl⟩ := List.exists_cons_of_ne_nil hothers
    exact second.address_pos.ne'
  obtain ⟨slot, rest, hslots⟩ := List.exists_cons_of_ne_nil (Chain.used_of_cons hpages hothers)
  have hslots' : first.slots = [] ++ slot :: rest := hslots
  -- no pool ends at the end symbol, which is on the hot page
  have hend : ∀ i < first.slots.length,
      Symbol.new (first.slotAddress i) ≠ .new settled.hot.next := by
    intro i hi
    have haddress := first.slotAddress_lt hi.le
    rw [Ne, new_injective (by omega) settled.hot.next_lt]
    exact Chain.slotAddress_ne_next hpages hi
  have hloop := poolsLoop_of_child construct hready hchild hend [] hslots'
  exact getAutoreleasePools_settles hmarks hpages hloop

end Chains

/-- If the pools of a chain of one page are returned, its first slot is a boundary. -/
theorem boundary_of_pools {K : Type} {construct : Construct} {runtime : Runtime K} {r r' : Remote K}
    {chain settled : Chain}
    {first : Page} {ptrMask mask : Symbol} (hmarks : Marks runtime r chain r' settled)
    (hmask : ptrMask.getindex 8 0 [] r' = (.ok mask, r')) (hpages : settled.pages = [first])
    {pools : List AutoreleasePool}
    (hrun : Settles (getAutoreleasePools construct runtime ptrMask) r (.ok pools, r'))
    (hdata : pools.map AutoreleasePool.data = poolsOf mask first.slots) :
    ∃ rest, first.slots = .boundary :: rest := by
  cases hslots : first.slots with
  | nil =>
    -- some pool is returned, but there is none
    obtain ⟨enough, hresult⟩ := hrun
    rw [hslots, poolsOf, List.map_eq_nil_iff] at hdata
    exact absurd hdata (ne_nil_of_getAutoreleasePools (hresult enough (Nat.le_refl enough)))
  | cons slot rest =>
    cases slot with
    | boundary => exact ⟨rest, rfl⟩
    | entry e =>
      -- the first slot is taken for a boundary, so that there is one pool too many
      obtain ⟨pools', hrun', hdata'⟩ := getAutoreleasePools_of_one_page hmarks hmask hpages hslots
      cases hrun.unique hrun'
      rw [hdata', hslots, poolsOf] at hdata
      exact absurd (congrArg List.length hdata) (by simp)

/-- **Autorelease pools.** The pools of a chain are returned, each with its masked objects,
exactly if the chain has one page once a marker has been pushed and popped, and this begins
with the boundary of a pool. -/
theorem getAutoreleasePools_iff {K : Type} (construct : Construct) {runtime : Runtime K}
    {r r' : Remote K}
    {chain settled : Chain} {ptrMask mask : Symbol} (hmarks : Marks runtime r chain r' settled)
    (hmask : ptrMask.getindex 8 0 [] r' = (.ok mask, r')) :
    (∃ pools, Settles (getAutoreleasePools construct runtime ptrMask) r (.ok pools, r') ∧
        pools.map AutoreleasePool.data = poolsOf mask chain.slots) ↔
      ∃ page rest, settled.pages = [page] ∧ page.slots = .boundary :: rest := by
  have hall : ∀ {page : Page}, settled.pages = [page] → chain.slots = page.slots := by
    intro page hpages
    rw [← hmarks.slots, Chain.slots, hpages, List.flatMap_singleton]
  constructor
  · rintro ⟨pools, hrun, hdata⟩
    obtain ⟨first, others, hpages⟩ : ∃ first others, settled.pages = first :: others :=
      List.exists_cons_of_ne_nil (by simp [Chain.pages])
    by_cases hothers : others = []
    · subst hothers
      rw [hall hpages] at hdata
      obtain ⟨rest, hslots⟩ := boundary_of_pools hmarks hmask hpages hrun hdata
      exact ⟨first, rest, hpages, hslots⟩
    · cases hrun.unique (getAutoreleasePools_of_child construct hmarks hmask hpages hothers)
  · rintro ⟨page, rest, hpages, hslots⟩
    obtain ⟨pools, hrun, hdata⟩ := getAutoreleasePools_of_one_page hmarks hmask hpages hslots
    refine ⟨pools, hrun, ?_⟩
    rw [hdata, hall hpages, hslots, poolsOf]

/-- An object. -/
def someObject : Entry := ⟨0x600000000010, by decide, by decide⟩

/-- A chain of one page, with two pools. -/
def onePage : Chain where
  before := []
  hot := ⟨0x104800000, [.boundary, .entry someObject, .boundary], 0x16fe00000, by decide, by decide,
    by decide, by decide, by decide⟩
  spare := none
  before_used := by simp
  hot_used := by simp
  spare_unused := by simp
  apart := by simp

/-- The pools of a single page are returned. -/
theorem getAutoreleasePools_onePage :
    (∃ pools, Settles (getAutoreleasePools .standard onePage.runtime (.new (0x800 : ℕ)))
        onePage.remote
        (.ok pools, onePage.remote) ∧
      pools.map AutoreleasePool.data = poolsOf (.new (wordAt onePage.remote.memory 0x800))
        onePage.slots) ↔
      ∃ page rest, onePage.pages = [page] ∧ page.slots = .boundary :: rest := by
  exact getAutoreleasePools_iff .standard onePage.marks_remote
    (getindex_new (by decide) (by decide))

/-- The slots of a page without any free one. -/
def fullSlots : List Slot := .boundary :: List.replicate 504 (.entry someObject)

/-- A page has room for that many slots. -/
theorem length_fullSlots : fullSlots.length = 505 := by
  rw [fullSlots, List.length_cons, List.length_replicate]

/-- A page that is full, and one with the object for which it had no room. -/
def twoPages : Chain where
  before := [⟨0x104800000, fullSlots, 0x16fe00000, by decide, by decide,
    by rw [length_fullSlots]; decide, by decide, by decide⟩]
  hot := ⟨0x104801000, [.entry someObject], 0x16fe00000, by decide, by decide, by decide, by decide,
    by decide⟩
  spare := none
  before_used p hp := by
    rw [List.mem_singleton.mp hp]
    exact List.cons_ne_nil _ _
  hot_used := by simp
  spare_unused := by simp
  apart := by simp [Page.Apart, Page.next, Page.slotAddress, length_fullSlots]

/-- Of the one pool of the two pages, none of the 505 objects is returned. -/
theorem getAutoreleasePools_twoPages :
    Settles (getAutoreleasePools .standard twoPages.runtime (.new (0x800 : ℕ))) twoPages.remote
      (.error .type, twoPages.remote) ∧
    ¬ ∀ (construct : Construct) (runtime : Runtime Unit) (r r' : Remote Unit)
      (chain settled : Chain) (ptrMask mask : Symbol), Marks runtime r chain r' settled →
      ptrMask.getindex 8 0 [] r' = (.ok mask, r') →
      ∃ pools, Settles (getAutoreleasePools construct runtime ptrMask) r (.ok pools, r') ∧
        pools.map AutoreleasePool.data = poolsOf mask chain.slots := by
  have hmask := getindex_new (r := twoPages.remote) (a := 0x800) (by decide) (by decide)
  have hraises := getAutoreleasePools_of_child .standard twoPages.marks_remote hmask rfl (by simp)
  refine ⟨hraises, fun hclaim => ?_⟩
  obtain ⟨pools, hrun, -⟩ := hclaim .standard _ _ _ _ _ _ _ twoPages.marks_remote hmask
  cases hraises.unique hrun

end RpcProject.Darwin
