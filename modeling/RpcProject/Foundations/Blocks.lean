/-
# Blocks of a heap and who owns them

A program asks for blocks of memory, which it may be refused, and gives them back. A
pointer is null, the name of a block, or wild: it was never set, or points to storage
that nobody allocated. To give back what is not allocated has no meaning, and a program
that does so ends there.

An assertion lists the blocks that a program owns. What the program does to them is the
same next to any other blocks, so the assertions of its parts can be put together. A
pointer that a program was given owns the block that it names, if it names one.
-/

import Mathlib.Algebra.Order.Group.Multiset
import Mathlib.Data.Multiset.MapFold
import RpcProject.Foundations.Effects

namespace RpcProject.Foundations

/-- A pointer of the program: null, to the start of a block, or none that was ever returned.
-/
inductive Pointer
  | null
  | block (id : ℕ)
  | wild
  deriving DecidableEq, Repr

/-- The allocated blocks of a heap, with what each is for. Blocks are named by how often
memory was asked for before, so no name is used again. -/
@[ext]
structure Blocks (β : Type) where
  live : List (ℕ × β)
  asked : ℕ
  deriving DecidableEq, Repr

/-- The steps of a program that have no meaning. -/
inductive Undefined
  /-- giving back what is not allocated -/
  | freed
  /-- access through a null pointer -/
  | null
  /-- access beyond the end of a block -/
  | beyond
  deriving DecidableEq, Repr

namespace Blocks

variable {β : Type} {heap : Blocks β} {owned rest : Multiset (ℕ × β)} {b : β} {id : ℕ}

/-- Ask for a block. -/
def malloc (grants : ℕ → Bool) (b : β) : Effect (Blocks β) Undefined Pointer := fun heap =>
  if grants heap.asked = true then
    (.ok (.block heap.asked), ⟨(heap.asked, b) :: heap.live, heap.asked + 1⟩)
  else (.ok .null, ⟨heap.live, heap.asked + 1⟩)

/-- Ask for a block where none is refused. -/
def take (b : β) : Effect (Blocks β) Undefined Pointer := malloc (fun _ => true) b

/-- Give a block back. Nothing is done about a null pointer. -/
def free : Pointer → Effect (Blocks β) Undefined Unit
  | .null => pure ()
  | .wild => Effect.raise .freed
  | .block id => fun heap =>
      if id ∈ heap.live.map Prod.fst then
        (.ok (), { heap with live := heap.live.filter fun block => block.1 ≠ id })
      else (.error .freed, heap)

/-- A granted request gives a new block. -/
theorem malloc_of_granted {grants : ℕ → Bool} (h : grants heap.asked = true) (b : β) :
    malloc grants b heap =
      (.ok (.block heap.asked), ⟨(heap.asked, b) :: heap.live, heap.asked + 1⟩) := if_pos h

/-- A refused one gives the null pointer. -/
theorem malloc_of_refused {grants : ℕ → Bool} (h : grants heap.asked = false) (b : β) :
    malloc grants b heap = (.ok .null, ⟨heap.live, heap.asked + 1⟩) := if_neg (by simp [h])

theorem free_of_mem (h : id ∈ heap.live.map Prod.fst) :
    free (.block id) heap =
      (.ok (), { heap with live := heap.live.filter fun block => block.1 ≠ id }) := if_pos h

/-- What is allocated, block by block. -/
structure Holds (heap : Blocks β) (owned : Multiset (ℕ × β)) : Prop where
  live : (heap.live : Multiset (ℕ × β)) = owned
  nodup : (heap.live.map Prod.fst).Nodup
  fresh : ∀ block ∈ heap.live, block.1 < heap.asked

/-- What is held can be written in another way. -/
theorem Holds.congr {owned' : Multiset (ℕ × β)} (h : heap.Holds owned) (heq : owned = owned') :
    heap.Holds owned' := heq ▸ h

/-- A new block is held together with what was held. -/
theorem Holds.granted (h : heap.Holds rest) (b : β) :
    Holds ⟨(heap.asked, b) :: heap.live, heap.asked + 1⟩ ({(heap.asked, b)} + rest) := by
  refine ⟨?_, ?_, ?_⟩
  · rw [← Multiset.cons_coe, h.live, Multiset.singleton_add]
  · rw [List.map_cons, List.nodup_cons]
    refine ⟨fun hmem => ?_, h.nodup⟩
    obtain ⟨block, hblock, hname⟩ := List.mem_map.mp hmem
    exact Nat.lt_irrefl _ (hname ▸ h.fresh block hblock)
  · intro block hblock
    rcases List.mem_cons.mp hblock with rfl | hblock
    · exact Nat.lt_succ_self _
    · exact Nat.lt_succ_of_lt (h.fresh block hblock)

/-- A refused request changes nothing that is held. -/
theorem Holds.refused (h : heap.Holds rest) : Holds ⟨heap.live, heap.asked + 1⟩ rest :=
  ⟨h.live, h.nodup, fun block hblock => Nat.lt_succ_of_lt (h.fresh block hblock)⟩

/-- A block that is owned can be given back. -/
theorem Holds.freed (h : heap.Holds ({(id, b)} + rest)) :
    id ∈ heap.live.map Prod.fst ∧
      Holds { heap with live := heap.live.filter fun block => block.1 ≠ id } rest := by
  have hmem : (id, b) ∈ heap.live := by
    rw [← Multiset.mem_coe, h.live, Multiset.singleton_add]
    exact Multiset.mem_cons_self _ _
  obtain ⟨before, after, hlive⟩ := List.append_of_mem hmem
  have hnodup := h.nodup
  rw [hlive, List.map_append, List.map_cons, List.nodup_middle, List.nodup_cons,
    List.mem_append] at hnodup
  have hothers : ∀ block ∈ before ++ after, block.1 ≠ id := by
    rintro block hblock rfl
    rcases List.mem_append.mp hblock with hblock | hblock
    · exact hnodup.1 (Or.inl (List.mem_map.mpr ⟨block, hblock, rfl⟩))
    · exact hnodup.1 (Or.inr (List.mem_map.mpr ⟨block, hblock, rfl⟩))
  have hfilter : heap.live.filter (fun block => block.1 ≠ id) = before ++ after := by
    rw [hlive, List.filter_append, List.filter_cons_of_neg (by simp), ← List.filter_append,
      List.filter_eq_self.mpr fun block hblock => by simpa using hothers block hblock]
  refine ⟨List.mem_map_of_mem hmem, ?_, ?_, ?_⟩
  · have hall := h.live
    rw [hlive, Multiset.singleton_add, ← Multiset.coe_eq_coe.mpr List.perm_middle.symm,
      ← Multiset.cons_coe, Multiset.cons_inj_right] at hall
    rw [hfilter]
    exact hall
  · exact h.nodup.sublist (List.filter_sublist.map _)
  · exact fun block hblock => h.fresh block (List.mem_of_mem_filter hblock)

end Blocks

/-! ## Owning blocks -/

/-- The block that a pointer names. -/
def Pointer.owns {β : Type} (b : β) : Pointer → Multiset (ℕ × β)
  | .null => 0
  | .block id => {(id, b)}
  | .wild => 0

@[simp] theorem Pointer.owns_null {β : Type} (b : β) : Pointer.null.owns b = 0 := rfl

/-- The pointer names a block. -/
def Pointer.Valid (p : Pointer) : Prop := p ≠ .null ∧ p ≠ .wild

/-- What blocks are for. -/
def kinds {β : Type} (owned : Multiset (ℕ × β)) : Multiset β := owned.map Prod.snd

@[simp] theorem kinds_zero {β : Type} : kinds (0 : Multiset (ℕ × β)) = 0 := rfl

/-- From a heap with the blocks `owned`, and any others that it does not touch, the program
returns and leaves blocks as `Q` has it, or comes to a step without a meaning as `E` has
it. -/
def Owning {β α : Type} (owned : Multiset (ℕ × β)) (m : Effect (Blocks β) Undefined α)
    (Q : α → Multiset (ℕ × β) → Prop) (E : Undefined → Prop) : Prop :=
  ∀ heap rest, Blocks.Holds heap (owned + rest) →
    Effect.Meets m heap (fun a heap' => ∃ left, Q a left ∧ heap'.Holds (left + rest))
      fun e _ => E e

namespace Owning

variable {β α γ : Type} {owned left : Multiset (ℕ × β)} {m : Effect (Blocks β) Undefined α}
  {f : α → Effect (Blocks β) Undefined γ} {Q Q' : α → Multiset (ℕ × β) → Prop}
  {R : γ → Multiset (ℕ × β) → Prop} {E E' : Undefined → Prop} {a : α} {b : β}
  {grants : ℕ → Bool} {p : Pointer}

/-- A program that does nothing keeps what it owns. -/
theorem pure (h : Q a owned) : Owning owned (pure a) Q E := fun _ _ hholds => ⟨owned, h, hholds⟩

/-- A program that is undefined promises what is said of that. -/
theorem raise {e : Undefined} (h : E e) : Owning owned (Effect.raise e) Q E := fun _ _ _ => h

theorem mono (h : Owning owned m Q E) (hQ : ∀ a left, Q a left → Q' a left)
    (hE : ∀ e, E e → E' e) : Owning owned m Q' E' := fun heap rest hholds =>
  (h heap rest hholds).mono (fun _ _ ⟨left, hleft, hholds'⟩ => ⟨left, hQ _ left hleft, hholds'⟩)
    fun e _ => hE e

/-- What is owned can be written in another way. -/
theorem congr {owned' : Multiset (ℕ × β)} (h : Owning owned m Q E) (heq : owned = owned') :
    Owning owned' m Q E := heq ▸ h

/-- The rule for sequences: the second part starts with what the first one leaves. -/
theorem bind (hm : Owning owned m Q E) (hf : ∀ a left, Q a left → Owning left (f a) R E) :
    Owning owned (m >>= f) R E := fun heap rest hholds =>
  .bind ((hm heap rest hholds).mono
    (fun a heap' ⟨left, hleft, hholds'⟩ => hf a left hleft heap' rest hholds') fun _ _ h => h)

/-- The frame rule: other blocks stay as they are. -/
theorem frame (h : Owning owned m Q E) (others : Multiset (ℕ × β)) :
    Owning (owned + others) m (fun a left => ∃ mine, Q a mine ∧ left = mine + others) E := by
  intro heap rest hholds
  refine (h heap (others + rest) (hholds.congr (add_assoc _ _ _))).mono ?_ fun _ _ h => h
  rintro a heap' ⟨mine, hmine, hholds'⟩
  exact ⟨mine + others, ⟨mine, hmine, rfl⟩, hholds'.congr (add_assoc _ _ _).symm⟩

/-- The rule for asking: either the pointer is null, or there is a block behind it. -/
theorem malloc {f : Pointer → Effect (Blocks β) Undefined γ}
    (hnull : (∃ k, grants k = false) → Owning owned (f .null) R E)
    (hvalid : ∀ p : Pointer, p.Valid → Owning (p.owns b + owned) (f p) R E) :
    Owning owned (Blocks.malloc grants b >>= f) R E := by
  intro heap rest hholds
  cases hgrants : grants heap.asked with
  | true =>
    rw [Effect.Meets, Effect.bind_of_ok (Blocks.malloc_of_granted hgrants b)]
    exact hvalid (.block heap.asked) ⟨by simp, by simp⟩ _ rest
      ((hholds.granted b).congr (add_assoc _ _ _).symm)
  | false =>
    rw [Effect.Meets, Effect.bind_of_ok (Blocks.malloc_of_refused hgrants b)]
    exact hnull ⟨_, hgrants⟩ _ rest hholds.refused

/-- A program that takes a block goes on with it. -/
theorem take {f : Pointer → Effect (Blocks β) Undefined γ}
    (h : ∀ p : Pointer, p.Valid → Owning (p.owns b + owned) (f p) R E) :
    Owning owned (Blocks.take b >>= f) R E := by
  intro heap rest hholds
  rw [Blocks.take, Effect.Meets, Effect.bind_of_ok (Blocks.malloc_of_granted rfl b)]
  exact h (.block heap.asked) ⟨by simp, by simp⟩ _ rest
    ((hholds.granted b).congr (add_assoc _ _ _).symm)

/-- What a pointer owns can be given back through it. -/
theorem freed (hp : p ≠ .wild) : Owning (p.owns b) (Blocks.free p) (fun _ left => left = 0) E := by
  cases p with
  | null => exact pure rfl
  | wild => exact absurd rfl hp
  | block id =>
    intro heap rest hholds
    obtain ⟨hmem, hholds'⟩ := Blocks.Holds.freed hholds
    rw [Effect.Meets, Blocks.free_of_mem hmem]
    exact ⟨0, rfl, hholds'.congr (zero_add _).symm⟩

/-- A program that frees a block goes on without it. -/
theorem free {f : Unit → Effect (Blocks β) Undefined γ} (hp : p ≠ .wild)
    (h : Owning owned (f ()) R E) :
    Owning (p.owns b + owned) (Blocks.free p >>= f) R E := by
  refine ((freed hp).frame owned).bind ?_
  rintro _ _ ⟨_, rfl, rfl⟩
  exact h.congr (zero_add _).symm

/-- The rule for loops that give back what belongs to the elements of a list. -/
theorem forEach {list : List α} {body : α → Effect (Blocks β) Undefined Unit}
    {owns : α → Multiset (ℕ × β)}
    (h : ∀ a ∈ list, Owning (owns a) (body a) (fun _ left => left = 0) E) :
    Owning (list.map owns).sum (Effect.forEach body list) (fun _ left => left = 0) E := by
  induction list with
  | nil => exact pure rfl
  | cons a list ih =>
    obtain ⟨ha, hlist⟩ := List.forall_mem_cons.mp h
    rw [List.map_cons, List.sum_cons]
    refine (ha.frame _).bind ?_
    rintro _ _ ⟨_, rfl, rfl⟩
    exact (ih hlist).congr (zero_add _).symm

end Owning

end RpcProject.Foundations
