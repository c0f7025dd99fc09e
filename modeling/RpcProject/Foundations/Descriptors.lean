/-
# Descriptors and who has to close them

A process opens descriptors, the lowest free one each time, and closes them. A ledger
lists the descriptors that somebody still has to close. It is true as long as every
descriptor that is opened is entered, and every close is of an entry and strikes it out:
then the open descriptors are those of the ledger, each once, and no close misses.
-/

import Mathlib.Data.Finset.Insert
import Mathlib.Data.Fintype.Card
import Mathlib.Data.Fintype.EquivFin
import Mathlib.Data.Multiset.AddSub

namespace RpcProject.Foundations

/-- The descriptors of a process. -/
@[ext]
structure Descriptors where
  opened : Finset ℕ
  /-- how often a descriptor was closed that was not open -/
  missed : ℕ
  deriving DecidableEq

namespace Descriptors

variable {t : Descriptors} {fd : ℕ} {ledger : Multiset ℕ}

theorem exists_free (t : Descriptors) : ∃ fd, fd ∉ t.opened :=
  Infinite.exists_notMem_finset t.opened

/-- The descriptor that the next one to open gets. -/
def lowest (t : Descriptors) : ℕ := Nat.find t.exists_free

/-- The lowest free descriptor is opened. -/
def new (t : Descriptors) : Descriptors := { t with opened := insert t.lowest t.opened }

/-- A descriptor is closed, or found not to be open. -/
def close (fd : ℕ) (t : Descriptors) : Descriptors :=
  if fd ∈ t.opened then { t with opened := t.opened.erase fd }
  else { t with missed := t.missed + 1 }

/-- The descriptors `old` give way to `left`, as far as those are not taken by others. -/
def exchange (old left : Finset ℕ) (t : Descriptors) : Descriptors :=
  { t with opened := t.opened \ old ∪ left }

theorem lowest_notMem (t : Descriptors) : t.lowest ∉ t.opened := Nat.find_spec t.exists_free

/-- A descriptor that is opened and closed leaves no trace. -/
@[simp] theorem close_new (t : Descriptors) : t.new.close t.lowest = t := by
  have hopen : t.lowest ∈ t.new.opened := Finset.mem_insert_self _ _
  rw [close, if_pos hopen]
  ext1
  · exact Finset.erase_insert t.lowest_notMem
  · rfl

/-- The ledger of a process: its open descriptors, each once. -/
structure Owes (t : Descriptors) (ledger : Multiset ℕ) : Prop where
  opened : t.opened.val = ledger
  missed : t.missed = 0

theorem Owes.new (h : t.Owes ledger) : t.new.Owes ({t.lowest} + ledger) := by
  refine ⟨?_, h.missed⟩
  rw [Descriptors.new, Finset.insert_val_of_notMem t.lowest_notMem, h.opened,
    Multiset.singleton_add]

/-- A descriptor of the ledger can be closed, and leaves it. -/
theorem Owes.close (h : t.Owes ({fd} + ledger)) : (t.close fd).Owes ledger := by
  rw [Multiset.singleton_add] at h
  have hopen : fd ∈ t.opened := by
    rw [← Finset.mem_val, h.opened]
    exact Multiset.mem_cons_self fd ledger
  rw [Descriptors.close, if_pos hopen]
  exact ⟨by rw [Finset.erase_val, h.opened, Multiset.erase_cons_head], h.missed⟩

/-- Descriptors of the ledger can be exchanged: of those in their place it lists the ones
that were free. -/
theorem Owes.exchange {old : Finset ℕ} (left : Finset ℕ) (h : t.Owes (old.val + ledger)) :
    (t.exchange old left).Owes ((left \ (t.opened \ old)).val + ledger) := by
  refine ⟨?_, h.missed⟩
  have hkept : (t.opened \ old).val = ledger := by
    rw [Finset.sdiff_val, h.opened, Multiset.add_comm, Multiset.add_sub_cancel_right]
  have hdisjoint : Disjoint (left \ (t.opened \ old)) (t.opened \ old) := Finset.sdiff_disjoint
  calc (t.opened \ old ∪ left).val
      = (left \ (t.opened \ old) ∪ t.opened \ old).val := by
        rw [Finset.sdiff_union_self_eq_union, Finset.union_comm]
    _ = (left \ (t.opened \ old)).val + (t.opened \ old).val := by
        rw [← Finset.disjUnion_eq_union _ _ hdisjoint, Finset.disjUnion_val]
    _ = _ := by rw [hkept]

/-- What is owed can be written in another way. -/
theorem Owes.congr {ledger' : Multiset ℕ} (h : t.Owes ledger) (heq : ledger = ledger') :
    t.Owes ledger' := heq ▸ h

end Descriptors

end RpcProject.Foundations
