/-
# Streams that arrive in chunks

A stream socket delivers a byte stream in pieces of its own choosing. A
delivery is the list of those pieces, and its cuts are the stream positions
where one piece ends. Removing a number of items from the front of a delivery
may end inside a piece, whose rest then stays at the front.

A fragmentation of a stream packages a delivery of exactly that stream whose
pieces are all non-empty.
-/

import Mathlib.Data.List.Basic
import Mathlib.Order.Nat

namespace RpcProject.Foundations

variable {α : Type*}

/-- Remove the first `n` items of a delivery. -/
def dropItems : ℕ → List (List α) → List (List α)
  | _, [] => []
  | n, chunk :: chunks =>
      if n < chunk.length then chunk.drop n :: chunks else dropItems (n - chunk.length) chunks

/-- The stream positions where a chunk ends, for a delivery that starts at
position `start`. -/
def cuts (start : ℕ) : List (List α) → List ℕ
  | [] => []
  | chunk :: chunks => (start + chunk.length) :: cuts (start + chunk.length) chunks

/-- A way for a stream to arrive: non-empty chunks that concatenate to it. -/
structure Fragmentation (stream : List α) where
  chunks : List (List α)
  nonempty : ∀ chunk ∈ chunks, chunk ≠ []
  flatten : chunks.flatten = stream

/-- A stream that arrives in one piece. -/
def Fragmentation.whole : (stream : List α) → Fragmentation stream
  | [] => ⟨[], by simp, rfl⟩
  | a :: stream => ⟨[a :: stream], by simp, by simp⟩

variable {n m start position : ℕ} {chunks : List (List α)}

@[simp] theorem dropItems_nil : dropItems n ([] : List (List α)) = [] := rfl

theorem dropItems_zero (hne : ∀ chunk ∈ chunks, chunk ≠ []) : dropItems 0 chunks = chunks := by
  cases chunks with
  | nil => rfl
  | cons chunk chunks =>
    have hpos : 0 < chunk.length := List.length_pos_iff.mpr (hne chunk List.mem_cons_self)
    rw [dropItems, if_pos hpos, List.drop_zero]

/-- The items that are left are the last ones of all. -/
theorem flatten_dropItems (n : ℕ) (chunks : List (List α)) :
    (dropItems n chunks).flatten = chunks.flatten.drop n := by
  induction chunks generalizing n with
  | nil => simp
  | cons chunk chunks ih =>
    rw [dropItems]
    split
    · next hlt => rw [List.flatten_cons, List.flatten_cons,
        List.drop_append_of_le_length (Nat.le_of_lt hlt)]
    · next hge =>
      rw [ih, List.flatten_cons, List.drop_append, List.drop_of_length_le (Nat.le_of_not_lt hge),
        List.nil_append]

theorem ne_nil_of_mem_dropItems (hne : ∀ chunk ∈ chunks, chunk ≠ []) :
    ∀ chunk ∈ dropItems n chunks, chunk ≠ [] := by
  induction chunks generalizing n with
  | nil => simp
  | cons chunk chunks ih =>
    rw [dropItems]
    split
    · next hlt =>
      intro piece hpiece
      rcases List.mem_cons.mp hpiece with rfl | hpiece
      · rwa [ne_eq, List.drop_eq_nil_iff, not_le]
      · exact hne piece (List.mem_cons_of_mem _ hpiece)
    · exact ih fun piece hpiece => hne piece (List.mem_cons_of_mem _ hpiece)

/-- What is dropped twice is dropped at once. -/
theorem dropItems_dropItems (hne : ∀ chunk ∈ chunks, chunk ≠ []) :
    dropItems m (dropItems n chunks) = dropItems (n + m) chunks := by
  induction chunks generalizing n with
  | nil => rfl
  | cons chunk chunks ih =>
    have htail : ∀ piece ∈ chunks, piece ≠ [] := fun piece hpiece =>
      hne piece (List.mem_cons_of_mem _ hpiece)
    by_cases hn : n < chunk.length
    -- the first removal ends inside the chunk, the second perhaps not
    · have hlength : (chunk.drop n).length = chunk.length - n := List.length_drop
      rw [dropItems, if_pos hn, dropItems, dropItems, hlength]
      by_cases hm : n + m < chunk.length
      · rw [if_pos hm, if_pos (by omega), List.drop_drop]
      · rw [if_neg hm, if_neg (by omega)]
        congr 1
        omega
    -- the first removal takes the whole chunk, and the rest is for the other chunks
    · rw [dropItems, if_neg hn, ih htail, dropItems, if_neg (by omega)]
      congr 1
      omega

/-- Every cut lies beyond the start of a delivery in non-empty chunks. -/
theorem lt_of_mem_cuts (hne : ∀ chunk ∈ chunks, chunk ≠ []) (hcut : position ∈ cuts start chunks) :
    start < position := by
  induction chunks generalizing start with
  | nil => simp [cuts] at hcut
  | cons chunk chunks ih =>
    have hpos : 0 < chunk.length := List.length_pos_iff.mpr (hne chunk List.mem_cons_self)
    rcases List.mem_cons.mp hcut with rfl | hcut
    · omega
    · have := ih (fun piece hpiece => hne piece (List.mem_cons_of_mem _ hpiece)) hcut
      omega

/-- No cut of a delivery lies before the end of its first chunk. -/
theorem le_of_mem_cuts_cons {chunk : List α} (hne : ∀ piece ∈ chunks, piece ≠ [])
    (hcut : position ∈ cuts start (chunk :: chunks)) : start + chunk.length ≤ position := by
  rcases List.mem_cons.mp hcut with rfl | hcut
  · exact le_refl _
  · exact (lt_of_mem_cuts hne hcut).le

/-- Removing items from the front keeps exactly the cuts beyond them. -/
theorem mem_cuts_dropItems (hne : ∀ chunk ∈ chunks, chunk ≠ []) :
    position ∈ cuts (start + n) (dropItems n chunks) ↔
      position ∈ cuts start chunks ∧ start + n < position := by
  induction chunks generalizing n start with
  | nil => simp [cuts]
  | cons chunk chunks ih =>
    have htail : ∀ piece ∈ chunks, piece ≠ [] := fun piece hpiece =>
      hne piece (List.mem_cons_of_mem _ hpiece)
    rw [dropItems]
    split
    · next hlt =>
      have hend : start + n + (chunk.drop n).length = start + chunk.length := by
        rw [List.length_drop]
        omega
      -- the chunk keeps its end, so the cuts are the same, and all lie beyond
      rw [cuts, cuts, hend, List.mem_cons, iff_self_and]
      rintro (rfl | hcut)
      · omega
      · have := lt_of_mem_cuts htail hcut
        omega
    · next hge =>
      -- the chunk is gone, and its end is the one cut that is not beyond
      have hsplit : start + n = start + chunk.length + (n - chunk.length) := by omega
      rw [hsplit, ih htail, ← hsplit, cuts, List.mem_cons]
      constructor
      · exact fun h => ⟨Or.inr h.1, h.2⟩
      · rintro ⟨rfl | hcut, hbeyond⟩
        · omega
        · exact ⟨hcut, hbeyond⟩

end RpcProject.Foundations
