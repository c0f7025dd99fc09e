/-
# Orders of the nodes of a tree

A node of a tree is the word of the names that lead to it from the root, so the
nodes above it are the words that are prefixes of its own. A list of nodes is in
preorder as far as no node comes after one below it, and in postorder as far as no
node comes before one below it. Either way no node comes twice.

A list for a tree is put together from the names of the entries of its root and
the lists for the trees at some of them.
-/

import Mathlib.Data.List.Basic
import Mathlib.Data.List.Infix

namespace RpcProject.Foundations

variable {α : Type*} {topdown : Bool} {names dirs : List α} {sub : α → List (List α)}
  {nodes : List (List α)} {a b : List α}

/-- The first node may come before the second one. -/
def Comes (topdown : Bool) (a b : List α) : Prop := if topdown then ¬ b <+: a else ¬ a <+: b

/-- The nodes of a tree without its root. -/
def treeOrder (topdown : Bool) (names dirs : List α) (sub : α → List (List α)) :
    List (List α) :=
  if topdown then (names.map fun name => [name]) ++ dirs.flatMap fun d => (sub d).map (d :: ·)
  else (dirs.flatMap fun d => (sub d).map (d :: ·)) ++ names.map fun name => [name]

/-- The nodes of a tree with its root. -/
def withRoot (topdown : Bool) (nodes : List (List α)) : List (List α) :=
  if topdown then [] :: nodes else nodes ++ [[]]

theorem not_comes_self (a : List α) : ¬ Comes topdown a a := by
  cases topdown <;> simp [Comes]

/-- The order does not depend on where the tree hangs. -/
theorem comes_cons {name : α} (h : Comes topdown a b) : Comes topdown (name :: a) (name :: b) := by
  cases topdown with
  | false => exact fun hway => h (List.cons_prefix_cons.mp hway).2
  | true => exact fun hway => h (List.cons_prefix_cons.mp hway).2

/-- Nodes below different names come in any order. -/
theorem comes_of_ne {x y : α} (hne : x ≠ y) : Comes topdown (x :: a) (y :: b) := by
  cases topdown with
  | false => exact fun hway => hne (List.cons_prefix_cons.mp hway).1
  | true => exact fun hway => hne (List.cons_prefix_cons.mp hway).1.symm

theorem mem_treeOrder : a ∈ treeOrder topdown names dirs sub ↔
    (∃ name ∈ names, a = [name]) ∨ ∃ d ∈ dirs, ∃ rest ∈ sub d, a = d :: rest := by
  have hnames : a ∈ (names.map fun name => [name]) ↔ ∃ name ∈ names, a = [name] := by
    simp [eq_comm]
  have hbelow : (a ∈ dirs.flatMap fun d => (sub d).map (d :: ·)) ↔
      ∃ d ∈ dirs, ∃ rest ∈ sub d, a = d :: rest := by
    simp [eq_comm]
  cases topdown with
  | false => rw [treeOrder, if_neg (by simp), List.mem_append, hnames, hbelow, or_comm]
  | true => rw [treeOrder, if_pos rfl, List.mem_append, hnames, hbelow]

theorem mem_withRoot : a ∈ withRoot topdown nodes ↔ a = [] ∨ a ∈ nodes := by
  cases topdown <;> simp [withRoot, or_comm]

theorem pairwise_names (hnodup : names.Nodup) :
    (names.map fun name => [name]).Pairwise (Comes topdown) :=
  List.pairwise_map.mpr (hnodup.imp comes_of_ne)

theorem pairwise_below (hnodup : dirs.Nodup) (hsub : ∀ d ∈ dirs, (sub d).Pairwise (Comes topdown)) :
    (dirs.flatMap fun d => (sub d).map (d :: ·)).Pairwise (Comes topdown) := by
  refine List.pairwise_flatMap.mpr ⟨fun d hd => ?_, hnodup.imp fun hne => ?_⟩
  · exact List.pairwise_map.mpr ((hsub d hd).imp comes_cons)
  · intro x hx y hy
    obtain ⟨_, -, rfl⟩ := List.mem_map.mp hx
    obtain ⟨_, -, rfl⟩ := List.mem_map.mp hy
    exact comes_of_ne hne

/-- Lists in order are put together to a list in order. -/
theorem pairwise_treeOrder (hnames : names.Nodup) (hdirs : dirs.Nodup)
    (hsub : ∀ d ∈ dirs, (sub d).Pairwise (Comes topdown)) (hroot : ∀ d ∈ dirs, [] ∉ sub d) :
    (treeOrder topdown names dirs sub).Pairwise (Comes topdown) := by
  have hlong : ∀ x ∈ dirs.flatMap fun d => (sub d).map (d :: ·), ∀ name : α, ¬ x <+: [name] := by
    intro x hx name hway
    obtain ⟨d, hd, hx⟩ := List.mem_flatMap.mp hx
    obtain ⟨rest, hrest, rfl⟩ := List.mem_map.mp hx
    obtain rfl : rest = [] := List.prefix_nil.mp (List.cons_prefix_cons.mp hway).2
    exact hroot d hd hrest
  cases topdown with
  | false =>
    refine List.pairwise_append.mpr ⟨pairwise_below hdirs hsub, pairwise_names hnames, ?_⟩
    intro x hx y hy
    obtain ⟨name, -, rfl⟩ := List.mem_map.mp hy
    exact hlong x hx name
  | true =>
    refine List.pairwise_append.mpr ⟨pairwise_names hnames, pairwise_below hdirs hsub, ?_⟩
    intro x hx y hy
    obtain ⟨name, -, rfl⟩ := List.mem_map.mp hx
    exact hlong y hy name

/-- The root is in order with the others. -/
theorem pairwise_withRoot (hnodes : nodes.Pairwise (Comes topdown)) (hroot : [] ∉ nodes) :
    (withRoot topdown nodes).Pairwise (Comes topdown) := by
  have hnot : ∀ x ∈ nodes, ¬ x <+: [] := fun x hx hway => hroot (List.prefix_nil.mp hway ▸ hx)
  cases topdown with
  | false =>
    refine List.pairwise_append.mpr ⟨hnodes, List.pairwise_singleton _ _, fun x hx y hy => ?_⟩
    rw [List.mem_singleton.mp hy]
    exact hnot x hx
  | true => exact List.pairwise_cons.mpr ⟨hnot, hnodes⟩

/-! ## Reading the order off -/

/-- Two elements of a list stand in it in one order if they may not stand in the other. -/
theorem sublist_of_pairwise {β : Type*} {R : β → β → Prop} {list : List β} {x y : β}
    (hpairwise : list.Pairwise R) (hx : x ∈ list) (hy : y ∈ list) (hne : x ≠ y) (hnot : ¬ R y x) :
    [x, y].Sublist list := by
  induction list with
  | nil => cases hx
  | cons first list ih =>
    obtain ⟨hfirst, hrest⟩ := List.pairwise_cons.mp hpairwise
    rcases List.mem_cons.mp hx with rfl | hx'
    · have hy : y ∈ list := (List.mem_cons.mp hy).resolve_left hne.symm
      exact (List.singleton_sublist.mpr hy).cons_cons x
    · rcases List.mem_cons.mp hy with rfl | hy'
      · exact absurd (hfirst x hx') hnot
      · exact (ih hrest hx' hy').cons first

/-- What is in order has no repetitions. -/
theorem nodup_of_pairwise (hpairwise : nodes.Pairwise (Comes topdown)) : nodes.Nodup := by
  apply hpairwise.imp
  rintro x _ hcomes rfl
  exact not_comes_self x hcomes

/-- A node and one below it stand in the list as the order has it. -/
theorem sublist_of_comes (hpairwise : nodes.Pairwise (Comes topdown)) (ha : a ∈ nodes)
    (hb : b ∈ nodes) (hway : a <+: b) (hne : a ≠ b) :
    (if topdown then [a, b] else [b, a]).Sublist nodes := by
  cases topdown with
  | false => exact sublist_of_pairwise hpairwise hb ha hne.symm (not_not_intro hway)
  | true => exact sublist_of_pairwise hpairwise ha hb hne (not_not_intro hway)

end RpcProject.Foundations
