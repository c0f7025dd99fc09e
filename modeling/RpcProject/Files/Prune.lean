/-
# File systems without some of their nodes

Removing entries one by one leads through file systems that lack a set of nodes
and are otherwise as before. What such a file system is depends on the nodes in
the set only, and a path that leads to a node in it leads to the same node as
long as fewer nodes are gone.
-/

import Mathlib.Data.Set.Insert
import RpcProject.Files.Lookup

namespace RpcProject.Files

namespace Node

/-- A node of which only some of the entries are left. -/
def restrict (left : Name → Bool) : Node → Node
  | dir order access => dir (order.filter left) access
  | node => node

end Node

namespace FileSystem

open Classical in
/-- The file system without the nodes of a set. -/
noncomputable def prune (fs : FileSystem) (gone : Set Loc) : FileSystem :=
  { fs with
    node := fun loc =>
      if loc ∈ gone then none
      else (fs.node loc).map (Node.restrict fun name => IsDot name ∨ loc ++ [name] ∉ gone) }

variable {fs : FileSystem} {gone gone' : Set Loc} {loc : Loc} {name : Name} {node : Node}
  {order : List Name} {access : Access}

theorem prune_node_of_mem (hmem : loc ∈ gone) : (fs.prune gone).node loc = none := if_pos hmem

open Classical in
/-- What is left has lost the entries that are gone. -/
theorem prune_node_of_not_mem (hmem : loc ∉ gone) : (fs.prune gone).node loc =
    (fs.node loc).map (Node.restrict fun name => IsDot name ∨ loc ++ [name] ∉ gone) := if_neg hmem

theorem restrict_bare (left : Name → Bool) (node : Node) :
    (node.restrict left).bare = node.bare := by
  cases node <;> rfl

/-- What leads somewhere in a smaller tree does so in a larger one. -/
theorem persists_prune (hsub : gone ⊆ gone') : (fs.prune gone').Persists (fs.prune gone) := by
  classical
  intro loc node hnode
  by_cases hmem : loc ∈ gone'
  · rw [prune_node_of_mem hmem] at hnode
    cases hnode
  · rw [prune_node_of_not_mem hmem, Option.map_eq_some_iff] at hnode
    obtain ⟨original, horiginal, rfl⟩ := hnode
    refine ⟨_, by rw [prune_node_of_not_mem fun h => hmem (hsub h), horiginal]; rfl, ?_⟩
    rw [restrict_bare, restrict_bare]

theorem persists_of_prune : (fs.prune gone).Persists fs := by
  classical
  intro loc node hnode
  by_cases hmem : loc ∈ gone
  · rw [prune_node_of_mem hmem] at hnode
    cases hnode
  · rw [prune_node_of_not_mem hmem, Option.map_eq_some_iff] at hnode
    obtain ⟨original, horiginal, rfl⟩ := hnode
    exact ⟨original, horiginal, (restrict_bare _ _).symm⟩

theorem prune_node_of_not_dir (hmem : loc ∉ gone) (hnode : fs.node loc = some node)
    (hdir : node.isDir = false) : (fs.prune gone).node loc = some node := by
  rw [prune_node_of_not_mem hmem, hnode]
  cases node with
  | dir order access => cases hdir
  | file content => rfl
  | link target => rfl
  | special kind => rfl

/-- A directory that has lost none of its entries. -/
theorem prune_node_of_dir (hmem : loc ∉ gone) (hdir : fs.node loc = some (.dir order access))
    (hentries : ∀ name ∈ order, ¬ IsDot name → loc ++ [name] ∉ gone) :
    (fs.prune gone).node loc = some (.dir order access) := by
  classical
  rw [prune_node_of_not_mem hmem, hdir, Option.map_some, Node.restrict]
  congr 2
  rw [List.filter_eq_self]
  intro name hname
  by_cases hdot : IsDot name
  · simp [hdot]
  · simp [hentries name hname hdot]

theorem prune_congr (hfs : fs.WellFormed)
    (hsame : ∀ loc, (fs.node loc).isSome → (loc ∈ gone ↔ loc ∈ gone')) :
    fs.prune gone = fs.prune gone' := by
  classical
  have hnode : ∀ loc, (fs.prune gone).node loc = (fs.prune gone').node loc := by
    intro loc
    cases hnode : fs.node loc with
    | none => simp only [prune, hnode, Option.map_none, ite_self]
    | some node =>
      have hiff := hsame loc (by rw [hnode]; rfl)
      by_cases hmem : loc ∈ gone
      · rw [prune_node_of_mem hmem, prune_node_of_mem (hiff.mp hmem)]
      · rw [prune_node_of_not_mem hmem, prune_node_of_not_mem fun h => hmem (hiff.mpr h), hnode]
        cases node with
        | dir order access =>
          simp only [Option.map_some, Node.restrict]
          congr 2
          apply List.filter_congr
          intro name hname
          by_cases hdot : IsDot name
          · simp [hdot]
          · have hproper : Proper name := ⟨fun h => hfs.named loc _ _ hnode (h ▸ hname), hdot⟩
            have hchild := hsame _
              ((hfs.listed loc name).mpr ⟨hproper, order, access, hnode, hname⟩)
            simp [hdot, hchild]
        | file content => rfl
        | link target => rfl
        | special kind => rfl
  exact FileSystem.ext (funext hnode) rfl

/-- When nothing is gone the tree is as before. -/
theorem prune_empty : fs.prune ∅ = fs := by
  classical
  have hnode : ∀ loc, (fs.prune ∅).node loc = fs.node loc := by
    intro loc
    rw [prune_node_of_not_mem (Set.notMem_empty loc)]
    cases fs.node loc with
    | none => rfl
    | some node => cases node <;> simp [Node.restrict]
  exact FileSystem.ext (funext hnode) rfl

/-- The locations strictly below a location. -/
def below (loc : Loc) : Set Loc := {x | loc <+: x ∧ x ≠ loc}

theorem isSome_of_append (hfs : fs.WellFormed) {rest : Loc}
    (hsome : (fs.node (loc ++ rest)).isSome) : (fs.node loc).isSome := by
  induction rest using List.reverseRecOn with
  | nil => rwa [List.append_nil] at hsome
  | append_singleton rest name ih =>
    rw [← List.append_assoc] at hsome
    obtain ⟨-, order, access, hdir, -⟩ := (hfs.listed _ name).mp hsome
    exact ih (by rw [hdir]; rfl)

/-- The first step from a node to one below it is one of its entries. -/
theorem exists_entry_of_below (hfs : fs.WellFormed) {x : Loc} (hx : x ∈ below loc)
    (hsome : (fs.node x).isSome) :
    ∃ name rest order access, x = loc ++ [name] ++ rest ∧ Proper name ∧
      fs.node loc = some (.dir order access) ∧ name ∈ order := by
  obtain ⟨⟨tail, rfl⟩, hne⟩ := hx
  cases tail with
  | nil => exact absurd (List.append_nil _) hne
  | cons name rest =>
    have hsplit : loc ++ name :: rest = loc ++ [name] ++ rest := by simp
    rw [hsplit] at hsome
    obtain ⟨hproper, order, access, hdir, hmem⟩ :=
      (hfs.listed loc name).mp (isSome_of_append hfs hsome)
    exact ⟨name, rest, order, access, hsplit, hproper, hdir, hmem⟩

theorem node_of_below_leaf (hfs : fs.WellFormed) (hnode : fs.node loc = some node)
    (hentries : hasEntries node = false) {x : Loc} (hx : x ∈ below loc) : fs.node x = none := by
  by_contra hsome
  obtain ⟨name, rest, order, access, -, hproper, hdir, hmem⟩ :=
    exists_entry_of_below hfs hx (Option.isSome_iff_ne_none.mpr hsome)
  cases hnode.symm.trans hdir
  have hchild : name ∈ children order := List.mem_filter.mpr ⟨hmem, by simpa using hproper.2⟩
  simp only [hasEntries, decide_eq_false_iff_not, not_not] at hentries
  rw [hentries] at hchild
  exact List.not_mem_nil hchild

/-- Deleting a node takes it, and its name, out of what is left. -/
theorem delete_prune {parent : Loc} (hfs : fs.WellFormed) (hmem : parent ++ [name] ∉ gone)
    (hnode : (fs.node (parent ++ [name])).isSome) :
    (fs.prune gone).delete (parent ++ [name]) = fs.prune (gone ∪ {parent ++ [name]}) := by
  classical
  obtain ⟨⟨-, hdot⟩, order, access, hdir, -⟩ := (hfs.listed parent name).mp hnode
  have hsame : ∀ x, ((fs.prune gone).delete (parent ++ [name])).node x =
      (fs.prune (gone ∪ {parent ++ [name]})).node x := by
    intro x
    rw [delete_node]
    by_cases hx : x = parent ++ [name]
    · rw [if_pos hx, prune_node_of_mem (Or.inr hx)]
    · rw [if_neg hx]
      by_cases hgone : x ∈ gone
      · have hright : (fs.prune (gone ∪ {parent ++ [name]})).node x = none :=
          prune_node_of_mem (Or.inl hgone)
        rw [hright, prune_node_of_mem hgone]
        split
        · next hup => rw [← hup, prune_node_of_mem hgone, Option.map_none]
        · rfl
      · have hleft : x ∉ gone ∪ {parent ++ [name]} := fun h => h.elim hgone hx
        rw [prune_node_of_not_mem hleft]
        by_cases hup : x = parent
        · subst hup
          rw [if_pos rfl, prune_node_of_not_mem hgone, hdir]
          simp only [Option.map_some, Node.restrict, dropName]
          rw [List.Nodup.erase_eq_filter ((hfs.nodup _ _ _ hdir).filter _), List.filter_filter]
          congr 2
          apply List.filter_congr
          intro other _
          by_cases hother : other = name
          · subst hother
            simp [hdot]
          · simp [hother]
        · rw [if_neg hup, prune_node_of_not_mem hgone]
          congr 1
          funext node
          have hchild : ∀ other, x ++ [other] ≠ parent ++ [name] :=
            fun other h => hup (List.append_inj' h rfl).1
          cases node <;> simp [Node.restrict, hchild]
  exact FileSystem.ext (funext hsame) rfl

/-- Deleting a node without entries takes away all that is at or below it. -/
theorem delete_leaf (hfs : fs.WellFormed) (hroot : loc ≠ []) (hnode : fs.node loc = some node)
    (hentries : hasEntries node = false) : fs.delete loc = fs.prune {x | loc <+: x} := by
  obtain ⟨parent, name, rfl⟩ := (List.eq_nil_or_concat' loc).resolve_left hroot
  have hsome : (fs.node (parent ++ [name])).isSome := by rw [hnode]; rfl
  have hdelete := delete_prune hfs (Set.notMem_empty _) hsome
  rw [prune_empty] at hdelete
  rw [hdelete]
  refine prune_congr hfs fun x hx => ⟨?_, fun hbelow => ?_⟩
  · rintro (h | rfl)
    · exact absurd h (Set.notMem_empty x)
    · exact List.prefix_rfl
  · by_contra hne
    have hnone := node_of_below_leaf hfs hnode hentries ⟨hbelow, fun h => hne (Or.inr h)⟩
    rw [hnone] at hx
    cases hx

/-- A directory without its entries is empty. -/
theorem hasEntries_of_below_gone (hfs : fs.WellFormed) (hmem : loc ∉ gone)
    (hbelow : ∀ x ∈ below loc, (fs.node x).isSome → x ∈ gone)
    (hnode : (fs.prune gone).node loc = some node) : hasEntries node = false := by
  classical
  rw [prune_node_of_not_mem hmem, Option.map_eq_some_iff] at hnode
  obtain ⟨original, horiginal, rfl⟩ := hnode
  cases original with
  | file content => rfl
  | link target => rfl
  | special kind => rfl
  | dir order access =>
    simp only [Node.restrict, hasEntries, decide_eq_false_iff_not, not_not, children,
      List.filter_filter, List.filter_eq_nil_iff]
    intro name hname
    by_cases hdot : IsDot name
    · simp [hdot]
    · have hgone := hbelow (loc ++ [name]) ⟨List.prefix_append _ _, by simp⟩
        (hfs.isSome_of_mem horiginal hname hdot)
      simp [hdot, hgone]

/-- A directory that is left has kept what its owner may do with it. -/
theorem prune_node_dir (hmem : loc ∉ gone) (hdir : fs.node loc = some (.dir order access)) :
    ∃ order', (fs.prune gone).node loc = some (.dir order' access) := by
  classical
  rw [prune_node_of_not_mem hmem, hdir]
  exact ⟨_, rfl⟩

/-- Where no entries are left, all below is gone, if what is gone has taken all below along. -/
theorem below_gone_of_leaf (hfs : fs.WellFormed)
    (hclosed : ∀ x ∈ gone, (fs.node x).isSome → ∀ y ∈ below x, (fs.node y).isSome → y ∈ gone)
    (hmem : loc ∉ gone) (hnode : (fs.prune gone).node loc = some node)
    (hentries : hasEntries node = false) {x : Loc} (hx : x ∈ below loc)
    (hsome : (fs.node x).isSome) :
    x ∈ gone := by
  obtain ⟨name, rest, order, access, rfl, hproper, hdir, hname⟩ :=
    exists_entry_of_below hfs hx hsome
  have hentry : loc ++ [name] ∈ gone := by
    by_contra hleft
    obtain ⟨order', hdir'⟩ := prune_node_dir hmem hdir
    cases hnode.symm.trans hdir'
    have hlisted : name ∈ children order' := by
      rw [prune_node_of_not_mem hmem, hdir, Option.map_some, Node.restrict, Option.some.injEq,
        Node.dir.injEq] at hdir'
      rw [← hdir'.1]
      simp [children, hname, hproper.2, hleft]
    simp only [hasEntries, decide_eq_false_iff_not, not_not] at hentries
    rw [hentries] at hlisted
    exact List.not_mem_nil hlisted
  rcases eq_or_ne rest [] with rfl | hne
  · rwa [List.append_nil]
  · refine hclosed _ hentry (isSome_of_append hfs hsome) _ ⟨List.prefix_append _ _, ?_⟩ hsome
    simpa using hne

theorem prune_node_isSome (hmem : loc ∉ gone) (hnode : (fs.node loc).isSome) :
    ((fs.prune gone).node loc).isSome := by
  classical
  rw [prune_node_of_not_mem hmem, Option.isSome_map]
  exact hnode

end FileSystem

end RpcProject.Files
