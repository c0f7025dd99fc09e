/-
# Removing a tree

`remove` with `recursive` walks the tree from below, removes what `find` names,
and at last the path itself. A path that leads to a file, or to anything else
whose mode has the bit of regular files, is removed without a walk.

The walk takes links to directories for directories, and it raises where it
cannot find out a type. So a tree is removed, all of it and nothing else, if its
directories are listed right and each link in it leads to something that is there
and is not a directory, at the time when the directory of the link is listed.

Whatever the tree, a removal does not return if the caller may not take it away.
-/

import RpcProject.Files.EntryTests
import RpcProject.Files.Prune

namespace RpcProject.Files

open Foundations Server

/-! ## The calls -/

section Calls

variable (platform : Platform) (cwd : Loc)

/-- `Fs.is_file`: whether the mode has the bit. -/
def isFile (path : PosixPath) : Effect FileSystem Fault Bool := Effect.ask fun fs =>
  match fs.stat cwd true path with
  | .ok mode => .ok (mode &&& sIfreg ≠ 0)
  | .error errno => .error (.errno errno ("failed to stat(): " ++ path.text))

/-- `Fs._remove` -/
def removeOne (force : Bool) (path : PosixPath) : Effect FileSystem Fault Unit := fun fs =>
  match fs.remove cwd path with
  | .ok fs' => (.ok (), fs')
  | .error errno =>
      if force then (.ok (), fs) else
        (.error (.errno errno ("failed to remove: " ++ path.text)), fs)

/-- `Fs.remove` -/
def remove (fuel : ℕ) (path : PosixPath) (recursive force : Bool) :
    Effect FileSystem Fault Unit := do
  let single ← if recursive then isFile cwd path else pure true
  if single then removeOne cwd force path
  else find id platform cwd false (removeOne cwd force) fuel path

end Calls

/-! ## What is asked of a removal -/

/-- The caller may take an entry, and all entries below it, out of their directories. -/
def MayClear (fs : FileSystem) (loc : Loc) : Prop :=
  loc ≠ [] ∧ fs.mayChange loc.dropLast = true ∧
    ∀ rest order access, fs.node (loc ++ rest) = some (.dir order access) →
      FileSystem.children order ≠ [] → access.writable = true ∧ access.searchable = true

/-- A removal that returns has removed the entry with all below it and nothing
else, and it returns if the caller may do that. -/
def RemovesItsTree (fs : FileSystem) (platform : Platform) (cwd : Loc) (path : PosixPath) : Prop :=
  (∀ fuel fs', remove platform cwd fuel path true false fs = (.ok (), fs') →
      ∃ loc, fs.lookup cwd false path.strip = .found loc ∧ fs' = fs.prune {x | loc <+: x}) ∧
    ∀ loc, fs.lookup cwd false path.strip = .found loc → MayClear fs loc →
      ∃ fuel fs', remove platform cwd fuel path true false fs = (.ok (), fs')

/-- A name stands before another one in a directory. -/
def Precedes (order : List Name) (y x : Name) : Prop :=
  ∃ before after, order = before ++ x :: after ∧ y ∈ before

/-- What has been removed of a tree when one of its directories is listed: all
below the entries before those on the way to it. -/
def earlier (fs : FileSystem) (top loc : Loc) : Set Loc :=
  {z | ∃ dir x y order access, top <+: dir ∧ dir ++ [x] <+: loc ∧
    fs.node dir = some (.dir order access) ∧ Precedes order y x ∧
      z ∈ FileSystem.below (dir ++ [y])}

/-- A directory of a tree that the walk handles right: it can be read, "." and
".." come first, no path is too long for the server, and links lead to something
that is not a directory, in what is left of the tree when it is listed. -/
structure ListedRight (fs : FileSystem) (platform : Platform) (cwd : Loc) (path : PosixPath)
    (top rest : Loc) (order : List Name) (access : Access) : Prop where
  readable : access.readable = true
  first : DotsFirst order
  fits : ∀ name ∈ order, PathFits platform (path.joins rest).text name
  links : access.searchable = true → ∀ name ∈ order, ∀ target,
    fs.node (top ++ rest ++ [name]) = some (.link target) →
      ∃ mode, (fs.prune (earlier fs top (top ++ rest))).stat cwd true
          ((path.joins rest).slash name) =
          .ok mode ∧ Node.fileType mode ≠ sIfdir

/-- The condition. Either the path leads nowhere, or to a tree that the caller may not
clear; or it leads to something with the bit of regular files; or it names a directory,
leads there also when all below is gone, and each directory of the tree is handled right. -/
def Clearable (fs : FileSystem) (platform : Platform) (cwd : Loc) (path : PosixPath) : Prop :=
  (∀ loc, fs.lookup cwd false path.strip = .found loc → ¬ MayClear fs loc) ∨
    (∃ last, path.parts.getLast? = some last ∧ FileSystem.Proper last ∧
      ∃ mode, fs.stat cwd true path = .ok mode ∧ mode &&& sIfreg ≠ 0) ∨
    ∃ last top, path.strip.parts.getLast? = some last ∧ FileSystem.Proper last ∧
      (fs.prune (FileSystem.below top)).lookup cwd true path = .found top ∧
      (fs.prune (FileSystem.below top)).lookup cwd false path.strip = .found top ∧
      (∃ order access, fs.node top = some (.dir order access)) ∧
      ∀ rest order access, fs.node (top ++ rest) = some (.dir order access) →
        ListedRight fs platform cwd path top rest order access

variable {fs : FileSystem} {platform : Platform} {cwd loc top rest : Loc} {path q : PosixPath}
  {order : List Name} {access : Access} {name : Name} {node : Node}

/-! ## Removing one entry -/

theorem removeOne_eq_ok_iff {fs' : FileSystem} :
    removeOne cwd false path fs = (.ok (), fs') ↔ fs.remove cwd path = .ok fs' := by
  rw [removeOne]
  cases fs.remove cwd path with
  | ok fs'' => simp
  | error errno => simp

/-- What is removed is an entry without entries of its own. -/
theorem removeOne_prunes (hfs : fs.WellFormed) {fs' : FileSystem}
    (hrun : removeOne cwd false path fs = (.ok (), fs')) :
    ∃ loc, fs.lookup cwd false path.strip = .found loc ∧ fs' = fs.prune {x | loc <+: x} := by
  obtain ⟨last, loc, node, -, -, hlookup, hnode, hremove⟩ :=
    FileSystem.remove_eq_ok_iff.mp (removeOne_eq_ok_iff.mp hrun)
  obtain ⟨hroot, -, -, hentries, rfl⟩ := FileSystem.removeAt_eq_ok_iff.mp hremove
  exact ⟨loc, hlookup, FileSystem.delete_leaf hfs hroot hnode hentries⟩

theorem dir_mode_and_sIfreg (access : Access) : (sIfdir + access.mode) &&& sIfreg = 0 := by
  rcases access with ⟨_ | _, _ | _, _ | _⟩ <;> decide

theorem isFile_eq_ok_iff {b : Bool} {fs' : FileSystem} : isFile cwd path fs = (.ok b, fs') ↔
    fs' = fs ∧ ∃ mode, fs.stat cwd true path = .ok mode ∧ b = decide (mode &&& sIfreg ≠ 0) := by
  rw [isFile, Effect.ask]
  cases fs.stat cwd true path with
  | ok mode => simp [eq_comm, and_comm]
  | error errno => simp

/-- A path to something with the bit of regular files is removed at once. -/
theorem removesItsTree_of_file (hfs : fs.WellFormed) {last : Name} {mode : ℕ}
    (hlast : path.parts.getLast? = some last) (hproper : FileSystem.Proper last)
    (hstat : fs.stat cwd true path = .ok mode) (hbit : mode &&& sIfreg ≠ 0) :
    RemovesItsTree fs platform cwd path := by
  have hstrip : path.strip = path := FileSystem.strip_of_proper hlast hproper.1
  have hfile : isFile cwd path fs = (.ok true, fs) :=
    isFile_eq_ok_iff.mpr ⟨rfl, mode, hstat, (decide_eq_true hbit).symm⟩
  have hremove : ∀ fuel, remove platform cwd fuel path true false fs =
      removeOne cwd false path fs := fun fuel => Effect.bind_of_ok hfile
  constructor
  · intro fuel fs' hrun
    rw [hremove] at hrun
    exact removeOne_prunes hfs hrun
  · rintro loc hlookup ⟨hroot, hchange, -⟩
    rw [hstrip] at hlookup
    obtain ⟨found, node, hfound, hnode, rfl⟩ := stat_eq_ok_iff.mp hstat
    have hentry : ∃ node, fs.node loc = some node ∧ FileSystem.hasEntries node = false := by
      -- `stat` has followed a link at the end, `remove` takes the link itself
      by_cases hlink : ∃ target, fs.node loc = some (.link target)
      · obtain ⟨target, htarget⟩ := hlink
        exact ⟨_, htarget, rfl⟩
      · have hsame := FileSystem.lookup_follow hlookup fun target h => hlink ⟨target, h⟩
        cases hsame.symm.trans hfound
        refine ⟨node, hnode, ?_⟩
        cases node with
        | dir order access => exact absurd (dir_mode_and_sIfreg access) hbit
        | file content => rfl
        | link target => rfl
        | special kind => rfl
    obtain ⟨entry, hentry, hempty⟩ := hentry
    refine ⟨0, fs.delete loc, ?_⟩
    rw [hremove, removeOne_eq_ok_iff, FileSystem.remove_eq_ok_iff, hstrip]
    exact ⟨last, loc, entry, hlast, hproper.2, hlookup, hentry,
      FileSystem.removeAt_eq_ok_iff.mpr ⟨hroot, Or.inr (by simp), hchange, hempty, rfl⟩⟩

/-! ## Listing a directory of the tree -/

/-- A directory as the walk finds it: its entries are there, and it is handled right. -/
structure FoundRight (fs : FileSystem) (platform : Platform) (cwd : Loc) (q : PosixPath) (loc : Loc)
    (order : List Name) (access : Access) : Prop where
  found : fs.lookup cwd true q = .found loc
  dir : fs.node loc = some (.dir order access)
  readable : access.readable = true
  first : DotsFirst order
  fits : ∀ name ∈ order, PathFits platform q.text name
  named : "" ∉ order
  entries : ∀ name ∈ order, ¬ IsDot name → (fs.node (loc ++ [name])).isSome
  links : access.searchable = true → ∀ name ∈ order, ∀ target,
    fs.node (loc ++ [name]) = some (.link target) →
      ∃ mode, fs.stat cwd true (q.slash name) = .ok mode ∧ Node.fileType mode ≠ sIfdir

theorem FoundRight.listing (h : FoundRight fs platform cwd q loc order access) :
    fs.scandir platform cwd q =
      .ok ((FileSystem.children order).map (fs.entryAt cwd q loc)) :=
  FileSystem.scandir_children platform h.found h.dir h.readable h.first h.fits

/-- The walk sorts the entries right, and it does so if the directory can be searched. -/
theorem FoundRight.sorts (h : FoundRight fs platform cwd q loc order access) :
    Effect.Achieves (FileSystem.children order ≠ [] → access.searchable = true)
      (survey id platform cwd none q) fs
      ((FileSystem.children order).filter (isDirAt fs loc),
        (FileSystem.children order).filter fun name => !isDirAt fs loc name) fs := by
  have hsurvey : survey id platform cwd none q fs = (sortEntries none q
      (.ok ((FileSystem.children order).map (fs.entryAt cwd q loc))) >>= settle none) fs := by
    rw [← h.listing]
    rfl
  by_cases htested : ∀ entry ∈ (FileSystem.children order).map (fs.entryAt cwd q loc),
      entry.isDir q = .ok (isDirAt fs loc entry.dName)
  · apply Effect.achieves_of_eq
    rw [hsurvey, sortEntries, classify_of_tested htested, namesWith_map_entryAt fun _ => rfl,
      namesWith_map_entryAt fun _ => rfl]
    rfl
  · -- a test that fails is one of an entry in a directory that cannot be searched
    obtain ⟨entry, hentry, hfailed⟩ := not_forall₂.mp htested
    obtain ⟨name, hname, rfl⟩ := List.mem_map.mp hentry
    obtain ⟨hmem, hdot⟩ := List.mem_filter.mp hname
    have hdot : ¬ IsDot name := by simpa using hdot
    have hproper : FileSystem.Proper name := ⟨fun hempty => h.named (hempty ▸ hmem), hdot⟩
    obtain ⟨node, hnode⟩ := Option.isSome_iff_exists.mp (h.entries name hmem hdot)
    have hvalue : isDirAt fs loc name = node.isDir := by rw [isDirAt, hnode, Option.any_some]
    rcases isDir_entryAt h.found h.dir hproper hnode fun hsearch target hlink =>
        h.links hsearch name hmem target (hlink ▸ hnode) with hright | ⟨hsearch, e, herror⟩
    · exact absurd (hright.trans (congrArg _ hvalue.symm)) hfailed
    · obtain ⟨d, f, e', hclassify⟩ := classify_none_of_failed [] [] hentry herror
      refine Effect.achieves_of_error (e := e') ?_ fun hpermitted => ?_
      · rw [hsurvey, sortEntries, hclassify]
        rfl
      · have := hpermitted (List.ne_nil_of_mem hname)
        rw [hsearch] at this
        cases this

/-! ## Removing the entries of a directory -/

theorem mayChange_of_dir (hdir : fs.node loc = some (.dir order access)) :
    fs.mayChange loc = (access.writable && access.searchable) := by
  rw [FileSystem.mayChange, hdir]

/-- Removing an entry below which all is gone. -/
theorem removeOne_entry (hfs : fs.WellFormed) {gone : Set Loc}
    (hfound : (fs.prune gone).lookup cwd true q = .found loc)
    (hdir : fs.node loc = some (.dir order access)) (hloc : loc ∉ gone) (hname : name ∈ order)
    (hdot : ¬ IsDot name) (hleft : loc ++ [name] ∉ gone)
    (hbelow : ∀ x ∈ FileSystem.below (loc ++ [name]), (fs.node x).isSome → x ∈ gone) :
    Effect.Achieves (access.writable = true ∧ access.searchable = true)
      (removeOne cwd false (q.join name)) (fs.prune gone) ()
        (fs.prune (gone ∪ {loc ++ [name]})) := by
  have hproper := hfs.proper_of_mem hdir hname hdot
  have hsome := hfs.isSome_of_mem hdir hname hdot
  have hdelete := FileSystem.delete_prune hfs hleft hsome
  obtain ⟨node, hnode⟩ := Option.isSome_iff_exists.mp (FileSystem.prune_node_isSome hleft hsome)
  have hempty := FileSystem.hasEntries_of_below_gone hfs hleft hbelow hnode
  obtain ⟨order', hdir'⟩ := FileSystem.prune_node_dir hloc hdir
  have hlast : (q.join name).parts.getLast? = some name := List.getLast?_concat
  have hstrip : (q.join name).strip = q.join name := FileSystem.strip_of_proper hlast hproper.1
  have hlookup : (fs.prune gone).lookup cwd false (q.join name) =
      if access.searchable = false then .failed eacces else .found (loc ++ [name]) :=
    FileSystem.lookup_join_entry hfound hdir' hproper hnode (by simp)
  constructor
  · intro _ fs' hrun
    refine ⟨rfl, ?_⟩
    obtain ⟨last, dest, node', -, -, hdest, -, hremove⟩ :=
      FileSystem.remove_eq_ok_iff.mp (removeOne_eq_ok_iff.mp hrun)
    rw [hstrip, hlookup] at hdest
    split at hdest
    · cases hdest
    · cases hdest
      obtain ⟨-, -, -, -, rfl⟩ := FileSystem.removeAt_eq_ok_iff.mp hremove
      exact hdelete
  · rintro ⟨hwrite, hsearch⟩
    have hchange : (fs.prune gone).mayChange (loc ++ [name]).dropLast = true := by
      rw [List.dropLast_concat, mayChange_of_dir hdir', hwrite, hsearch]
      rfl
    rw [hsearch, if_neg (by simp)] at hlookup
    rw [removeOne_eq_ok_iff, FileSystem.remove_eq_ok_iff, hstrip, ← hdelete]
    exact ⟨name, _, node, hlast, hdot, hlookup, hnode,
      FileSystem.removeAt_eq_ok_iff.mpr ⟨by simp, Or.inr (by simp), hchange, hempty, rfl⟩⟩

/-! ## What is gone before a directory is listed -/

/-- The names of a directory in a list. -/
def entriesAt (loc : Loc) (names : List Name) : Set Loc := {z | ∃ name ∈ names, z = loc ++ [name]}

/-- What is below the names of a directory in a list. -/
def belowEntries (loc : Loc) (names : List Name) : Set Loc :=
  {z | ∃ name ∈ names, z ∈ FileSystem.below (loc ++ [name])}

theorem earlier_self (fs : FileSystem) (top : Loc) : earlier fs top top = ∅ := by
  apply Set.eq_empty_of_forall_notMem
  rintro z ⟨dir, x, y, order, access, htop, hdir, -⟩
  have hle := (hdir.trans htop).length_le
  rw [List.length_append, List.length_singleton] at hle
  exact Nat.not_succ_le_self _ hle

theorem earlier_concat (htop : top <+: loc) (hdir : fs.node loc = some (.dir order access)) :
    earlier fs top (loc ++ [name]) =
      earlier fs top loc ∪ {z | ∃ y, Precedes order y name ∧
        z ∈ FileSystem.below (loc ++ [y])} := by
  ext z
  constructor
  · rintro ⟨dir, x, y, order', access', htop', hway, hnode, hy, hz⟩
    -- the way may turn off at the new directory, or above it
    rcases List.prefix_concat_iff.mp hway with hlast | hway
    · obtain ⟨rfl, hname⟩ := List.append_inj' hlast rfl
      cases hname
      cases hnode.symm.trans hdir
      exact Or.inr ⟨y, hy, hz⟩
    · exact Or.inl ⟨dir, x, y, order', access', htop', hway, hnode, hy, hz⟩
  · rintro (⟨dir, x, y, order', access', htop', hway, hnode, hy, hz⟩ | ⟨y, hy, hz⟩)
    · exact ⟨dir, x, y, order', access', htop', hway.trans (List.prefix_append _ _), hnode, hy, hz⟩
    · exact ⟨loc, name, y, order, access, htop, List.prefix_rfl, hdir, hy, hz⟩

theorem Precedes.ne {x y : Name} (h : Precedes order y x) (hnodup : order.Nodup) : y ≠ x := by
  obtain ⟨before, after, rfl, hy⟩ := h
  rintro rfl
  exact (List.nodup_append.mp hnodup).2.2 y hy y List.mem_cons_self rfl

/-- What is gone lies off the way to the directory, and not below it. -/
theorem not_mem_earlier (hfs : fs.WellFormed) {x : Loc} (hway : x <+: loc ∨ loc <+: x) :
    x ∉ earlier fs top loc := by
  rintro ⟨dir, name, other, order, access, -, hdir, hnode, hother, hbelow, -⟩
  have hboth : ∃ whole, dir ++ [name] <+: whole ∧ dir ++ [other] <+: whole := by
    rcases hway with hway | hway
    · exact ⟨loc, hdir, hbelow.trans hway⟩
    · exact ⟨x, hdir.trans hway, hbelow⟩
  -- two prefixes of one length of the same location are equal, but the names differ
  obtain ⟨whole, hname, hother'⟩ := hboth
  have hsame := List.prefix_of_prefix_length_le hother' hname (by simp)
  obtain ⟨-, htail⟩ := List.append_inj' (hsame.eq_of_length (by simp)) rfl
  exact hother.ne (hfs.nodup _ _ _ hnode) (List.head_eq_of_cons_eq htail)

theorem earlier_subset_below (fs : FileSystem) (top loc : Loc) :
    earlier fs top loc ⊆ FileSystem.below top := by
  rintro z ⟨dir, x, y, order, access, htop, -, -, -, hz, -⟩
  have hway := (htop.trans (List.prefix_append dir [y])).trans hz
  refine ⟨hway, ?_⟩
  rintro rfl
  have hle := (hz.trans htop).length_le
  rw [List.length_append, List.length_singleton] at hle
  exact Nat.not_succ_le_self _ hle

/-- A name stands in one place of a list without repetitions. -/
theorem before_eq_of_nodup {names before before' after after' : List Name} (hnodup : names.Nodup)
    (hsplit : names = before ++ name :: after) (hsplit' : names = before' ++ name :: after') :
    before = before' := by
  have hnot : name ∉ before ++ after :=
    (List.nodup_cons.mp (List.nodup_middle.mp (hsplit ▸ hnodup))).1
  rw [List.mem_append, not_or] at hnot
  exact ((List.append_cons_inj_of_notMem hnot.1 hnot.2).mp (hsplit.symm.trans hsplit')).1

/-- Some of the names of a directory, in its order: what stands before one of them. -/
theorem mem_before_iff {keep : Name → Bool} {before after : List Name} {x y : Name}
    (hnodup : order.Nodup) (hsplit : order.filter keep = before ++ x :: after) :
    y ∈ before ↔ Precedes order y x ∧ keep y = true := by
  have hmem : x ∈ order.filter keep := hsplit ▸ List.mem_append_right _ List.mem_cons_self
  have hkeep := (List.mem_filter.mp hmem).2
  have hbefore : ∀ first last, order = first ++ x :: last → before = first.filter keep := by
    intro first last horder
    have hfilter : order.filter keep = first.filter keep ++ x :: last.filter keep := by
      rw [horder, List.filter_append, List.filter_cons_of_pos hkeep]
    exact before_eq_of_nodup (hnodup.filter keep) hsplit hfilter
  constructor
  · intro hy
    obtain ⟨first, last, horder⟩ := List.append_of_mem (List.mem_filter.mp hmem).1
    rw [hbefore first last horder, List.mem_filter] at hy
    exact ⟨⟨first, last, horder, hy.1⟩, hy.2⟩
  · rintro ⟨⟨first, last, horder, hy⟩, hkept⟩
    rw [hbefore first last horder]
    exact List.mem_filter.mpr ⟨hy, hkept⟩

/-! ## Paths into a tree of which parts are gone -/

/-- The path leads to a location of the tree as long as what is on the way there is left. -/
def Leads (fs : FileSystem) (cwd top loc : Loc) (q : PosixPath) : Prop :=
  (fs.prune (FileSystem.below top \ {x | x <+: loc})).lookup cwd true q = .found loc

theorem Leads.lookup (h : Leads fs cwd top loc q) {gone : Set Loc}
    (hgone : gone ⊆ FileSystem.below top \ {x | x <+: loc}) :
    (fs.prune gone).lookup cwd true q = .found loc :=
  (FileSystem.persists_prune hgone).lookup h

theorem isDirAt_eq_true_iff : isDirAt fs loc name = true ↔
    ∃ order access, fs.node (loc ++ [name]) = some (.dir order access) := by
  rw [isDirAt]
  rcases fs.node (loc ++ [name]) with _ | (_ | _ | _ | _) <;> simp [Node.isDir]

theorem Leads.join (h : Leads fs cwd top loc q) (hdir : fs.node loc = some (.dir order access))
    (hsearch : access.searchable = true) (hproper : FileSystem.Proper name)
    (hchild : isDirAt fs loc name = true) : Leads fs cwd top (loc ++ [name]) (q.join name) := by
  have hleft : ∀ x, x <+: loc ++ [name] →
      x ∉ FileSystem.below top \ {x | x <+: loc ++ [name]} := fun x hx hgone => hgone.2 hx
  have hmore : FileSystem.below top \ {x | x <+: loc ++ [name]} ⊆
      FileSystem.below top \ {x | x <+: loc} :=
    fun x hx => ⟨hx.1, fun hway => hx.2 (hway.trans (List.prefix_append _ _))⟩
  have hfound := h.lookup hmore
  obtain ⟨childOrder, childAccess, hnode⟩ := isDirAt_eq_true_iff.mp hchild
  obtain ⟨left, hdir'⟩ := FileSystem.prune_node_dir (hleft loc (List.prefix_append _ _)) hdir
  obtain ⟨childLeft, hnode'⟩ := FileSystem.prune_node_dir (hleft _ List.prefix_rfl) hnode
  rw [Leads, FileSystem.lookup_join_entry hfound hdir' hproper hnode' (fun _ _ h => by cases h),
    hsearch, if_neg (by simp)]

theorem isDirAt_prune {gone : Set Loc} (hleft : loc ++ [name] ∉ gone) :
    isDirAt (fs.prune gone) loc name = isDirAt fs loc name := by
  rw [isDirAt, isDirAt, FileSystem.prune_node_of_not_mem hleft, Option.any_map]
  congr 1
  funext node
  cases node <;> rfl

theorem earlier_subset (hfs : fs.WellFormed) :
    earlier fs top loc ⊆ FileSystem.below top \ {x | x <+: loc} :=
  fun _ hx => ⟨earlier_subset_below fs top loc hx, fun hway => not_mem_earlier hfs (Or.inl hway) hx⟩

theorem child_not_mem_earlier (hfs : fs.WellFormed) (name : Name) :
    loc ++ [name] ∉ earlier fs top loc :=
  not_mem_earlier hfs (Or.inr (List.prefix_append _ _))

theorem ListedRight.foundRight (hfs : fs.WellFormed)
    (h : ListedRight fs platform cwd path top rest order access)
    (hdir : fs.node (top ++ rest) = some (.dir order access))
    (hleads : Leads fs cwd top (top ++ rest) (path.joins rest)) :
    FoundRight (fs.prune (earlier fs top (top ++ rest))) platform cwd (path.joins rest)
      (top ++ rest) order access where
  found := hleads.lookup (earlier_subset hfs)
  dir := FileSystem.prune_node_of_dir (not_mem_earlier hfs (Or.inl List.prefix_rfl)) hdir
    fun name _ _ => child_not_mem_earlier hfs name
  readable := h.readable
  first := h.first
  fits := h.fits
  named := hfs.named _ _ _ hdir
  entries name hname hdot :=
    FileSystem.prune_node_isSome (child_not_mem_earlier hfs name)
      (hfs.isSome_of_mem hdir hname hdot)
  links hsearch name hname target hlink :=
    h.links hsearch name hname target
      (FileSystem.persists_of_prune.node_of_not_dir hlink rfl)

/-! ## The walk removes what is below -/

theorem mem_earlier_concat_iff (hfs : fs.WellFormed) (htop : top <+: loc)
    (hdir : fs.node loc = some (.dir order access)) {before after : List Name} {x : Loc}
    (hsplit : (FileSystem.children order).filter (isDirAt fs loc) = before ++ name :: after)
    (hx : (fs.node x).isSome) :
    x ∈ earlier fs top (loc ++ [name]) ↔ x ∈ earlier fs top loc ∪ belowEntries loc before := by
  rw [FileSystem.children, List.filter_filter] at hsplit
  have hbefore : ∀ other, other ∈ before ↔ Precedes order other name ∧ _ :=
    fun _ => mem_before_iff (hfs.nodup _ _ _ hdir) hsplit
  rw [earlier_concat htop hdir]
  refine or_congr Iff.rfl ⟨?_, ?_⟩
  · rintro ⟨other, hother, hbelow⟩
    -- what has entries is a directory
    obtain ⟨entry, rest, childOrder, childAccess, -, -, hchild, -⟩ :=
      FileSystem.exists_entry_of_below hfs hbelow hx
    have hproper := ((hfs.listed loc other).mp (by rw [hchild]; rfl)).1
    have hisDir : isDirAt fs loc other = true := isDirAt_eq_true_iff.mpr ⟨_, _, hchild⟩
    exact ⟨other, (hbefore other).mpr ⟨hother, by simpa [hisDir] using hproper.2⟩, hbelow⟩
  · rintro ⟨other, hother, hbelow⟩
    exact ⟨other, ((hbefore other).mp hother).1, hbelow⟩

theorem entriesAt_concat (loc : Loc) (names : List Name) (name : Name) :
    entriesAt loc (names ++ [name]) = entriesAt loc names ∪ {loc ++ [name]} := by
  ext z
  simp [entriesAt, or_and_right, exists_or, or_comm]

theorem belowEntries_concat (loc : Loc) (names : List Name) (name : Name) :
    belowEntries loc (names ++ [name]) =
      belowEntries loc names ∪ FileSystem.below (loc ++ [name]) := by
  ext z
  simp [belowEntries, or_and_right, exists_or]

theorem entriesAt_subset (htop : top <+: loc) (names : List Name) :
    entriesAt loc names ⊆ FileSystem.below top \ {x | x <+: loc} := by
  rintro z ⟨name, -, rfl⟩
  refine ⟨⟨htop.trans (List.prefix_append _ _), ?_⟩, fun hway => ?_⟩
  · rintro rfl
    simpa using htop.length_le
  · simpa using hway.length_le

theorem belowEntries_subset (htop : top <+: loc) (names : List Name) :
    belowEntries loc names ⊆ FileSystem.below top \ {x | x <+: loc} := by
  rintro z ⟨name, -, hway, hne⟩
  have hlong : loc.length < z.length := by
    simpa [Nat.succ_le_iff] using hway.length_le
  refine ⟨⟨(htop.trans (List.prefix_append _ _)).trans hway, ?_⟩, fun hway => ?_⟩
  · rintro rfl
    exact absurd htop.length_le (Nat.not_le_of_lt hlong)
  · exact absurd hway.length_le (Nat.not_le_of_lt hlong)

/-- Removing entries of a directory below which all is gone. -/
theorem removes_entries (hfs : fs.WellFormed) (htop : top <+: loc)
    (hdir : fs.node loc = some (.dir order access)) (hleads : Leads fs cwd top loc q)
    {names : List Name} (hnames : ∀ name ∈ names, name ∈ FileSystem.children order)
    (hnodup : names.Nodup) {gone : Set Loc} (hgone : gone ⊆ FileSystem.below top \ {x | x <+: loc})
    (hleft : ∀ name ∈ names, loc ++ [name] ∉ gone)
    (hbelow : ∀ name ∈ names, ∀ x ∈ FileSystem.below (loc ++ [name]), (fs.node x).isSome →
    x ∈ gone) :
    Effect.Achieves
      (FileSystem.children order ≠ [] → access.writable = true ∧ access.searchable = true)
      (Effect.forEach (fun name => removeOne cwd false (q.join name)) names)
      (fs.prune gone) () (fs.prune (gone ∪ entriesAt loc names)) := by
  have hstart : fs.prune gone = fs.prune (gone ∪ entriesAt loc []) := by simp [entriesAt]
  rw [hstart]
  apply Effect.Achieves.forEach (fun before => fs.prune (gone ∪ entriesAt loc before))
  rintro before name after rfl
  have hmem : name ∈ before ++ name :: after := List.mem_append_right _ List.mem_cons_self
  obtain ⟨hname, hdot⟩ := List.mem_filter.mp (hnames name hmem)
  have hgone' : gone ∪ entriesAt loc before ⊆ FileSystem.below top \ {x | x <+: loc} :=
    Set.union_subset hgone (entriesAt_subset htop before)
  have hnew : loc ++ [name] ∉ gone ∪ entriesAt loc before := by
    rintro (hold | ⟨other, hother, hsame⟩)
    · exact hleft name hmem hold
    · obtain ⟨-, hsame⟩ := List.append_inj' hsame rfl
      cases hsame
      exact (List.nodup_append.mp hnodup).2.2 _ hother _ List.mem_cons_self rfl
  have hstep := removeOne_entry hfs (hleads.lookup hgone') hdir
    (fun h => (hgone' h).2 List.prefix_rfl) hname (by simpa using hdot) hnew
    fun x hx hsome => Or.inl (hbelow name hmem x hx hsome)
  rw [Set.union_assoc, ← entriesAt_concat] at hstep
  exact hstep.mono fun hpermitted => hpermitted (List.ne_nil_of_mem (hnames name hmem))

/-- What the walk yields for a directory has the names of its entries. -/
theorem below_eq_entries (hfs : fs.WellFormed) (hdir : fs.node loc = some (.dir order access))
    {dirs files : List Name} (hdirs : dirs = (FileSystem.children order).filter (isDirAt fs loc))
    (hfiles : files = (FileSystem.children order).filter fun name => !isDirAt fs loc name)
    {x : Loc} (hx : (fs.node x).isSome) :
    x ∈ FileSystem.below loc ↔
      x ∈ belowEntries loc dirs ∪ entriesAt loc files ∪ entriesAt loc dirs := by
  have hchild : ∀ name, loc ++ [name] ∈ FileSystem.below loc := fun name =>
    ⟨List.prefix_append _ _, by simp⟩
  constructor
  · intro hbelow
    obtain ⟨name, rest, _, _, rfl, hproper, hdir', hname⟩ :=
      FileSystem.exists_entry_of_below hfs hbelow hx
    cases hdir.symm.trans hdir'
    have hmem : name ∈ FileSystem.children order :=
      List.mem_filter.mpr ⟨hname, by simpa using hproper.2⟩
    cases hisDir : isDirAt fs loc name with
    | true =>
      have hdirs' : name ∈ dirs := hdirs ▸ List.mem_filter.mpr ⟨hmem, hisDir⟩
      by_cases hrest : rest = []
      · rw [hrest, List.append_nil]
        exact Or.inr ⟨name, hdirs', rfl⟩
      · exact Or.inl (Or.inl ⟨name, hdirs', List.prefix_append _ _, by simpa using hrest⟩)
    | false =>
      have hfiles' : name ∈ files := hfiles ▸ List.mem_filter.mpr ⟨hmem, by simp [hisDir]⟩
      by_cases hrest : rest = []
      · rw [hrest, List.append_nil]
        exact Or.inl (Or.inr ⟨name, hfiles', rfl⟩)
      · -- a node below the entry would make it a directory
        have hdeeper : loc ++ [name] ++ rest ∈ FileSystem.below (loc ++ [name]) :=
          ⟨List.prefix_append _ _, by simpa using hrest⟩
        obtain ⟨_, _, _, _, -, -, hdir', -⟩ := FileSystem.exists_entry_of_below hfs hdeeper hx
        rw [isDirAt_eq_true_iff.mpr ⟨_, _, hdir'⟩] at hisDir
        cases hisDir
  · rintro ((⟨name, -, hway, hne⟩ | ⟨name, -, rfl⟩) | ⟨name, -, rfl⟩)
    · refine ⟨(List.prefix_append _ _).trans hway, ?_⟩
      rintro rfl
      simpa using hway.length_le
    · exact hchild name
    · exact hchild name

/-- A walk does not return where a name leads into a directory that cannot be searched. -/
theorem walk_eq_error (platform : Platform) (hfound : fs.lookup cwd true q = .found loc)
    (hdir : fs.node loc = some (.dir order access)) (hsearch : access.searchable = false)
    (hproper : FileSystem.Proper name) (emit : Visit → Effect FileSystem Fault Unit) (fuel : ℕ) :
    ∃ e, (walk id platform cwd false none emit fuel (q.join name) fs).1 = .error e := by
  cases fuel with
  | zero => exact ⟨.outOfFuel, rfl⟩
  | succ fuel =>
    obtain ⟨left, hlookup⟩ := FileSystem.lookup_join hfound hproper.1
    have hfailed : fs.entries cwd (q.join name) = .error eacces := by
      rw [FileSystem.entries, FileSystem.readdir, hlookup, FileSystem.resolve_proper hproper hdir,
        if_pos hsearch]
    obtain ⟨e, hlisting⟩ := FileSystem.scandir_of_error platform hfailed
    have hsurvey : survey id platform cwd none (q.join name) fs = (.error e, fs) := by
      have hrun : survey id platform cwd none (q.join name) fs =
          (sortEntries none (q.join name) (fs.scandir platform cwd (q.join name)) >>=
            settle none) fs := rfl
      rw [hrun, hlisting]
      rfl
    exact ⟨e, congrArg Prod.fst (Effect.bind_of_error hsurvey)⟩

/-- What runs when the walk yields for a directory below whose entries all is gone. -/
theorem yieldNames_clears (hfs : fs.WellFormed) (htop : top <+: loc)
    (hdir : fs.node loc = some (.dir order access)) (hleads : Leads fs cwd top loc q)
    {dirs files : List Name} (hdirs : dirs = (FileSystem.children order).filter (isDirAt fs loc))
    (hfiles : files = (FileSystem.children order).filter fun name => !isDirAt fs loc name) :
    Effect.Achieves
      (FileSystem.children order ≠ [] → access.writable = true ∧ access.searchable = true)
      (yieldNames (removeOne cwd false) ⟨q, dirs, files⟩)
      (fs.prune (earlier fs top loc ∪ belowEntries loc dirs)) ()
      (fs.prune (earlier fs top loc ∪ FileSystem.below loc)) := by
  have hnodup := hfs.nodup_children hdir
  have hgone : earlier fs top loc ∪ belowEntries loc dirs ⊆
      FileSystem.below top \ {x | x <+: loc} :=
    Set.union_subset (earlier_subset hfs) (belowEntries_subset htop dirs)
  have hgone' : earlier fs top loc ∪ belowEntries loc dirs ∪ entriesAt loc files ⊆
      FileSystem.below top \ {x | x <+: loc} := Set.union_subset hgone (entriesAt_subset htop files)
  have hleft : ∀ name, loc ++ [name] ∉ earlier fs top loc ∪ belowEntries loc dirs := by
    rintro name (hearlier | ⟨other, -, hway, hne⟩)
    · exact child_not_mem_earlier hfs name hearlier
    · exact hne (hway.eq_of_length (by simp)).symm
  have hends : fs.prune (earlier fs top loc ∪ FileSystem.below loc) =
      fs.prune (earlier fs top loc ∪ belowEntries loc dirs ∪ entriesAt loc files ∪
        entriesAt loc dirs) := by
    apply FileSystem.prune_congr hfs
    intro x hx
    rw [Set.union_assoc, Set.union_assoc, Set.mem_union, Set.mem_union,
      below_eq_entries hfs hdir hdirs hfiles hx, Set.union_assoc]
  have hremoved := removes_entries hfs htop hdir hleads
    (fun name hname => (List.mem_filter.mp (hfiles ▸ hname)).1) (hfiles ▸ hnodup.filter _) hgone
    (fun name _ => hleft name) ?_
  · rw [hends]
    refine hremoved.bind (removes_entries hfs htop hdir hleads
      (fun name hname => (List.mem_filter.mp (hdirs ▸ hname)).1) (hdirs ▸ hnodup.filter _) hgone' ?_
      fun name hname x hx _ => Or.inl (Or.inr ⟨name, hname, hx⟩))
    rintro name hname (hbefore | ⟨other, hother, hsame⟩)
    · exact hleft name hbefore
    · obtain ⟨-, hsame⟩ := List.append_inj' hsame rfl
      cases hsame
      have hisDir := (List.mem_filter.mp (hdirs ▸ hname)).2
      have hnotDir := (List.mem_filter.mp (hfiles ▸ hother)).2
      simp [hisDir] at hnotDir
  · -- there is nothing below what is no directory
    intro name hname x hx hsome
    obtain ⟨_, _, _, _, -, -, hchild, -⟩ := FileSystem.exists_entry_of_below hfs hx hsome
    have hisDir := isDirAt_eq_true_iff.mpr ⟨_, _, hchild⟩
    have hnotDir := (List.mem_filter.mp (hfiles ▸ hname)).2
    simp [hisDir] at hnotDir

/-- The walks from the directories of a directory, one after the other. -/
theorem walks_clear (hfs : fs.WellFormed) (htop : top <+: loc)
    (hdir : fs.node loc = some (.dir order access)) (hleads : Leads fs cwd top loc q)
    {permitted : Prop}
    (hsearch : permitted → FileSystem.children order ≠ [] → access.searchable = true)
    {emit : Visit → Effect FileSystem Fault Unit} {fuel : ℕ}
    (hwalk : ∀ name childOrder childAccess,
      fs.node (loc ++ [name]) = some (.dir childOrder childAccess) →
      Leads fs cwd top (loc ++ [name]) (q.join name) →
      Effect.Achieves permitted (walk id platform cwd false none emit fuel (q.join name))
        (fs.prune (earlier fs top (loc ++ [name]))) ()
        (fs.prune (earlier fs top (loc ++ [name]) ∪ FileSystem.below (loc ++ [name]))))
    {dirs : List Name} (hdirs : dirs = (FileSystem.children order).filter (isDirAt fs loc)) :
    Effect.Achieves permitted
      (Effect.forEach (fun name => walk id platform cwd false none emit fuel (q.join name)) dirs)
      (fs.prune (earlier fs top loc)) ()
        (fs.prune (earlier fs top loc ∪ belowEntries loc dirs)) := by
  have hstart : fs.prune (earlier fs top loc) =
      fs.prune (earlier fs top loc ∪ belowEntries loc []) := by simp [belowEntries]
  rw [hstart]
  refine Effect.Achieves.forEach
    (fun before => fs.prune (earlier fs top loc ∪ belowEntries loc before)) ?_
  intro before name after hsplit
  rw [hdirs] at hsplit
  obtain ⟨hmem, hisDir⟩ :=
    List.mem_filter.mp (hsplit ▸ List.mem_append_right before List.mem_cons_self)
  obtain ⟨hname, hdot⟩ := List.mem_filter.mp hmem
  have hproper := hfs.proper_of_mem hdir hname (by simpa using hdot)
  obtain ⟨childOrder, childAccess, hchild⟩ := isDirAt_eq_true_iff.mp hisDir
  have hbefore : ∀ x, (fs.node x).isSome → (x ∈ earlier fs top (loc ++ [name]) ↔
      x ∈ earlier fs top loc ∪ belowEntries loc before) :=
    fun x hx => mem_earlier_concat_iff hfs htop hdir hsplit hx
  have hafter : fs.prune (earlier fs top loc ∪ belowEntries loc (before ++ [name])) =
      fs.prune (earlier fs top (loc ++ [name]) ∪ FileSystem.below (loc ++ [name])) := by
    apply FileSystem.prune_congr hfs
    intro x hx
    rw [belowEntries_concat, ← Set.union_assoc]
    exact or_congr (hbefore x hx).symm Iff.rfl
  cases hsearchable : access.searchable with
  | true =>
    have hreached := hwalk name childOrder childAccess hchild
      (hleads.join hdir hsearchable hproper hisDir)
    rw [FileSystem.prune_congr hfs hbefore] at hreached
    rwa [hafter]
  | false =>
    have hgone : earlier fs top loc ∪ belowEntries loc before ⊆
        FileSystem.below top \ {x | x <+: loc} :=
      Set.union_subset (earlier_subset hfs) (belowEntries_subset htop before)
    obtain ⟨left, hdir'⟩ :=
      FileSystem.prune_node_dir (fun h => (hgone h).2 List.prefix_rfl) hdir
    obtain ⟨e, herror⟩ := walk_eq_error platform (hleads.lookup hgone) hdir' hsearchable hproper
      emit fuel
    apply Effect.achieves_of_error herror
    intro hpermitted
    have hsearch' := hsearch hpermitted (List.ne_nil_of_mem hmem)
    rw [hsearchable] at hsearch'
    cases hsearch'

/-- The walk from a directory removes what is below it, if it returns; and it
returns if all of the tree may be removed and it may go deep enough. -/
theorem walk_clears (hfs : fs.WellFormed)
    (hlisted : ∀ rest order access, fs.node (top ++ rest) = some (.dir order access) →
      ListedRight fs platform cwd path top rest order access) (limit fuel : ℕ) :
    ∀ rest order access, fs.node (top ++ rest) = some (.dir order access) →
      Leads fs cwd top (top ++ rest) (path.joins rest) → limit ≤ (top ++ rest).length + fuel →
      Effect.Achieves
        (MayClear fs top ∧ ∀ x, (fs.node x).isSome → x.length < limit)
        (walk id platform cwd false none (yieldNames (removeOne cwd false)) fuel (path.joins rest))
        (fs.prune (earlier fs top (top ++ rest))) ()
        (fs.prune (earlier fs top (top ++ rest) ∪ FileSystem.below (top ++ rest))) := by
  induction fuel with
  | zero =>
    intro rest order access hdir _ hlimit
    apply Effect.achieves_of_error (e := .outOfFuel) rfl
    rintro ⟨-, hdepth⟩
    exact Nat.lt_irrefl _ (Nat.lt_of_lt_of_le (hdepth _ (by rw [hdir]; rfl)) hlimit)
  | succ fuel ih =>
    intro rest order access hdir hleads hlimit
    have htop : top <+: top ++ rest := List.prefix_append _ _
    have hright := (hlisted rest order access hdir).foundRight hfs hdir hleads
    -- the permission gives what listing and removing entries need
    have hclear : (MayClear fs top ∧ ∀ x, (fs.node x).isSome → x.length < limit) →
        FileSystem.children order ≠ [] → access.writable = true ∧ access.searchable = true :=
      fun hpermitted => hpermitted.1.2.2 rest order access hdir
    have hsame : isDirAt (fs.prune (earlier fs top (top ++ rest))) (top ++ rest) =
        isDirAt fs (top ++ rest) :=
      funext fun name => isDirAt_prune (child_not_mem_earlier hfs name)
    have hsorts := hright.sorts.mono fun hpermitted hchildren => (hclear hpermitted hchildren).2
    rw [hsame] at hsorts
    have hyields := (yieldNames_clears hfs htop hdir hleads rfl rfl).mono hclear
    refine hsorts.bind (Effect.Achieves.bind (a := ()) ?_ hyields)
    refine walks_clear hfs htop hdir hleads
      (fun hpermitted hchildren => (hclear hpermitted hchildren).2) ?_ rfl
    intro name childOrder childAccess hchild hleads'
    have hchild' := hchild
    rw [List.append_assoc] at hchild' hleads' ⊢
    have hjoins : (path.joins rest).join name = path.joins (rest ++ [name]) :=
      (List.foldl_concat ..).symm
    rw [hjoins] at hleads' ⊢
    apply ih (rest ++ [name]) childOrder childAccess hchild' hleads'
    rw [List.length_append, List.length_append, List.length_singleton]
    rw [List.length_append] at hlimit
    omega

/-! ## Removing a tree -/

/-- With what is below a directory gone, deleting it leaves nothing of the tree. -/
theorem delete_prune_below (hfs : fs.WellFormed) (hnode : (fs.node top).isSome) (hroot : top ≠ []) :
    (fs.prune (FileSystem.below top)).delete top = fs.prune {x | top <+: x} := by
  have hleft : top ∉ FileSystem.below top := fun h => h.2 rfl
  obtain ⟨parent, name, rfl⟩ := (List.eq_nil_or_concat' top).resolve_left hroot
  rw [FileSystem.delete_prune hfs hleft hnode]
  refine FileSystem.prune_congr hfs fun x _ => ⟨?_, fun h => ?_⟩
  · rintro (h | rfl)
    · exact h.1
    · exact List.prefix_rfl
  · by_cases hx : x = parent ++ [name]
    · exact Or.inr hx
    · exact Or.inl ⟨h, hx⟩

/-- The directory above stays one that may be changed. -/
theorem mayChange_prune_below (hroot : top ≠ []) (hchange : fs.mayChange top.dropLast = true) :
    (fs.prune (FileSystem.below top)).mayChange top.dropLast = true := by
  have hup : top.dropLast ∉ FileSystem.below top := fun h => by
    have hle := h.1.length_le
    have hpos := List.length_pos_iff.mpr hroot
    rw [List.length_dropLast] at hle
    omega
  rw [FileSystem.mayChange] at hchange
  split at hchange
  · next order' access' hparent =>
    obtain ⟨_, hparent'⟩ := FileSystem.prune_node_dir hup hparent
    rw [mayChange_of_dir hparent', hchange]
  · cases hchange

/-- Removing a directory below which all is gone, after the walk. -/
theorem yieldTop_clears (hfs : fs.WellFormed) {last : Name}
    (hlast : path.strip.parts.getLast? = some last) (hproper : FileSystem.Proper last)
    (hfound : (fs.prune (FileSystem.below top)).lookup cwd true path = .found top)
    (hstrip : (fs.prune (FileSystem.below top)).lookup cwd false path.strip = .found top)
    (hdir : fs.node top = some (.dir order access)) (hread : access.readable = true) :
    Effect.Achieves (MayClear fs top) (yieldTop id cwd (removeOne cwd false) path)
      (fs.prune (FileSystem.below top)) () (fs.prune {x | top <+: x}) := by
  have hleft : top ∉ FileSystem.below top := fun h => h.2 rfl
  obtain ⟨left, hdir'⟩ := FileSystem.prune_node_dir hleft hdir
  have haccessible : (fs.prune (FileSystem.below top)).accessible cwd path = true := by
    rw [FileSystem.accessible, FileSystem.nodeAt, hfound]
    simp only [hdir', hread]
  have hyield : yieldTop id cwd (removeOne cwd false) path (fs.prune (FileSystem.below top)) =
      removeOne cwd false path (fs.prune (FileSystem.below top)) := by
    rw [yieldTop]
    exact Effect.bind_of_ok (t := fs.prune (FileSystem.below top)) (a := true)
      (congrArg (fun b => (Except.ok b, fs.prune (FileSystem.below top))) haccessible)
  have hempty : FileSystem.hasEntries (.dir left access) = false :=
    FileSystem.hasEntries_of_below_gone hfs hleft (fun _ h _ => h) hdir'
  have hdelete := delete_prune_below hfs (by rw [hdir]; rfl : (fs.node top).isSome)
  constructor
  · intro _ fs' hrun
    refine ⟨rfl, ?_⟩
    rw [hyield] at hrun
    obtain ⟨_, loc, _, -, -, hlookup, -, hremove⟩ :=
      FileSystem.remove_eq_ok_iff.mp (removeOne_eq_ok_iff.mp hrun)
    cases hstrip.symm.trans hlookup
    obtain ⟨hroot, -, -, -, rfl⟩ := FileSystem.removeAt_eq_ok_iff.mp hremove
    exact hdelete hroot
  · rintro ⟨hroot, hchange, -⟩
    rw [hyield, removeOne_eq_ok_iff, FileSystem.remove_eq_ok_iff, ← hdelete hroot]
    exact ⟨last, top, _, hlast, hproper.2, hstrip, hdir', FileSystem.removeAt_eq_ok_iff.mpr
      ⟨hroot, Or.inl rfl, mayChange_prune_below hroot hchange, hempty, rfl⟩⟩

theorem removesItsTree_of_dir (disk : Disk) {last : Name}
    (hlast : path.strip.parts.getLast? = some last) (hproper : FileSystem.Proper last)
    (hfound : (disk.prune (FileSystem.below top)).lookup cwd true path = .found top)
    (hstrip : (disk.prune (FileSystem.below top)).lookup cwd false path.strip = .found top)
    (hdir : disk.node top = some (.dir order access))
    (hlisted : ∀ rest order access, disk.node (top ++ rest) = some (.dir order access) →
      ListedRight disk.toFileSystem platform cwd path top rest order access) :
    RemovesItsTree disk.toFileSystem platform cwd path := by
  have hfs := disk.wellFormed
  have hmode : disk.stat cwd true path = .ok (sIfdir + access.mode) :=
    stat_eq_ok_iff.mpr ⟨top, _, FileSystem.persists_of_prune.lookup hfound, hdir, rfl⟩
  have hfile : isFile cwd path disk.toFileSystem = (.ok false, disk.toFileSystem) :=
    isFile_eq_ok_iff.mpr ⟨rfl, _, hmode, by simp [dir_mode_and_sIfreg]⟩
  have hremove : ∀ fuel, remove platform cwd fuel path true false disk.toFileSystem =
      find id platform cwd false (removeOne cwd false) fuel path disk.toFileSystem :=
    fun fuel => Effect.bind_of_ok hfile
  have hleads : Leads disk.toFileSystem cwd top top path :=
    (FileSystem.persists_prune Set.sdiff_subset).lookup hfound
  have htop := List.append_nil top
  have hachieves : ∀ limit fuel, limit ≤ top.length + fuel →
      Effect.Achieves
        (MayClear disk.toFileSystem top ∧ ∀ x, (disk.node x).isSome → x.length < limit)
        (find id platform cwd false (removeOne cwd false) fuel path) disk.toFileSystem ()
        (disk.prune {x | top <+: x}) := by
    intro limit fuel hlimit
    have hwalk := walk_clears hfs hlisted limit fuel [] order access (by rwa [htop])
      (by rwa [htop]) (by rwa [htop])
    rw [htop, earlier_self, FileSystem.prune_empty, Set.empty_union] at hwalk
    have hread : access.readable = true := (hlisted [] order access (by rwa [htop])).readable
    exact hwalk.bind ((yieldTop_clears hfs hlast hproper hfound hstrip hdir hread).mono And.left)
  constructor
  · intro fuel fs' hrun
    rw [hremove] at hrun
    obtain ⟨-, rfl⟩ := (hachieves 0 fuel (Nat.zero_le _)).1 () fs' hrun
    exact ⟨top, FileSystem.persists_of_prune.lookup hstrip, rfl⟩
  · intro loc hlookup hclear
    cases (FileSystem.persists_of_prune.lookup hstrip).symm.trans hlookup
    refine ⟨disk.depth + 1, disk.prune {x | top <+: x}, ?_⟩
    rw [hremove]
    exact (hachieves (disk.depth + 1) (disk.depth + 1) (Nat.le_add_left _ _)).2
      ⟨hclear, fun x hx => Nat.lt_succ_of_le (disk.length_le x hx)⟩

/-! ## What a removal that returns has been allowed -/

/-- Entries that the caller may remove, with all below them. -/
def Taken (fs : FileSystem) (gone : Set Loc) : Prop :=
  ∀ x ∈ gone, (fs.node x).isSome → x ≠ [] ∧ fs.mayChange x.dropLast = true ∧
    ∀ y ∈ FileSystem.below x, (fs.node y).isSome → y ∈ gone

/-- What is left when such entries have been removed. -/
def Removed (fs fs' : FileSystem) : Prop := ∃ gone, fs' = fs.prune gone ∧ Taken fs gone

theorem removed_refl (fs : FileSystem) : Removed fs fs :=
  ⟨∅, FileSystem.prune_empty.symm, fun x hx => absurd hx (Set.notMem_empty x)⟩

theorem Taken.mayClear (hfs : fs.WellFormed) {gone : Set Loc} (h : Taken fs gone)
    (hmem : loc ∈ gone)
    (hsome : (fs.node loc).isSome) : MayClear fs loc := by
  obtain ⟨hroot, hchange, hbelow⟩ := h loc hmem hsome
  refine ⟨hroot, hchange, fun rest order access hdir hchildren => ?_⟩
  obtain ⟨name, hname⟩ := List.exists_mem_of_ne_nil _ hchildren
  obtain ⟨-, node, hnode⟩ := hfs.exists_child hdir hname
  have hchild : (fs.node (loc ++ rest ++ [name])).isSome := by rw [hnode]; rfl
  have hgone : loc ++ rest ++ [name] ∈ gone :=
    hbelow _ ⟨⟨rest ++ [name], by simp⟩, by simp⟩ hchild
  obtain ⟨-, hparent, -⟩ := h _ hgone hchild
  rw [List.dropLast_concat, mayChange_of_dir hdir] at hparent
  simpa using hparent

/-- A step of a removal takes away an entry that the caller may remove. -/
theorem Removed.removeOne (hfs : fs.WellFormed) {s t : FileSystem} (h : Removed fs s)
    (hrun : removeOne cwd false path s = (.ok (), t)) :
    Removed fs t ∧ ∃ loc, fs.lookup cwd false path.strip = .found loc ∧ MayClear fs loc := by
  obtain ⟨gone, rfl, htaken⟩ := h
  obtain ⟨-, loc, node, -, -, hlookup, hnode, hremove⟩ :=
    FileSystem.remove_eq_ok_iff.mp (removeOne_eq_ok_iff.mp hrun)
  obtain ⟨hroot, -, hchange, hentries, rfl⟩ := FileSystem.removeAt_eq_ok_iff.mp hremove
  have hmem : loc ∉ gone := fun hmem => by
    rw [FileSystem.prune_node_of_mem hmem] at hnode
    cases hnode
  obtain ⟨original, horiginal, -⟩ := FileSystem.persists_of_prune loc node hnode
  have hsome : (fs.node loc).isSome := by rw [horiginal]; rfl
  have hallowed : fs.mayChange loc.dropLast = true := by
    rw [FileSystem.mayChange] at hchange
    split at hchange
    · next order access hdir =>
      obtain ⟨order', hdir'⟩ := FileSystem.persists_of_prune.dir hdir
      rw [mayChange_of_dir hdir', hchange]
    · cases hchange
  have hclosed := fun x hx hx' => (htaken x hx hx').2.2
  have htaken' : Taken fs (gone ∪ {loc}) := by
    rintro x (hx | rfl) hsome'
    · obtain ⟨hx₁, hx₂, hx₃⟩ := htaken x hx hsome'
      exact ⟨hx₁, hx₂, fun y hy hy' => Or.inl (hx₃ y hy hy')⟩
    · exact ⟨hroot, hallowed, fun y hy hy' =>
        Or.inl (FileSystem.below_gone_of_leaf hfs hclosed hmem hnode hentries hy hy')⟩
  refine ⟨⟨gone ∪ {loc}, ?_, htaken'⟩, loc, FileSystem.persists_of_prune.lookup hlookup,
    htaken'.mayClear hfs (Or.inr rfl) hsome⟩
  obtain ⟨parent, name, rfl⟩ := (List.eq_nil_or_concat' loc).resolve_left hroot
  exact FileSystem.delete_prune hfs hmem hsome

/-- The relation that a removal keeps: what was left of a file system is still what is left. -/
def StillRemoved (fs s t : FileSystem) : Prop := Removed fs s → Removed fs t

instance : Std.Refl (StillRemoved fs) := ⟨fun _ h => h⟩

instance : IsTrans FileSystem (StillRemoved fs) := ⟨fun _ _ _ h h' hs => h' (h hs)⟩

theorem keeps_removeOne (hfs : fs.WellFormed) (path : PosixPath) :
    Effect.Keeps (StillRemoved fs) (removeOne cwd false path) := by
  intro s hs
  rcases hrun : removeOne cwd false path s with ⟨e | a, t⟩
  · rw [removeOne] at hrun
    split at hrun
    · cases hrun
    · cases hrun
      exact hs
  · exact (hs.removeOne hfs hrun).1

theorem keeps_survey (q : PosixPath) :
    Effect.Keeps (StillRemoved fs) (survey id platform cwd none q) := by
  have hclassify : ∀ dirs files entries, Effect.Keeps (StillRemoved fs)
      (classify none q dirs files entries) := by
    intro dirs files entries
    induction entries generalizing dirs files with
    | nil => exact Effect.keeps_pure _
    | cons entry rest ih =>
      rw [classify]
      split
      · exact ih _ _
      · exact ih _ _
      · exact Effect.keeps_pure _
  refine (Effect.keeps_ask _).bind fun listing => Effect.Keeps.bind ?_ fun sorted => ?_
  · cases listing with
    | error e => exact Effect.keeps_pure _
    | ok entries => exact hclassify _ _ _
  · obtain ⟨dirs, files, _ | e⟩ := sorted
    · exact Effect.keeps_pure _
    · exact Effect.keeps_raise _

theorem keeps_walk (hfs : fs.WellFormed) (fuel : ℕ) (q : PosixPath) :
    Effect.Keeps (StillRemoved fs)
      (walk id platform cwd false none (yieldNames (removeOne cwd false)) fuel q) := by
  have hnames : ∀ (q : PosixPath) (names : List Name), Effect.Keeps (StillRemoved fs)
      (Effect.forEach (fun name => removeOne cwd false (q.join name)) names) :=
    fun q _ => Effect.Keeps.forEach fun name _ => keeps_removeOne hfs (q.join name)
  induction fuel generalizing q with
  | zero => exact Effect.keeps_raise _
  | succ fuel ih =>
    refine (keeps_survey q).bind fun ⟨dirs, files⟩ => ?_
    refine Effect.Keeps.bind (R := StillRemoved fs) ?_ fun _ => ?_
    · exact Effect.Keeps.forEach fun name _ => ih (q.join name)
    · exact (hnames q files).bind fun _ => hnames q dirs

/-- A removal that returns was allowed: it ends with the removal of the path itself. -/
theorem mayClear_of_removed (hfs : fs.WellFormed) {fuel : ℕ} {fs' : FileSystem}
    (hrun : remove platform cwd fuel path true false fs = (.ok (), fs')) :
    ∃ loc, fs.lookup cwd false path.strip = .found loc ∧ MayClear fs loc := by
  obtain ⟨single, s, hfile, hrest⟩ := Effect.bind_eq_ok_iff.mp hrun
  obtain ⟨hs, -⟩ := isFile_eq_ok_iff.mp hfile
  rw [hs] at hrest
  cases single with
  | true => exact ((removed_refl fs).removeOne hfs hrest).2
  | false =>
    have hfind : (walk id platform cwd false none (yieldNames (removeOne cwd false)) fuel path >>=
        fun _ => yieldTop id cwd (removeOne cwd false) path) fs = (.ok (), fs') := hrest
    obtain ⟨_, left, hwalk, htop⟩ := Effect.bind_eq_ok_iff.mp hfind
    have hleft : Removed fs left := (keeps_walk hfs fuel path).of_run hwalk (removed_refl fs)
    obtain ⟨accessible, _, hask, hlast⟩ := Effect.bind_eq_ok_iff.mp htop
    cases hask
    split at hlast
    · exact (hleft.removeOne hfs hlast).2
    · cases hlast

/-- A tree that can be cleared is removed, all of it and nothing else. -/
theorem removesItsTree_of_clearable (disk : Disk) (platform : Platform) (cwd : Loc)
    (path : PosixPath) (h : Clearable disk.toFileSystem platform cwd path) :
    RemovesItsTree disk.toFileSystem platform cwd path := by
  rcases h with hnot | ⟨last, hlast, hproper, mode, hstat, hbit⟩ |
    ⟨last, top, hlast, hproper, hfound, hstrip, ⟨order, access, hdir⟩, hlisted⟩
  · refine ⟨fun fuel fs' hrun => ?_, fun loc hloc hclear => absurd hclear (hnot loc hloc)⟩
    obtain ⟨loc, hloc, hclear⟩ := mayClear_of_removed disk.wellFormed hrun
    exact absurd hclear (hnot loc hloc)
  · exact removesItsTree_of_file disk.wellFormed hlast hproper hstat hbit
  · exact removesItsTree_of_dir disk hlast hproper hfound hstrip hdir hlisted

/-- A tree with a link to a file and a directory without entries. -/
def plainDisk : Disk :=
  .ofTable
    [([], .dir [".", "..", "t", "f"] ⟨true, true, true⟩),
      (["t"], .dir [".", "..", "l", "s"] ⟨true, true, true⟩),
      (["t", "l"], .link ⟨true, ["f"]⟩),
      (["t", "s"], .dir [".", ".."] ⟨true, true, true⟩),
      (["f"], .file [])]
    (fun _ => true) (by decide)

theorem removesItsTree_plainDisk :
    RemovesItsTree plainDisk.toFileSystem .linux [] ⟨true, ["t"]⟩ := by
  have hroot : [] ∉ FileSystem.below ["t"] := fun h => by simpa using h.1
  have htop : ["t"] ∉ FileSystem.below ["t"] := fun h => h.2 rfl
  have hdir : plainDisk.node ["t"] = some (.dir [".", "..", "l", "s"] ⟨true, true, true⟩) := rfl
  have hroot' : plainDisk.node [] = some (.dir [".", "..", "t", "f"] ⟨true, true, true⟩) := rfl
  have hleads : ∀ follow, (plainDisk.prune (FileSystem.below ["t"])).lookup [] follow
      ⟨true, ["t"]⟩ = .found ["t"] := by
    intro follow
    obtain ⟨left, hleft⟩ := FileSystem.prune_node_dir hroot hroot'
    obtain ⟨below, hbelow⟩ := FileSystem.prune_node_dir htop hdir
    have hstart : (plainDisk.prune (FileSystem.below ["t"])).lookup [] true ⟨true, []⟩ =
        .found [] :=
      rfl
    exact FileSystem.lookup_join_entry hstart hleft (by decide) hbelow (fun _ _ h => by cases h)
  refine removesItsTree_of_clearable plainDisk .linux [] ⟨true, ["t"]⟩
    (Or.inr (Or.inr ⟨"t", ["t"], rfl, by decide, hleads true, hleads false, ⟨_, _, hdir⟩, ?_⟩))
  intro rest order access hnode
  have hplaces : rest = [] ∧ order = [".", "..", "l", "s"] ∧ access = ⟨true, true, true⟩ ∨
      rest = ["s"] ∧ order = [".", ".."] ∧ access = ⟨true, true, true⟩ := by
    simpa using FileSystem.mem_of_lookup hnode
  rcases hplaces with ⟨rfl, rfl, rfl⟩ | ⟨rfl, rfl, rfl⟩
  · refine ⟨rfl, dotsFirst_of_forall (by decide), by decide, fun _ name _ target htarget => ?_⟩
    have hlink : name = "l" ∧ target = ⟨true, ["f"]⟩ := by
      simpa using FileSystem.mem_of_lookup htarget
    obtain ⟨rfl, rfl⟩ := hlink
    rw [List.append_nil, earlier_self, FileSystem.prune_empty]
    exact ⟨(Node.file []).mode, rfl, by decide⟩
  · refine ⟨rfl, dotsFirst_of_forall (by decide), by decide, fun _ name _ target htarget => ?_⟩
    have hlink : False := by simpa using FileSystem.mem_of_lookup htarget
    cases hlink

/-- A tree with a link to a directory elsewhere. -/
def leakyDisk : Disk :=
  .ofTable
    [([], .dir [".", "..", "t", "d"] ⟨true, true, true⟩),
      (["t"], .dir [".", "..", "l"] ⟨true, true, true⟩),
      (["t", "l"], .link ⟨true, ["d"]⟩),
      (["d"], .dir [".", "..", "f"] ⟨true, true, true⟩),
      (["d", "f"], .file [])]
    (fun _ => true) (by decide)

/-- The walk removes the file behind the link. -/
theorem not_removesItsTree_leakyDisk :
    (remove .linux [] 3 ⟨true, ["t"]⟩ true false leakyDisk.toFileSystem).1 = .ok () ∧
      leakyDisk.node ["d", "f"] = some (.file []) ∧
      (remove .linux [] 3 ⟨true, ["t"]⟩ true false leakyDisk.toFileSystem).2.node ["d", "f"] =
        none ∧
      ¬ RemovesItsTree leakyDisk.toFileSystem .linux [] ⟨true, ["t"]⟩ := by
  have hok : (remove .linux [] 3 ⟨true, ["t"]⟩ true false leakyDisk.toFileSystem).1 = .ok () := rfl
  have hgone : (remove .linux [] 3 ⟨true, ["t"]⟩ true false leakyDisk.toFileSystem).2.node
      ["d", "f"] = none := rfl
  refine ⟨hok, rfl, hgone, fun hremoves => ?_⟩
  obtain ⟨loc, hlookup, hleft⟩ := hremoves.1 3
    (remove .linux [] 3 ⟨true, ["t"]⟩ true false leakyDisk.toFileSystem).2 (Prod.ext hok rfl)
  have hloc : leakyDisk.lookup [] false ⟨true, ["t"]⟩ = .found ["t"] := rfl
  cases hloc.symm.trans hlookup
  have hkept : (leakyDisk.prune {x | ["t"] <+: x}).node ["d", "f"] = some (.file []) :=
    FileSystem.prune_node_of_not_dir (by simp) rfl rfl
  rw [hleft, hkept] at hgone
  cases hgone

end RpcProject.Files
