/-
# Changing the modes of a tree

`chmod` with `recursive` walks the tree from below and changes the mode of what `find`
names, and at last of the path itself. The mode may take away what the walk needs: the
permission to read a directory, or to search it. Since each directory is changed after
all that is below it, and looked at before, the walk does not get in its own way: it
changes all directories of the tree and nothing else, whatever the mode.

What the walk has changed when it lists a directory is what lies below the entries
before those on the way there.
-/

import RpcProject.Files.Remove

namespace RpcProject.Files

open Foundations Server

/-! ## The calls -/

section Calls

variable (platform : Platform) (cwd : Loc)

/-- `Fs._chmod` -/
def chmodOne (mode : ℕ) (path : PosixPath) : Effect FileSystem Fault Unit := fun fs =>
  match fs.chmod cwd path mode with
  | .ok fs' => (.ok (), fs')
  | .error errno => (.error (.errno errno ("failed to chmod: " ++ path.text)), fs)

/-- `Fs.chmod` -/
def chmod (fuel : ℕ) (path : PosixPath) (mode : ℕ) (recursive : Bool) :
    Effect FileSystem Fault Unit :=
  if recursive then find id platform cwd false (chmodOne cwd mode) fuel path
  else chmodOne cwd mode path

end Calls

/-! ## File systems with other modes -/

/-- Only directories have modes that vary. -/
def Node.withMode (mode : ℕ) : Node → Node
  | dir order _ => dir order (.ofMode mode)
  | node => node

namespace FileSystem

open Classical in
/-- The file system with one mode for the directories of a set. -/
noncomputable def withModes (fs : FileSystem) (mode : ℕ) (changed : Set Loc) : FileSystem :=
  { fs with
    node := fun loc =>
      if loc ∈ changed then (fs.node loc).map (Node.withMode mode) else fs.node loc }

variable {fs : FileSystem} {mode : ℕ} {changed changed' gone : Set Loc} {loc : Loc} {node : Node}
  {order : List Name} {access : Access} {name : Name}

theorem withModes_node_of_mem (hmem : loc ∈ changed) :
    (fs.withModes mode changed).node loc = (fs.node loc).map (Node.withMode mode) := if_pos hmem

theorem withModes_node_of_not_mem (hmem : loc ∉ changed) :
    (fs.withModes mode changed).node loc = fs.node loc := if_neg hmem

theorem withModes_empty : fs.withModes mode ∅ = fs :=
  FileSystem.ext (funext fun loc => withModes_node_of_not_mem (Set.notMem_empty loc)) rfl

theorem withModes_congr (hsame : ∀ loc, (fs.node loc).isSome → (loc ∈ changed ↔ loc ∈ changed')) :
    fs.withModes mode changed = fs.withModes mode changed' := by
  refine FileSystem.ext (funext fun loc => ?_) rfl
  by_cases hsome : (fs.node loc).isSome
  · by_cases hmem : loc ∈ changed
    · rw [withModes_node_of_mem hmem, withModes_node_of_mem ((hsame loc hsome).mp hmem)]
    · rw [withModes_node_of_not_mem hmem,
        withModes_node_of_not_mem fun h => hmem ((hsame loc hsome).mpr h)]
  · rw [Option.not_isSome_iff_eq_none] at hsome
    have hnone : ∀ set, (fs.withModes mode set).node loc = none := fun set => by
      classical
      change ite _ _ _ = _
      rw [hsome, Option.map_none, ite_self]
    rw [hnone, hnone]

/-- What is still there without the nodes that change is there with their modes changed. -/
theorem persists_withModes (hsub : changed ⊆ gone) :
    (fs.prune gone).Persists (fs.withModes mode changed) := by
  intro loc node hnode
  by_cases hmem : loc ∈ gone
  · rw [prune_node_of_mem hmem] at hnode
    cases hnode
  · obtain ⟨original, horiginal, hbare⟩ := persists_of_prune loc node hnode
    exact ⟨original, by rw [withModes_node_of_not_mem fun h => hmem (hsub h), horiginal], hbare⟩

/-- Changing one mode more. -/
theorem chmod_withModes {cwd : Loc} {path : PosixPath}
    (hlookup : (fs.withModes mode changed).lookup cwd true path = .found loc)
    (hnode : fs.node loc = some node) (hmem : loc ∉ changed) :
    (fs.withModes mode changed).chmod cwd path mode =
      .ok (fs.withModes mode (changed ∪ {loc})) := by
  have hnode' : (fs.withModes mode changed).node loc = some node := by
    rw [withModes_node_of_not_mem hmem, hnode]
  have hchanged : (fs.withModes mode (changed ∪ {loc})).node =
      Function.update (fs.withModes mode changed).node loc (some (node.withMode mode)) := by
    funext x
    by_cases hx : x = loc
    · subst hx
      rw [withModes_node_of_mem (Or.inr rfl), hnode, Function.update_self, Option.map_some]
    · rw [Function.update_of_ne hx]
      by_cases hin : x ∈ changed
      · rw [withModes_node_of_mem (Or.inl hin), withModes_node_of_mem hin]
      · rw [withModes_node_of_not_mem hin, withModes_node_of_not_mem]
        rintro (h | h)
        · exact hin h
        · exact hx h
  -- what is no directory stays as it is
  have hkept : node.withMode mode = node →
      fs.withModes mode changed = fs.withModes mode (changed ∪ {loc}) := fun hsame => by
    refine FileSystem.ext ?_ rfl
    rw [hchanged, hsame, ← hnode', Function.update_eq_self]
  rw [FileSystem.chmod, hlookup]
  simp only [hnode']
  cases node with
  | dir order access => exact congrArg Except.ok (FileSystem.ext hchanged.symm rfl)
  | file content => exact congrArg Except.ok (hkept rfl)
  | link target => exact congrArg Except.ok (hkept rfl)
  | special kind => exact congrArg Except.ok (hkept rfl)

end FileSystem

/-! ## Trees whose modes are changed -/

/-- No node of the tree is a link. -/
def Linkless (fs : FileSystem) (top : Loc) : Prop :=
  ∀ rest target, fs.node (top ++ rest) ≠ some (.link target)

/-- The server lists the directories of the tree as they are: "." and ".." come first, and
no path is too long. -/
def TreeListed (fs : FileSystem) (platform : Platform) (path : PosixPath) (top : Loc) : Prop :=
  ∀ rest order access, fs.node (top ++ rest) = some (.dir order access) →
    DotsFirst order ∧ ∀ name ∈ order, PathFits platform (path.joins rest).text name

/-- Every directory of the tree can be read, and searched if it has entries. -/
def TreeOpen (fs : FileSystem) (top : Loc) : Prop :=
  ∀ rest order access, fs.node (top ++ rest) = some (.dir order access) →
    access.readable = true ∧ (FileSystem.children order ≠ [] → access.searchable = true)

variable {fs : FileSystem} {platform : Platform} {cwd loc top rest : Loc} {path q : PosixPath}
  {mode : ℕ}
  {order : List Name} {access : Access} {name : Name} {changed : Set Loc}

theorem Linkless.entry (hlinkless : Linkless fs top) (htop : top <+: loc) (name : Name)
    (target : PosixPath) :
    fs.node (loc ++ [name]) ≠ some (.link target) := by
  obtain ⟨rest, rfl⟩ := htop
  rw [List.append_assoc]
  exact hlinkless _ _

theorem Leads.lookup_withModes (h : Leads fs cwd top loc q)
    (hchanged : changed ⊆ FileSystem.below top \ {x | x <+: loc}) :
    (fs.withModes mode changed).lookup cwd true q = .found loc :=
  (FileSystem.persists_withModes hchanged).lookup h

theorem isDirAt_withModes (fs : FileSystem) (mode : ℕ) (changed : Set Loc) (loc : Loc)
    (name : Name) :
    isDirAt (fs.withModes mode changed) loc name = isDirAt fs loc name := by
  rw [isDirAt, isDirAt]
  by_cases hmem : loc ++ [name] ∈ changed
  · rw [FileSystem.withModes_node_of_mem hmem, Option.any_map]
    congr 1
    funext node
    cases node <;> rfl
  · rw [FileSystem.withModes_node_of_not_mem hmem]

/-- A directory as the walk finds it. -/
theorem foundRight_withModes (hfs : fs.WellFormed) (hlinkless : Linkless fs top)
    (hlisted : TreeListed fs platform path top)
    (hdir : fs.node (top ++ rest) = some (.dir order access))
    (hread : access.readable = true) (hleads : Leads fs cwd top (top ++ rest) (path.joins rest)) :
    FoundRight (fs.withModes mode (earlier fs top (top ++ rest))) platform cwd (path.joins rest)
      (top ++ rest) order access where
  found := hleads.lookup_withModes (earlier_subset hfs)
  dir := by
    rw [FileSystem.withModes_node_of_not_mem (not_mem_earlier hfs (Or.inl List.prefix_rfl))]
    exact hdir
  readable := hread
  first := (hlisted rest order access hdir).1
  fits := (hlisted rest order access hdir).2
  named := hfs.named _ _ _ hdir
  entries name hname hdot := by
    rw [FileSystem.withModes_node_of_not_mem (child_not_mem_earlier hfs name)]
    exact hfs.isSome_of_mem hdir hname hdot
  links _ name _ target hlink := by
    rw [FileSystem.withModes_node_of_not_mem (child_not_mem_earlier hfs name)] at hlink
    exact absurd hlink (hlinkless.entry (List.prefix_append _ _) name target)

/-! ## One entry and all entries of a directory -/

theorem chmodOne_of_ok {fs' : FileSystem} (h : fs.chmod cwd path mode = .ok fs') :
    chmodOne cwd mode path fs = (.ok (), fs') := by
  rw [chmodOne, h]

theorem chmodOne_entry (hfs : fs.WellFormed) (hlinkless : Linkless fs top) (htop : top <+: loc)
    (hdir : fs.node loc = some (.dir order access)) (hleads : Leads fs cwd top loc q)
    (hchanged : changed ⊆ FileSystem.below top \ {x | x <+: loc})
    (hname : name ∈ FileSystem.children order) (hnew : loc ++ [name] ∉ changed) :
    Effect.Achieves (access.searchable = true) (chmodOne cwd mode (q.join name))
      (fs.withModes mode changed) () (fs.withModes mode (changed ∪ {loc ++ [name]})) := by
  obtain ⟨hmem, hdot⟩ := List.mem_filter.mp hname
  have hdot : ¬ IsDot name := by simpa using hdot
  obtain ⟨node, hnode⟩ := Option.isSome_iff_exists.mp (hfs.isSome_of_mem hdir hmem hdot)
  have hdir' : (fs.withModes mode changed).node loc = some (.dir order access) := by
    rw [FileSystem.withModes_node_of_not_mem fun h => (hchanged h).2 List.prefix_rfl, hdir]
  have hnode' : (fs.withModes mode changed).node (loc ++ [name]) = some node := by
    rw [FileSystem.withModes_node_of_not_mem hnew, hnode]
  have hlookup : (fs.withModes mode changed).lookup cwd true (q.join name) =
      if access.searchable = false then .failed eacces else .found (loc ++ [name]) :=
    FileSystem.lookup_join_entry (hleads.lookup_withModes hchanged) hdir'
      (hfs.proper_of_mem hdir hmem hdot) hnode'
      fun _ target h => hlinkless.entry htop name target (h ▸ hnode)
  cases hsearch : access.searchable with
  | true =>
    rw [hsearch, if_neg (by simp)] at hlookup
    exact Effect.achieves_of_eq (chmodOne_of_ok (FileSystem.chmod_withModes hlookup hnode hnew))
  | false =>
    rw [hsearch, if_pos rfl] at hlookup
    refine Effect.achieves_of_error
      (e := .errno eacces ("failed to chmod: " ++ (q.join name).text)) ?_ (by simp)
    rw [chmodOne, FileSystem.chmod, hlookup]

theorem chmods_entries (hfs : fs.WellFormed) (hlinkless : Linkless fs top) (htop : top <+: loc)
    (hdir : fs.node loc = some (.dir order access)) (hleads : Leads fs cwd top loc q)
    {names : List Name} (hnames : ∀ name ∈ names, name ∈ FileSystem.children order)
    (hnodup : names.Nodup)
    (hchanged : changed ⊆ FileSystem.below top \ {x | x <+: loc})
    (hnew : ∀ name ∈ names, loc ++ [name] ∉ changed) :
    Effect.Achieves (FileSystem.children order ≠ [] → access.searchable = true)
      (Effect.forEach (fun name => chmodOne cwd mode (q.join name)) names)
      (fs.withModes mode changed) () (fs.withModes mode (changed ∪ entriesAt loc names)) := by
  have hstart : fs.withModes mode changed = fs.withModes mode (changed ∪ entriesAt loc []) := by
    simp [entriesAt]
  rw [hstart]
  apply Effect.Achieves.forEach (fun before => fs.withModes mode (changed ∪ entriesAt loc before))
  rintro before name after rfl
  have hmem : name ∈ before ++ name :: after := List.mem_append_right _ List.mem_cons_self
  have hname := hnames name hmem
  have hnew' : loc ++ [name] ∉ changed ∪ entriesAt loc before := by
    rintro (hold | ⟨other, hother, hsame⟩)
    · exact hnew name hmem hold
    · obtain ⟨-, hsame⟩ := List.append_inj' hsame rfl
      cases hsame
      exact (List.nodup_append.mp hnodup).2.2 _ hother _ List.mem_cons_self rfl
  have hstep : Effect.Achieves _ (chmodOne cwd mode (q.join name)) _ _ _ :=
    chmodOne_entry hfs hlinkless htop hdir hleads
      (Set.union_subset hchanged (entriesAt_subset htop before)) hname hnew'
  rw [Set.union_assoc, ← entriesAt_concat] at hstep
  exact hstep.mono fun hpermitted => hpermitted (List.ne_nil_of_mem hname)

/-- What runs when the walk yields for a directory: all below it has been changed then. -/
theorem yieldNames_chmods (hfs : fs.WellFormed) (hlinkless : Linkless fs top) (htop : top <+: loc)
    (hdir : fs.node loc = some (.dir order access)) (hleads : Leads fs cwd top loc q)
    {dirs files : List Name} (hdirs : dirs = (FileSystem.children order).filter (isDirAt fs loc))
    (hfiles : files = (FileSystem.children order).filter fun name => !isDirAt fs loc name) :
    Effect.Achieves (FileSystem.children order ≠ [] → access.searchable = true)
      (yieldNames (chmodOne cwd mode) ⟨q, dirs, files⟩)
      (fs.withModes mode (earlier fs top loc ∪ belowEntries loc dirs)) ()
      (fs.withModes mode (earlier fs top loc ∪ FileSystem.below loc)) := by
  have hnodup := hfs.nodup_children hdir
  have hchanged : earlier fs top loc ∪ belowEntries loc dirs ⊆
      FileSystem.below top \ {x | x <+: loc} :=
    Set.union_subset (earlier_subset hfs) (belowEntries_subset htop dirs)
  have hchanged' : earlier fs top loc ∪ belowEntries loc dirs ∪ entriesAt loc files ⊆
      FileSystem.below top \ {x | x <+: loc} :=
        Set.union_subset hchanged (entriesAt_subset htop files)
  have hnew : ∀ name, loc ++ [name] ∉ earlier fs top loc ∪ belowEntries loc dirs := by
    rintro name (hearlier | ⟨other, -, hway, hne⟩)
    · exact child_not_mem_earlier hfs name hearlier
    · exact hne (hway.eq_of_length (by simp)).symm
  have hends : fs.withModes mode (earlier fs top loc ∪ FileSystem.below loc) =
      fs.withModes mode (earlier fs top loc ∪ belowEntries loc dirs ∪ entriesAt loc files ∪
        entriesAt loc dirs) := by
    apply FileSystem.withModes_congr
    intro x hx
    rw [Set.union_assoc, Set.union_assoc, Set.mem_union, Set.mem_union,
      below_eq_entries hfs hdir hdirs hfiles hx, Set.union_assoc]
  rw [hends]
  refine (chmods_entries hfs hlinkless htop hdir hleads
    (fun name hname => (List.mem_filter.mp (hfiles ▸ hname)).1) (hfiles ▸ hnodup.filter _) hchanged
    fun name _ => hnew name).bind (chmods_entries hfs hlinkless htop hdir hleads
      (fun name hname => (List.mem_filter.mp (hdirs ▸ hname)).1)
        (hdirs ▸ hnodup.filter _) hchanged' ?_)
  rintro name hname (hbefore | ⟨other, hother, hsame⟩)
  · exact hnew name hbefore
  · obtain ⟨-, hsame⟩ := List.append_inj' hsame rfl
    cases hsame
    have hisDir := (List.mem_filter.mp (hdirs ▸ hname)).2
    have hnotDir := (List.mem_filter.mp (hfiles ▸ hother)).2
    simp [hisDir] at hnotDir

/-! ## The walk -/

/-- The walks from the directories of a directory, one after the other. -/
theorem walks_chmod (hfs : fs.WellFormed) (htop : top <+: loc)
    (hdir : fs.node loc = some (.dir order access)) (hleads : Leads fs cwd top loc q)
    {permitted : Prop}
    (hsearch : permitted → FileSystem.children order ≠ [] → access.searchable = true)
    {emit : Visit → Effect FileSystem Fault Unit} {fuel : ℕ}
    (hwalk : ∀ name childOrder childAccess,
      fs.node (loc ++ [name]) = some (.dir childOrder childAccess) →
      Leads fs cwd top (loc ++ [name]) (q.join name) →
      Effect.Achieves permitted (walk id platform cwd false none emit fuel (q.join name))
        (fs.withModes mode (earlier fs top (loc ++ [name]))) ()
        (fs.withModes mode (earlier fs top (loc ++ [name]) ∪ FileSystem.below (loc ++ [name]))))
    {dirs : List Name} (hdirs : dirs = (FileSystem.children order).filter (isDirAt fs loc)) :
    Effect.Achieves permitted
      (Effect.forEach (fun name => walk id platform cwd false none emit fuel (q.join name)) dirs)
      (fs.withModes mode (earlier fs top loc)) ()
      (fs.withModes mode (earlier fs top loc ∪ belowEntries loc dirs)) := by
  have hstart : fs.withModes mode (earlier fs top loc) =
      fs.withModes mode (earlier fs top loc ∪ belowEntries loc []) := by simp [belowEntries]
  rw [hstart]
  refine Effect.Achieves.forEach
    (fun before => fs.withModes mode (earlier fs top loc ∪ belowEntries loc before)) ?_
  intro before name after hsplit
  rw [hdirs] at hsplit
  obtain ⟨hmem, hisDir⟩ :=
    List.mem_filter.mp (hsplit ▸ List.mem_append_right before List.mem_cons_self)
  obtain ⟨hname, hdot⟩ := List.mem_filter.mp hmem
  have hproper := hfs.proper_of_mem hdir hname (by simpa using hdot)
  obtain ⟨childOrder, childAccess, hchild⟩ := isDirAt_eq_true_iff.mp hisDir
  have hbefore : ∀ x, (fs.node x).isSome → (x ∈ earlier fs top (loc ++ [name]) ↔
      x ∈ earlier fs top loc ∪ belowEntries loc before) :=
    fun x hx => mem_earlier_concat_iff hfs htop hdir hsplit hx
  have hafter : fs.withModes mode (earlier fs top loc ∪ belowEntries loc (before ++ [name])) =
      fs.withModes mode (earlier fs top (loc ++ [name]) ∪ FileSystem.below (loc ++ [name])) := by
    apply FileSystem.withModes_congr
    intro x hx
    rw [belowEntries_concat, ← Set.union_assoc]
    exact or_congr (hbefore x hx).symm Iff.rfl
  cases hsearchable : access.searchable with
  | true =>
    have hreached := hwalk name childOrder childAccess hchild
      (hleads.join hdir hsearchable hproper hisDir)
    rw [FileSystem.withModes_congr hbefore] at hreached
    rwa [hafter]
  | false =>
    have hchanged : earlier fs top loc ∪ belowEntries loc before ⊆
        FileSystem.below top \ {x | x <+: loc} :=
      Set.union_subset (earlier_subset hfs) (belowEntries_subset htop before)
    have hdir' : (fs.withModes mode (earlier fs top loc ∪ belowEntries loc before)).node loc =
        some (.dir order access) := by
      rw [FileSystem.withModes_node_of_not_mem fun h => (hchanged h).2 List.prefix_rfl, hdir]
    obtain ⟨e, herror⟩ :=
        walk_eq_error platform (hleads.lookup_withModes hchanged) hdir' hsearchable
      hproper emit fuel
    apply Effect.achieves_of_error herror
    intro hpermitted
    have hsearch' := hsearch hpermitted (List.ne_nil_of_mem hmem)
    rw [hsearchable] at hsearch'
    cases hsearch'

/-- A directory that cannot be read is not listed. -/
theorem survey_eq_error (platform : Platform) (hfound : fs.lookup cwd true q = .found loc)
    (hdir : fs.node loc = some (.dir order access)) (hread : access.readable = false) :
    ∃ e, survey id platform cwd none q fs = (.error e, fs) := by
  have hfailed : fs.entries cwd q = .error eacces := by
    rw [FileSystem.entries, FileSystem.readdir, hfound]
    simp only [hdir, hread, Bool.false_eq_true, if_false]
  obtain ⟨e, hlisting⟩ := FileSystem.scandir_of_error platform hfailed
  refine ⟨e, ?_⟩
  have hrun : survey id platform cwd none q fs =
      (sortEntries none q (fs.scandir platform cwd q) >>= settle none) fs := rfl
  rw [hrun, hlisting]
  rfl

/-- The walk from a directory changes what is below it, if it returns; and it returns if
the tree is open, whatever the mode, and it may go deep enough. -/
theorem walk_chmods (hfs : fs.WellFormed) (hlinkless : Linkless fs top)
    (hlisted : TreeListed fs platform path top) (limit fuel : ℕ) :
    ∀ rest order access, fs.node (top ++ rest) = some (.dir order access) →
      Leads fs cwd top (top ++ rest) (path.joins rest) → limit ≤ (top ++ rest).length + fuel →
      Effect.Achieves (TreeOpen fs top ∧ ∀ x, (fs.node x).isSome → x.length < limit)
        (walk id platform cwd false none (yieldNames (chmodOne cwd mode)) fuel (path.joins rest))
        (fs.withModes mode (earlier fs top (top ++ rest))) ()
        (fs.withModes mode (earlier fs top (top ++ rest) ∪ FileSystem.below (top ++ rest))) := by
  induction fuel with
  | zero =>
    intro rest order access hdir _ hlimit
    apply Effect.achieves_of_error (e := .outOfFuel) rfl
    rintro ⟨-, hdepth⟩
    exact Nat.lt_irrefl _ (Nat.lt_of_lt_of_le (hdepth _ (by rw [hdir]; rfl)) hlimit)
  | succ fuel ih =>
    intro rest order access hdir hleads hlimit
    have htop : top <+: top ++ rest := List.prefix_append _ _
    have hsearch : (TreeOpen fs top ∧ ∀ x, (fs.node x).isSome → x.length < limit) →
        FileSystem.children order ≠ [] → access.searchable = true :=
      fun hpermitted => (hpermitted.1 rest order access hdir).2
    cases hread : access.readable with
    | false =>
      have hdir' : (fs.withModes mode (earlier fs top (top ++ rest))).node (top ++ rest) =
          some (.dir order access) := by
        rw [FileSystem.withModes_node_of_not_mem (not_mem_earlier hfs (Or.inl List.prefix_rfl)),
          hdir]
      obtain ⟨e, herror⟩ := survey_eq_error platform (hleads.lookup_withModes (earlier_subset hfs))
        hdir' hread
      refine Effect.achieves_of_error (congrArg Prod.fst (Effect.bind_of_error herror))
        fun hpermitted => ?_
      rw [(hpermitted.1 rest order access hdir).1] at hread
      cases hread
    | true =>
      have hright : FoundRight (fs.withModes mode (earlier fs top (top ++ rest))) platform cwd
          (path.joins rest) (top ++ rest) order access :=
        foundRight_withModes hfs hlinkless hlisted hdir hread hleads
      have hsorts := hright.sorts.mono hsearch
      have hsame : isDirAt (fs.withModes mode (earlier fs top (top ++ rest))) (top ++ rest) =
          isDirAt fs (top ++ rest) := funext fun name => isDirAt_withModes _ _ _ _ name
      rw [hsame] at hsorts
      have hyields := @yieldNames_chmods fs cwd (top ++ rest) top
          (path.joins rest) mode order access hfs
        hlinkless htop hdir hleads _ _ rfl rfl
      refine hsorts.bind (Effect.Achieves.bind (a := ()) ?_ (hyields.mono hsearch))
      refine walks_chmod hfs htop hdir hleads hsearch ?_ rfl
      intro name childOrder childAccess hchild hleads'
      have hchild' := hchild
      rw [List.append_assoc] at hchild' hleads' ⊢
      have hjoins : (path.joins rest).join name = path.joins (rest ++ [name]) :=
        (List.foldl_concat ..).symm
      rw [hjoins] at hleads' ⊢
      apply ih (rest ++ [name]) childOrder childAccess hchild' hleads'
      rw [List.length_append, List.length_append, List.length_singleton]
      rw [List.length_append] at hlimit
      omega

/-! ## Changing a tree -/

/-- At last the path itself is changed, which could be read up to then. -/
theorem yieldTop_chmods
    (hfound : (fs.prune (FileSystem.below top)).lookup cwd true path = .found top)
    (hdir : fs.node top = some (.dir order access)) :
    Effect.Achieves (access.readable = true) (yieldTop id cwd (chmodOne cwd mode) path)
      (fs.withModes mode (FileSystem.below top)) () (fs.withModes mode {x | top <+: x}) := by
  have hleft : top ∉ FileSystem.below top := fun h => h.2 rfl
  have hlookup : (fs.withModes mode (FileSystem.below top)).lookup cwd true path = .found top :=
    (FileSystem.persists_withModes Set.Subset.rfl).lookup hfound
  have hwhole : FileSystem.below top ∪ {top} = {x | top <+: x} := by
    ext x
    constructor
    · rintro (h | rfl)
      · exact h.1
      · exact List.prefix_rfl
    · intro h
      by_cases hx : x = top
      · exact Or.inr hx
      · exact Or.inl ⟨h, hx⟩
  have haccessible : (fs.withModes mode (FileSystem.below top)).accessible cwd path =
      access.readable := by
    rw [FileSystem.accessible, FileSystem.nodeAt, hlookup]
    simp only [FileSystem.withModes_node_of_not_mem hleft, hdir]
  have hrun : yieldTop id cwd (chmodOne cwd mode) path (fs.withModes mode (FileSystem.below top)) =
      (if (fs.withModes mode (FileSystem.below top)).accessible cwd path then chmodOne cwd mode path
        else Effect.raise (.errno enoent ("cannot access: " ++ path.text)))
        (fs.withModes mode (FileSystem.below top)) := rfl
  rw [haccessible] at hrun
  cases hread : access.readable with
  | true =>
    rw [hread, if_pos rfl] at hrun
    rw [← hwhole]
    exact Effect.achieves_of_eq
      (hrun.trans (chmodOne_of_ok (FileSystem.chmod_withModes hlookup hdir hleft)))
  | false =>
    rw [hread, if_neg (by simp)] at hrun
    have herror : (yieldTop id cwd (chmodOne cwd mode) path
        (fs.withModes mode (FileSystem.below top))).1 =
        .error (.errno enoent ("cannot access: " ++ path.text)) := congrArg Prod.fst hrun
    exact Effect.achieves_of_error herror (by simp)

/-- **A recursive `chmod` does not get in its own way.** In a tree without links it changes
all directories, and nothing outside, if it returns; and it returns if the tree can be
read before, whatever the new mode permits. -/
theorem chmod_recursive (disk : Disk) (platform : Platform) (cwd : Loc) (path : PosixPath)
    (mode : ℕ)
    (hfound : (disk.prune (FileSystem.below top)).lookup cwd true path = .found top)
    (hdir : ∃ order access, disk.node top = some (.dir order access))
    (hlinkless : Linkless disk.toFileSystem top)
    (hlisted : TreeListed disk.toFileSystem platform path top) :
    (∀ fuel fs', chmod platform cwd fuel path mode true disk.toFileSystem = (.ok (), fs') →
        fs' = disk.withModes mode {x | top <+: x}) ∧
      (TreeOpen disk.toFileSystem top →
          ∃ fuel, chmod platform cwd fuel path mode true disk.toFileSystem =
        (.ok (), disk.withModes mode {x | top <+: x})) := by
  have hfs := disk.wellFormed
  obtain ⟨order, access, hdir⟩ := hdir
  have hleads : Leads disk.toFileSystem cwd top top path :=
    (FileSystem.persists_prune Set.sdiff_subset).lookup hfound
  have htop := List.append_nil top
  have hachieves : ∀ limit fuel, limit ≤ top.length + fuel →
      Effect.Achieves
        (TreeOpen disk.toFileSystem top ∧ ∀ x, (disk.node x).isSome → x.length < limit)
        (chmod platform cwd fuel path mode true) disk.toFileSystem ()
        (disk.withModes mode {x | top <+: x}) := by
    intro limit fuel hlimit
    have hwalk : Effect.Achieves _
        (walk id platform cwd false none (yieldNames (chmodOne cwd mode)) fuel path)
        _ _ _ := walk_chmods hfs hlinkless hlisted limit fuel [] order access (by rwa [htop])
          (by rwa [htop]) (by rwa [htop])
    rw [htop, earlier_self, FileSystem.withModes_empty, Set.empty_union] at hwalk
    rw [chmod, if_pos rfl]
    exact hwalk.bind ((yieldTop_chmods hfound hdir).mono fun hpermitted =>
      (hpermitted.1 [] order access (by rwa [htop])).1)
  constructor
  · intro fuel fs' hrun
    exact ((hachieves 0 fuel (Nat.zero_le _)).1 () fs' hrun).2
  · intro hopen
    refine ⟨disk.depth + 1, ?_⟩
    exact (hachieves (disk.depth + 1) (disk.depth + 1) (Nat.le_add_left _ _)).2
      ⟨hopen, fun x hx => Nat.lt_succ_of_le (disk.length_le x hx)⟩

/-- A directory in a directory, with a file. -/
def twoLevelDisk : Disk :=
  .ofTable
    [([], .dir [".", "..", "t"] ⟨true, true, true⟩),
      (["t"], .dir [".", "..", "d"] ⟨true, true, true⟩),
      (["t", "d"], .dir [".", "..", "f"] ⟨true, true, true⟩),
      (["t", "d", "f"], .file [])]
    (fun _ => true) (by decide)

/-- Nobody can read the directories behind the walk. -/
theorem chmod_recursive_twoLevelDisk :
    ∃ fuel, chmod .linux [] fuel ⟨true, ["t"]⟩ 0 true twoLevelDisk.toFileSystem =
      (.ok (), twoLevelDisk.withModes 0 {x | ["t"] <+: x}) := by
  have hroot : [] ∉ FileSystem.below ["t"] := fun h => by simpa using h.1
  have htop : ["t"] ∉ FileSystem.below ["t"] := fun h => h.2 rfl
  have hroot' : twoLevelDisk.node [] = some (.dir [".", "..", "t"] ⟨true, true, true⟩) := rfl
  have hdir : twoLevelDisk.node ["t"] = some (.dir [".", "..", "d"] ⟨true, true, true⟩) := rfl
  have hfound : (twoLevelDisk.prune (FileSystem.below ["t"])).lookup [] true ⟨true, ["t"]⟩ =
      .found ["t"] := by
    obtain ⟨left, hleft⟩ := FileSystem.prune_node_dir hroot hroot'
    obtain ⟨below, hbelow⟩ := FileSystem.prune_node_dir htop hdir
    have hstart : (twoLevelDisk.prune (FileSystem.below ["t"])).lookup [] true ⟨true, []⟩ =
      .found [] := rfl
    exact FileSystem.lookup_join_entry hstart hleft (by decide) hbelow (fun _ _ h => by cases h)
  have hplaces : ∀ rest order access, twoLevelDisk.node (["t"] ++ rest) = some (.dir order access) →
      rest = [] ∧ order = [".", "..", "d"] ∧ access = ⟨true, true, true⟩ ∨
        rest = ["d"] ∧ order = [".", "..", "f"] ∧ access = ⟨true, true, true⟩ :=
          fun rest order access hnode => by
    simpa using FileSystem.mem_of_lookup hnode
  refine (chmod_recursive twoLevelDisk .linux [] ⟨true, ["t"]⟩ 0 hfound ⟨_, _, hdir⟩ ?_ ?_).2 ?_
  · intro rest target hlink
    simpa using FileSystem.mem_of_lookup hlink
  · intro rest order access hnode
    rcases hplaces rest order access hnode with ⟨rfl, rfl, rfl⟩ | ⟨rfl, rfl, rfl⟩
    · exact ⟨dotsFirst_of_forall (by decide), by decide⟩
    · exact ⟨dotsFirst_of_forall (by decide), by decide⟩
  · intro rest order access hnode
    rcases hplaces rest order access hnode with ⟨rfl, rfl, rfl⟩ | ⟨rfl, rfl, rfl⟩
    · exact ⟨rfl, fun _ => rfl⟩
    · exact ⟨rfl, fun _ => rfl⟩

end RpcProject.Files
