/-
# What is in the way of directories

Where the client reads the failure of each call as what it is, `mkdir` with `parents` passes
over entries that are there and over nothing else. A part that is there and does not lead to
a directory then makes the call for the next part fail. Only at the last part there is no
next one: so the call does what it should just if, with the directories before it in place,
the last part of the path is not there or leads to a directory.
-/

import RpcProject.Files.MakeDirs

namespace RpcProject.Files

open Foundations

variable {side : Side} {fs fs' : FileSystem} {cwd loc : Loc} {path dirPath : PosixPath} {mode : ℕ}
  {existOk : Bool} {names pre : List Name} {name : Name} {order : List Name} {access : Access}
  {errno : Errno}

/-- When only the last directory along the path is left to be made, nothing but a directory is in
its place. -/
def ClearAtEnd (side : Side) (path : PosixPath) (mode : ℕ) (fs : FileSystem) : Prop :=
  HasCwd fs side.cwd → ∀ last ∈ (dirPaths side path).getLast?, ∀ loc,
    (fs.furnish side.cwd mode (dirPaths side path).dropLast).lookup side.cwd false last.strip =
        .found loc →
      LeadsToDir (fs.furnish side.cwd mode (dirPaths side path).dropLast) side.cwd last

/-- If everything along the path that cannot be made is passed over, also the last directory, then
the path leads to a directory all the same. -/
def DirIfUnmade (reads : ErrnoReads) (side : Side) (path : PosixPath) (mode : ℕ) (fs : FileSystem) :
    Prop :=
  HasCwd fs side.cwd → AllPassedOver reads side.cwd mode fs (dirPaths side path) →
    (∀ last ∈ (dirPaths side path).getLast?,
      (fs.furnish side.cwd mode (dirPaths side path).dropLast).mkdirFails side.cwd last ≠ none) →
      LeadsToDir (fs.furnish side.cwd mode (dirPaths side path).dropLast) side.cwd path.normalise

/-! ## What is passed over -/

/-- A call passes over what is there. -/
theorem passedOver_of_found (hfound : fs.lookup cwd false path.strip = .found loc)
    (hfails : fs.mkdirFails cwd path = some errno) : PassedOver attributed path errno := by
  rw [FileSystem.mkdirFails, hfound] at hfails
  exact .inr (Option.some.inj hfails).symm

/-- It passes over nothing else. -/
theorem found_of_passedOver (hfails : fs.mkdirFails cwd path = some errno)
    (hpassed : PassedOver attributed path errno) :
    ∃ loc, fs.lookup cwd false path.strip = .found loc := by
  have hnumber : errno = eisdir ∨ errno = eexist := hpassed
  rw [FileSystem.mkdirFails] at hfails
  cases hlookup : fs.lookup cwd false path.strip with
  | found loc => exact ⟨loc, rfl⟩
  | absent parent name =>
    rw [hlookup] at hfails
    by_cases hchange : fs.mayChange parent = true
    · simp [hchange] at hfails
    · obtain rfl : eacces = errno := by simpa [hchange] using hfails
      rcases hnumber with h | h <;> cases h
  | failed number =>
    rw [hlookup] at hfails
    obtain rfl : number = errno := Option.some.inj hfails
    rcases FileSystem.lookup_failed hlookup with rfl | rfl | rfl | rfl <;>
      rcases hnumber with h | h <;> cases h

theorem furnish_concat (fs : FileSystem) (cwd : Loc) (mode : ℕ) (paths : List PosixPath)
    (path : PosixPath) :
    fs.furnish cwd mode (paths ++ [path]) = (fs.furnish cwd mode paths).furnishOne cwd mode path :=
  List.foldl_concat _ _ _ _

theorem furnish_append (fs : FileSystem) (cwd : Loc) (mode : ℕ) (paths more : List PosixPath) :
    fs.furnish cwd mode (paths ++ more) = (fs.furnish cwd mode paths).furnish cwd mode more :=
  List.foldl_append

theorem allPassedOver_append {reads : ErrnoReads} {paths more : List PosixPath} :
    AllPassedOver reads cwd mode fs (paths ++ more) ↔
      AllPassedOver reads cwd mode fs paths ∧
        AllPassedOver reads cwd mode (fs.furnish cwd mode paths) more := by
  induction paths generalizing fs with
  | nil => exact (and_iff_right trivial).symm
  | cons path rest ih =>
    rw [List.cons_append, AllPassedOver, AllPassedOver, ih, and_assoc]
    rfl

/-- A path that leads to a directory is there also without following a link at its end. -/
theorem LeadsToDir.found (h : LeadsToDir fs cwd path) :
    ∃ dest, fs.lookup cwd false path = .found dest := by
  obtain ⟨loc, order, access, hfound, -⟩ := h
  rcases fs.lookup_follow_or_link cwd path with heq | ⟨dest, target, hlink, -⟩
  · exact ⟨loc, heq ▸ hfound⟩
  · exact ⟨dest, hlink⟩

/-- Whether a directory is made or not, what leads there leads to a directory or was there. -/
theorem lookup_ne_failed_of_leadsToDir (h : LeadsToDir (fs.furnishOne cwd mode path) cwd path)
    (hstrip : path.strip = path) :
    (∀ errno, fs.lookup cwd false path ≠ .failed errno) ∧
      ∀ errno, fs.mkdirFails cwd path = some errno → PassedOver attributed path errno := by
  by_cases hfails : fs.mkdirFails cwd path = none
  · refine ⟨fun errno hfailed => ?_, fun errno hsome => absurd (hfails.symm.trans hsome) nofun⟩
    rw [FileSystem.mkdirFails, hstrip, hfailed] at hfails
    cases hfails
  · obtain ⟨number, hnumber⟩ := Option.ne_none_iff_exists'.mp hfails
    rw [furnishOne_of_fails hnumber] at h
    obtain ⟨dest, hdest⟩ := h.found
    refine ⟨fun errno hfailed => (by cases hdest.symm.trans hfailed), fun errno hsome => ?_⟩
    exact passedOver_of_found (by rw [hstrip, hdest]) hsome

/-! ## The paths of the loop -/

/-- The path of a name under a path object has these parts before the name. -/
structure Prefixes (dirPath : PosixPath) (pre : List Name) : Prop where
  absolute : dirPath.absolute = true
  base : dirPath.normalise.base = pre
  plain : ∃ parts, PlainNames parts ∧ (pre = parts ∨ pre = "" :: parts)

theorem PlainNames.filter (h : PlainNames names) :
    (names.filter fun part => ¬ (part = "" ∨ part = ".")) = names := by
  apply List.filter_eq_self.mpr
  intro part hpart
  simpa using h part hpart

theorem PlainNames.concat (h : PlainNames names) (hname : name ≠ "" ∧ name ≠ ".") :
    PlainNames (names ++ [name]) :=
  List.forall_mem_append.mpr ⟨h, fun _ hmem => List.mem_singleton.mp hmem ▸ hname⟩

theorem normalise_plain (h : PlainNames names) :
    (⟨true, names⟩ : PosixPath).normalise = ⟨true, names⟩ := by
  have hroot : PosixPath.doubleRoot names = false := by
    rw [Bool.eq_false_iff]
    intro hroot
    obtain ⟨part, rest, rfl⟩ := PosixPath.exists_of_doubleRoot hroot
    exact (h "" List.mem_cons_self).1 rfl
  have hnamed : (⟨true, names⟩ : PosixPath).named = names := h.filter
  rw [PosixPath.normalise, PosixPath.withNamed, hnamed, if_pos rfl, hroot]
  exact if_neg Bool.false_ne_true

theorem normalise_plain_doubleRoot (h : PlainNames names) (hne : names ≠ []) :
    (⟨true, "" :: names⟩ : PosixPath).normalise = ⟨true, "" :: names⟩ := by
  have hnamed : (⟨true, "" :: names⟩ : PosixPath).named = names :=
    (List.filter_cons_of_neg (by simp)).trans h.filter
  have hroot : PosixPath.doubleRoot ("" :: names) = true := by
    cases names with
    | nil => exact absurd rfl hne
    | cons first rest => simp [PosixPath.doubleRoot, (h first List.mem_cons_self).1]
  rw [PosixPath.normalise, PosixPath.withNamed, hnamed, if_pos rfl, if_pos hroot, if_neg hne]

theorem base_concat (absolute : Bool) (hname : name ≠ "") :
    (⟨absolute, pre ++ [name]⟩ : PosixPath).base = pre ++ [name] := by
  rw [PosixPath.base, List.getLast?_concat, if_neg fun h => hname (Option.some.inj h)]

theorem Prefixes.child (h : Prefixes dirPath pre) (name : Name) :
    dirPath.child name = ⟨true, pre ++ [name]⟩ := by
  rw [PosixPath.child, PosixPath.join, h.base, PosixPath.normalise_absolute, h.absolute]

theorem Prefixes.under (h : Prefixes dirPath pre) (hname : name ≠ "" ∧ name ≠ ".") :
    Prefixes ⟨true, pre ++ [name]⟩ (pre ++ [name]) := by
  obtain ⟨parts, hparts, hpre⟩ := h.plain
  have hconcat := hparts.concat hname
  have hnormal : (⟨true, pre ++ [name]⟩ : PosixPath).normalise = ⟨true, pre ++ [name]⟩ := by
    rcases hpre with rfl | rfl
    · exact normalise_plain hconcat
    · exact normalise_plain_doubleRoot hconcat (List.concat_ne_nil _ _)
  refine ⟨rfl, by rw [hnormal, base_concat true hname.1], _, hconcat, ?_⟩
  exact hpre.imp (fun h => by rw [h]) fun h => by rw [h, List.cons_append]

/-- The paths of the loop behind some names. -/
theorem Prefixes.partPaths_concat (h : Prefixes dirPath pre)
    (hnames : PlainNames (names ++ [name])) :
    partPaths dirPath ((names ++ [name]).map .name) =
      partPaths dirPath (names.map .name) ++ [⟨true, pre ++ names ++ [name]⟩] := by
  induction names generalizing dirPath pre with
  | nil =>
    rw [List.nil_append, List.append_nil, List.map_singleton, List.map_nil, partPaths, partPaths,
      partPaths, PosixPath.joinPart, h.child name, List.nil_append]
  | cons first rest ih =>
    obtain ⟨hfirst, hrest⟩ := List.forall_mem_cons.mp hnames
    have hunder := ih (h.under hfirst) hrest
    rw [List.cons_append, List.map_cons, List.map_cons, partPaths, partPaths, PosixPath.joinPart,
      h.child first, hunder, List.cons_append, List.append_assoc pre, List.singleton_append]

/-- Under the root, with one slash or with two. -/
theorem prefixes_root (habsolute : path.absolute = true) :
    ∃ pre, Prefixes (path.withNamed []) pre ∧ (∀ names, names ≠ [] →
      path.withNamed names = ⟨true, pre ++ names⟩) := by
  by_cases hroot : PosixPath.doubleRoot path.parts = true
  · refine ⟨[""], ⟨?_, ?_, [], fun _ h => absurd h List.not_mem_nil, .inr rfl⟩, fun names hne => ?_⟩
    · rw [PosixPath.withNamed, if_pos habsolute, if_pos hroot]
    · rw [PosixPath.withNamed, if_pos habsolute, if_pos hroot]
      rfl
    · rw [PosixPath.withNamed, if_pos habsolute, if_pos hroot, if_neg hne]
      rfl
  · refine ⟨[], ⟨?_, ?_, [], fun _ h => absurd h List.not_mem_nil, .inl rfl⟩, fun names hne => ?_⟩
    · rw [PosixPath.withNamed, if_pos habsolute, if_neg hroot]
    · rw [PosixPath.withNamed, if_pos habsolute, if_neg hroot]
      rfl
    · rw [PosixPath.withNamed, if_pos habsolute, if_neg hroot, List.nil_append]

theorem plain_of_dir (hfs : fs.WellFormed) (hdir : fs.node loc = some (.dir order access)) :
    PlainNames loc := by
  induction loc using List.reverseRecOn generalizing order access with
  | nil => exact fun _ h => absurd h List.not_mem_nil
  | append_singleton up name ih =>
    obtain ⟨hproper, upOrder, upAccess, hup, -⟩ := (hfs.listed up name).mp (by rw [hdir]; rfl)
    exact (ih hup).concat ⟨hproper.1, fun hdot => hproper.2 (.inl hdot)⟩

/-- Under the working directory. -/
theorem prefixes_cwd (hfs : fs.WellFormed) (hdir : fs.node cwd = some (.dir order access)) :
    Prefixes ⟨true, cwd⟩ cwd := by
  have hplain := plain_of_dir hfs hdir
  refine ⟨rfl, ?_, cwd, hplain, .inl rfl⟩
  rw [normalise_plain hplain]
  rcases List.eq_nil_or_concat' cwd with rfl | ⟨up, name, rfl⟩
  · rfl
  · exact base_concat true (hplain name (List.mem_append_right _ (List.mem_singleton_self _))).1

/-! ## Behind each part -/

theorem strip_concat (absolute : Bool) (pre : List Name) (hname : name ≠ "") :
    (⟨absolute, pre ++ [name]⟩ : PosixPath).strip = ⟨absolute, pre ++ [name]⟩ :=
  FileSystem.strip_of_proper List.getLast?_concat hname

/-- A name is looked up in a directory only. -/
theorem leadsToDir_of_not_failed
    (h : ∀ errno, fs.lookup cwd false ⟨true, pre ++ [name]⟩ ≠ .failed errno) :
    LeadsToDir fs cwd ⟨true, pre⟩ := by
  simp only [lookup_absolute] at h
  obtain ⟨dest, order, access, hfound, hdir⟩ := FileSystem.dir_of_resolve_append h
  exact ⟨dest, order, access, by rw [lookup_absolute, hfound], hdir⟩

/-- If the last name can be looked up, everything before it is there or has been made. -/
theorem Prefixes.allPassedOver (h : Prefixes dirPath pre) (hnames : PlainNames (names ++ [name]))
    (hlast : ∀ errno, (fs.furnish cwd mode (partPaths dirPath (names.map .name))).lookup cwd false
      ⟨true, pre ++ names ++ [name]⟩ ≠ .failed errno) :
    AllPassedOver attributed cwd mode fs (partPaths dirPath (names.map .name)) := by
  -- from the end, since each part tells of the path before it
  induction names using List.reverseRecOn generalizing name with
  | nil => trivial
  | append_singleton names before ih =>
    have hplain : PlainNames (names ++ [before]) := fun part hmem =>
      hnames part (List.mem_append_left _ hmem)
    have hbefore : before ≠ "" := (hplain before (by simp)).1
    have hleads := leadsToDir_of_not_failed hlast
    rw [h.partPaths_concat hplain, furnish_concat, ← List.append_assoc] at hleads
    obtain ⟨hnot, hpassed⟩ :=
      lookup_ne_failed_of_leadsToDir hleads (strip_concat true (pre ++ names) hbefore)
    rw [h.partPaths_concat hplain, allPassedOver_append]
    exact ⟨ih hplain hnot, hpassed, trivial⟩

/-! ## The start of the loop -/

theorem resolve_append_of_descend {budget : ℕ} {follow : Bool} {dest : Loc} {more : List Name}
    (hfound : fs.descend true loc names = .done (.found dest)) :
    fs.resolve follow budget loc (names ++ more) = fs.resolve follow budget dest more := by
  rw [FileSystem.resolve, FileSystem.resolve, FileSystem.descend_append_of_found hfound]

/-- The path that the names are put behind, and those that the loop begins with. -/
structure Start (side : Side) (path : PosixPath) (fs : FileSystem) (dirPath : PosixPath)
    (pre : List Name) (first : List PosixPath) : Prop where
  prefixes : Prefixes dirPath pre
  paths : dirPaths side path = first ++ partPaths dirPath (path.named.map .name)
  there : ∀ p ∈ first, (∃ loc, fs.lookup side.cwd false p.strip = .found loc) ∧
    LeadsToDir fs side.cwd p
  same : ∀ fs', GrowsWellFormed fs fs' → ∀ names, PlainNames names → names ≠ [] →
    (∃ follow loc, fs'.lookup side.cwd follow ⟨true, pre ++ names⟩ = .found loc) →
      (LeadsToDir fs' side.cwd ⟨true, pre ++ names⟩ ↔
        LeadsToDir fs' side.cwd (path.withNamed names))

theorem start_absolute (hfs : fs.WellFormed) (hcwd : HasCwd fs side.cwd)
    (habsolute : path.absolute = true) :
    ∃ pre, Start side path fs (path.withNamed []) pre [path.withNamed []] := by
  obtain ⟨pre, hprefixes, hnames⟩ := prefixes_root habsolute
  have hparts : path.rootParts = [.root (path.withNamed [])] := if_pos habsolute
  have hstrip : (path.withNamed []).strip = ⟨true, []⟩ := by
    rw [PosixPath.withNamed, if_pos habsolute]
    split <;> rfl
  refine ⟨pre, hprefixes, ?_, fun p hp => ?_, fun fs' _ names _ hne _ => by rw [hnames names hne]⟩
  · rw [dirPaths, PosixPath.pureParts, hparts]
    rfl
  · rw [List.mem_singleton.mp hp, hstrip, lookup_absolute]
    exact ⟨⟨[], rfl⟩, leadsToDir_withNamed_nil hfs hcwd path⟩

theorem start_relative (hfs : fs.WellFormed) (hcwd : fs.node side.cwd = some (.dir order access))
    (hrelative : path.absolute = false) : Start side path fs ⟨true, side.cwd⟩ side.cwd [] := by
  have hparts : path.rootParts = [] := if_neg (by rw [hrelative]; exact Bool.false_ne_true)
  -- whether the working directory can be reached from the root
  have hreach : ∀ fs', GrowsWellFormed fs fs' →
      fs'.descend true [] side.cwd = .done (.found side.cwd) ∨
        ∀ follow more, fs'.descend follow [] (side.cwd ++ more) = .done (.failed eacces) := by
    intro fs' hextends
    obtain ⟨order', hcwd'⟩ := hextends.1.persists.dir hcwd
    exact FileSystem.descend_dir (hextends.2 hfs) hcwd'
  refine ⟨prefixes_cwd hfs hcwd, ?_, fun _ h => absurd h List.not_mem_nil,
    fun fs' hextends names hplain hne => ?_⟩
  · rw [dirPaths, PosixPath.pureParts, hparts]
    rfl
  · rintro ⟨follow, loc, hfound⟩
    rcases hreach fs' hextends with hdescend | hfailed
    · have hnonempty : ¬ (⟨false, names⟩ : PosixPath).IsEmpty := by
        rintro ⟨-, h | h⟩
        · exact hne h
        · have hempty : names = [""] := h
          exact (hplain "" (by rw [hempty]; exact List.mem_singleton_self _)).1 rfl
      have hnamed : path.withNamed names = ⟨false, names⟩ := by
        rw [PosixPath.withNamed, hrelative, if_neg Bool.false_ne_true, if_neg hne]
      have hlookup : fs'.lookup side.cwd true ⟨true, side.cwd ++ names⟩ =
          fs'.lookup side.cwd true ⟨false, names⟩ := by
        rw [lookup_absolute, resolve_append_of_descend hdescend, FileSystem.lookup,
          if_neg hnonempty]
        rfl
      rw [LeadsToDir, LeadsToDir, hnamed, hlookup]
    · rw [lookup_absolute, FileSystem.resolve, hfailed] at hfound
      cases hfound

theorem exists_start (hfs : fs.WellFormed) (hcwd : HasCwd fs side.cwd) (path : PosixPath) :
    ∃ dirPath pre first, Start side path fs dirPath pre first := by
  cases habsolute : path.absolute with
  | true =>
    obtain ⟨pre, hstart⟩ := start_absolute hfs hcwd habsolute
    exact ⟨_, pre, _, hstart⟩
  | false =>
    obtain ⟨order, access, hdir⟩ := hcwd
    exact ⟨_, _, _, start_relative hfs hdir habsolute⟩

/-- The loop begins in directories that are there. -/
theorem Start.first {first : List PosixPath} (h : Start side path fs dirPath pre first) (mode : ℕ) :
    AllPassedOver attributed side.cwd mode fs first ∧ fs.furnish side.cwd mode first = fs := by
  have hthere := h.there
  clear h
  induction first with
  | nil => exact ⟨trivial, rfl⟩
  | cons p rest ih =>
    obtain ⟨⟨⟨loc, hfound⟩, -⟩, hrest⟩ := List.forall_mem_cons.mp hthere
    have hfails : fs.mkdirFails side.cwd p = some eexist := by rw [FileSystem.mkdirFails, hfound]
    obtain ⟨hall, hsame⟩ := ih hrest
    have hone : fs.furnishOne side.cwd mode p = fs := furnishOne_of_fails hfails
    refine ⟨⟨fun errno => passedOver_of_found hfound, by rwa [hone]⟩, ?_⟩
    rw [FileSystem.furnish, List.foldl_cons, hone]
    exact hsame

/-- A path with names ends in the last of them. -/
theorem Start.paths_concat {first : List PosixPath} (h : Start side path fs dirPath pre first)
    (hnamed : path.named = names ++ [name]) :
    dirPaths side path =
      first ++ partPaths dirPath (names.map .name) ++ [⟨true, pre ++ names ++ [name]⟩] := by
  have hplain : PlainNames (names ++ [name]) := hnamed ▸ plain_named path
  rw [h.paths, hnamed, h.prefixes.partPaths_concat hplain, ← List.append_assoc first]

/-- The path itself is the path of its last part. -/
theorem Start.whole {first : List PosixPath} (h : Start side path fs dirPath pre first)
    (hnamed : path.named = names ++ [name]) (hgrows : GrowsWellFormed fs fs')
    (hfound : ∃ follow loc, fs'.lookup side.cwd follow ⟨true, pre ++ names ++ [name]⟩ =
      .found loc) :
    LeadsToDir fs' side.cwd ⟨true, pre ++ names ++ [name]⟩ ↔
      LeadsToDir fs' side.cwd path.normalise := by
  have hplain : PlainNames (names ++ [name]) := hnamed ▸ plain_named path
  rw [PosixPath.normalise, hnamed]
  rw [List.append_assoc] at hfound ⊢
  exact h.same fs' hgrows _ hplain (List.concat_ne_nil _ _) hfound

/-! ## The last part -/

/-- A part that is made leads to a directory. -/
theorem leadsToDir_of_mkdirFails_none (mode : ℕ) (hfails : fs.mkdirFails cwd path = none) :
    LeadsToDir (fs.furnishOne cwd mode path) cwd path := by
  obtain ⟨parent, name, habsent, hchange⟩ := absent_of_mkdirFails hfails
  rw [FileSystem.furnishOne, habsent]
  dsimp only
  rw [if_pos hchange]
  exact ⟨_, _, _, FileSystem.lookup_insert_dir habsent,
    by rw [FileSystem.insert_node, if_pos rfl]⟩

/-- A part that is made or passed over leads to a directory, if nothing else is there. -/
theorem leadsToDir_furnishOne
    (hpassed : ∀ errno, fs.mkdirFails cwd path = some errno → PassedOver attributed path errno)
    (hclear : ∀ loc, fs.lookup cwd false path.strip = .found loc → LeadsToDir fs cwd path) :
    LeadsToDir (fs.furnishOne cwd mode path) cwd path := by
  cases hfails : fs.mkdirFails cwd path with
  | some errno =>
    obtain ⟨loc, hfound⟩ := found_of_passedOver hfails (hpassed errno hfails)
    rw [furnishOne_of_found hfound]
    exact hclear loc hfound
  | none => exact leadsToDir_of_mkdirFails_none mode hfails

/-- A call that returns leads to a directory just if nothing is in the way of the last part. -/
theorem furnished_iff_clearAtEnd (hfs : fs.WellFormed) (side : Side) (path : PosixPath) (mode : ℕ) :
    (HasCwd fs side.cwd → AllPassedOver attributed side.cwd mode fs (dirPaths side path) →
        LeadsToDir (fs.furnish side.cwd mode (dirPaths side path)) side.cwd path.normalise) ↔
      ClearAtEnd side path mode fs := by
  rw [ClearAtEnd]
  refine imp_congr_right fun hcwd => ?_
  obtain ⟨dirPath, pre, first, hstart⟩ := exists_start hfs hcwd path
  obtain ⟨hfirst, hsame⟩ := hstart.first mode
  rcases List.eq_nil_or_concat' path.named with hnone | ⟨names, name, hnamed⟩
  · -- without names there is at most the root to be made
    rw [hstart.paths, hnone, List.map_nil, partPaths, List.append_nil, hsame, PosixPath.normalise,
      hnone]
    refine iff_of_true (fun _ => leadsToDir_withNamed_nil hfs hcwd path) fun last hlast loc _ => ?_
    have hmem := List.mem_of_getLast? hlast
    have hkept := grows_furnish fs side.cwd mode first.dropLast
    exact (hstart.there last hmem).2.kept hkept.1
  · have hplain : PlainNames (names ++ [name]) := hnamed ▸ plain_named path
    have hname : name ≠ "" := (hplain name (by simp)).1
    rw [hstart.paths_concat hnamed, List.dropLast_concat, List.getLast?_concat, furnish_concat,
      allPassedOver_append, allPassedOver_append, furnish_append, hsame]
    have hgrows := grows_furnish fs side.cwd mode (partPaths dirPath (names.map .name))
    have hstrip := strip_concat true (pre ++ names) hname
    constructor
    · intro hreturns last hlast loc hfound
      obtain rfl := Option.some.inj hlast
      rw [hstrip] at hfound
      have hall : AllPassedOver attributed side.cwd mode fs (partPaths _ (names.map .name)) :=
        hstart.prefixes.allPassedOver hplain fun errno hfailed => by
          cases hfound.symm.trans hfailed
      have hthere := hfound
      rw [← hstrip] at hthere
      have hleads := hreturns ⟨⟨hfirst, hall⟩,
        fun errno => passedOver_of_found hthere, trivial⟩
      rw [furnishOne_of_found hthere] at hleads
      exact (hstart.whole hnamed hgrows ⟨false, loc, hfound⟩).mpr hleads
    · rintro hclear ⟨-, hpassed, -⟩
      obtain ⟨loc, order, access, hfound, hdir⟩ := leadsToDir_furnishOne hpassed (hclear _ rfl)
      have hgrows' := trans_of GrowsWellFormed hgrows
        (grows_furnishOne _ side.cwd mode ⟨true, pre ++ names ++ [name]⟩)
      exact (hstart.whole hnamed hgrows' ⟨true, loc, hfound⟩).mp ⟨loc, order, access, hfound, hdir⟩

/-- Whatever is read, only a last part that cannot be made may be passed over instead. -/
theorem furnished_iff_unmade (hfs : fs.WellFormed) (reads : ErrnoReads) (side : Side)
    (path : PosixPath) (mode : ℕ) :
    (HasCwd fs side.cwd → AllPassedOver reads side.cwd mode fs (dirPaths side path) →
        LeadsToDir (fs.furnish side.cwd mode (dirPaths side path)) side.cwd path.normalise) ↔
      DirIfUnmade reads side path mode fs := by
  rw [DirIfUnmade]
  refine imp_congr_right fun hcwd => imp_congr_right fun _ => ?_
  obtain ⟨dirPath, pre, first, hstart⟩ := exists_start hfs hcwd path
  obtain ⟨-, hsame⟩ := hstart.first mode
  rcases List.eq_nil_or_concat' path.named with hnone | ⟨names, name, hnamed⟩
  · have hthere (paths : List PosixPath) :
        LeadsToDir (fs.furnish side.cwd mode paths) side.cwd path.normalise := by
      rw [PosixPath.normalise, hnone]
      exact (leadsToDir_withNamed_nil hfs hcwd path).kept (grows_furnish fs side.cwd mode paths).1
    exact iff_of_true (hthere _) fun _ => hthere _
  · rw [hstart.paths_concat hnamed, List.dropLast_concat, List.getLast?_concat, furnish_concat,
      furnish_append, hsame]
    have hgrows := grows_furnish fs side.cwd mode (partPaths dirPath (names.map .name))
    constructor
    · intro hleads hunmade
      obtain ⟨errno, hfails⟩ := Option.ne_none_iff_exists'.mp (hunmade _ rfl)
      rwa [furnishOne_of_fails hfails] at hleads
    · intro hleads
      cases hfails : (fs.furnish side.cwd mode (partPaths dirPath (names.map .name))).mkdirFails
          side.cwd ⟨true, pre ++ names ++ [name]⟩ with
      | some errno =>
        rw [furnishOne_of_fails hfails]
        refine hleads fun last hlast => ?_
        obtain rfl := Option.some.inj hlast
        rw [hfails]
        exact Option.some_ne_none errno
      | none =>
        have hmade := leadsToDir_of_mkdirFails_none mode hfails
        obtain ⟨loc, order, access, hfound, hdir⟩ := hmade
        have hgrows' := trans_of GrowsWellFormed hgrows
          (grows_furnishOne _ side.cwd mode ⟨true, pre ++ names ++ [name]⟩)
        exact (hstart.whole hnamed hgrows' ⟨true, loc, hfound⟩).mp
          ⟨loc, order, access, hfound, hdir⟩

/-! ## Paths without `..` -/

/-- Below a directory that has just been made there is nothing. -/
theorem resolve_below_ne_found {budget : ℕ} {follow : Bool} {dest : Loc} (hfs : fs.WellFormed)
    (hdir : fs.node loc = some (.dir [".", ".."] access)) (hproper : FileSystem.Proper name) :
    fs.resolve follow budget loc (name :: names) ≠ .found dest := by
  have hnone : fs.node (loc ++ [name]) = none := by
    rw [← Option.not_isSome_iff_eq_none, hfs.listed]
    rintro ⟨-, order, access', hdir', hmem⟩
    cases hdir.symm.trans hdir'
    exact hproper.2 (by simpa [IsDot] using hmem)
  have hhop : fs.hop loc name = if access.searchable = false then .failed eacces else .missing := by
    rw [FileSystem.hop_proper hproper hdir, hnone]
  rw [FileSystem.resolve, FileSystem.descend, hhop]
  intro hfound
  by_cases hsearch : access.searchable = false
  · rw [if_pos hsearch] at hfound
    cases hfound
  · rw [if_neg hsearch] at hfound
    dsimp only at hfound
    split at hfound <;> cases hfound

/-- If the last name is there, so is everything before it, and nothing is made. -/
theorem Prefixes.furnish_eq (h : Prefixes dirPath pre) (hnames : PlainNames (names ++ [name]))
    (hfound : fs.lookup cwd false ⟨true, pre ++ names ++ [name]⟩ = .found loc) :
    fs.furnish cwd mode (partPaths dirPath (names.map .name)) = fs := by
  induction names using List.reverseRecOn generalizing name loc with
  | nil => rfl
  | append_singleton names before ih =>
    have hplain : PlainNames (names ++ [before]) := fun part hmem =>
      hnames part (List.mem_append_left _ hmem)
    have hbefore : before ≠ "" := (hplain before (by simp)).1
    have hleads : LeadsToDir fs cwd ⟨true, pre ++ (names ++ [before])⟩ :=
      leadsToDir_of_not_failed fun errno hfailed => by cases hfound.symm.trans hfailed
    rw [← List.append_assoc] at hleads
    obtain ⟨dest, hthere⟩ := hleads.found
    have hstrip := strip_concat true (pre ++ names) hbefore
    rw [h.partPaths_concat hplain, furnish_concat, ih hplain hthere,
      furnishOne_of_found (by rw [hstrip, hthere])]

/-- Making the directories before the last name does not put anything under it. -/
theorem Prefixes.found_before (h : Prefixes dirPath pre) (hfs : fs.WellFormed)
    (hnames : PlainNames (names ++ [name])) (hup : ".." ∉ names ++ [name])
    (hfound : (fs.furnish cwd mode (partPaths dirPath (names.map .name))).lookup cwd false
      ⟨true, pre ++ names ++ [name]⟩ = .found loc) :
    fs.lookup cwd false ⟨true, pre ++ names ++ [name]⟩ = .found loc := by
  induction names generalizing fs dirPath pre with
  | nil => exact hfound
  | cons first rest ih =>
    have hfirst := hnames first List.mem_cons_self
    have hrest : PlainNames (rest ++ [name]) := fun part hmem =>
      hnames part (List.mem_cons_of_mem _ hmem)
    have hsplit : pre ++ first :: rest ++ [name] = pre ++ [first] ++ rest ++ [name] := by simp
    rw [List.map_cons, partPaths, PosixPath.joinPart, h.child first, hsplit] at hfound
    rw [hsplit]
    have hlater := ih (h.under hfirst) ((grows_furnishOne fs cwd mode _).2 hfs) hrest
      (fun hmem => hup (List.mem_cons_of_mem _ hmem)) hfound
    have hstrip := strip_concat true pre hfirst.1
    cases hfails : fs.mkdirFails cwd ⟨true, pre ++ [first]⟩ with
    | some errno => rwa [furnishOne_of_fails hfails] at hlater
    | none =>
      -- the next name is looked up in a directory that has no entries
      obtain ⟨parent, made, habsent, hchange⟩ := absent_of_mkdirFails hfails
      have hleads : (fs.insert parent made (.dir [".", ".."] (.ofMode mode))).lookup cwd true
          ⟨true, pre ++ [first]⟩ = .found (parent ++ [made]) :=
        FileSystem.lookup_insert_dir habsent
      have hone : fs.furnishOne cwd mode ⟨true, pre ++ [first]⟩ =
          fs.insert parent made (.dir [".", ".."] (.ofMode mode)) := by
        rw [FileSystem.furnishOne, habsent]
        exact if_pos hchange
      rw [hone] at hlater
      have hwell : (fs.insert parent made (.dir [".", ".."] (.ofMode mode))).WellFormed :=
        hfs.insert (FileSystem.hop_of_lookup_absent habsent) rfl
      rw [lookup_absolute] at hleads
      obtain ⟨left, -, hgo⟩ := FileSystem.resolve_append hleads
      rw [lookup_absolute, List.append_assoc, hgo false _ (by simp)] at hlater
      obtain ⟨next, more, hmore⟩ := List.exists_cons_of_ne_nil (l := rest ++ [name]) (by simp)
      rw [hmore] at hlater hrest
      have hproper : FileSystem.Proper next := by
        obtain ⟨hempty, hdot⟩ := hrest next List.mem_cons_self
        have hmem : next ∈ rest ++ [name] := by rw [hmore]; exact List.mem_cons_self
        exact ⟨hempty, not_or.mpr ⟨hdot, fun hdots => hup (List.mem_cons_of_mem _ (hdots ▸ hmem))⟩⟩
      exact absurd hlater (resolve_below_ne_found hwell
        (by rw [FileSystem.insert_node, if_pos rfl]) hproper)

/-- Along a path without `..` the directories that are made do not matter. -/
theorem clearAtEnd_iff_of_noUp (hfs : fs.WellFormed) (side : Side) (path : PosixPath) (mode : ℕ)
    (hup : ".." ∉ path.named) :
    ClearAtEnd side path mode fs ↔
      (HasCwd fs side.cwd → ∀ last ∈ (dirPaths side path).getLast?, ∀ loc,
        fs.lookup side.cwd false last.strip = .found loc → LeadsToDir fs side.cwd last) := by
  rw [ClearAtEnd]
  refine imp_congr_right fun hcwd => ?_
  obtain ⟨dirPath, pre, first, hstart⟩ := exists_start hfs hcwd path
  obtain ⟨-, hsame⟩ := hstart.first mode
  rcases List.eq_nil_or_concat' path.named with hnone | ⟨names, name, hnamed⟩
  · rw [hstart.paths, hnone, List.map_nil, partPaths, List.append_nil]
    refine iff_of_true (fun last hlast loc _ => ?_) fun last hlast loc _ => ?_
    · exact (hstart.there last (List.mem_of_getLast? hlast)).2.kept
        (grows_furnish fs side.cwd mode first.dropLast).1
    · exact (hstart.there last (List.mem_of_getLast? hlast)).2
  · have hplain : PlainNames (names ++ [name]) := hnamed ▸ plain_named path
    have hname : name ≠ "" := (hplain name (by simp)).1
    have hstrip := strip_concat true (pre ++ names) hname
    rw [hstart.paths_concat hnamed, List.dropLast_concat, List.getLast?_concat, furnish_append,
      hsame]
    refine forall_congr' fun last => imp_congr_right fun hlast => ?_
    obtain rfl := Option.some.inj hlast
    rw [hstrip]
    have hnothing {loc : Loc}
        (hfound : fs.lookup side.cwd false ⟨true, pre ++ names ++ [name]⟩ = .found loc) :
        fs.furnish side.cwd mode (partPaths dirPath (names.map .name)) = fs :=
      hstart.prefixes.furnish_eq hplain hfound
    constructor
    · intro hclear loc hfound
      have hleads := hclear loc (by rw [hnothing hfound, hfound])
      rwa [hnothing hfound] at hleads
    · intro hclear loc hfound
      have hbefore := hstart.prefixes.found_before hfs hplain (hnamed ▸ hup) hfound
      rw [hnothing hbefore]
      exact hclear loc hbefore

/-! ## The whole call -/

/-- **Making directories.** Whatever the client reads from `errno`, `mkdir` does what it should just
if both hold: where the path leads to a directory beforehand, a failure is read as `EEXIST` before
the loop just without `exist_ok`; and a last part that cannot be made leads to a directory, or not
all that cannot be made is passed over. Where each failure is read as what it is, this says that
`exist_ok` is given wherever the call may meet the directory itself, and that nothing but a
directory is in the way of the last part. -/
theorem makesDirs_iff (disk : Disk) (side : Side) (path : PosixPath) (mode : ℕ) (existOk : Bool) :
    (∀ reads, MakesDirs reads side path mode existOk disk.toFileSystem ↔
      (LeadsToDir disk.toFileSystem side.cwd path.normalise →
        (¬ HasCwd disk.toFileSystem side.cwd ∧ reads .getcwd enoent = eexist ↔ existOk = false)) ∧
      DirIfUnmade reads side path mode disk.toFileSystem) ∧
    (MakesDirs attributed side path mode existOk disk.toFileSystem ↔
      (existOk = true ∨ ¬ LeadsToDir disk.toFileSystem side.cwd path.normalise) ∧
        ClearAtEnd side path mode disk.toFileSystem) := by
  constructor
  · intro reads
    rw [makesDirs_iff_furnished disk.wellFormed, furnished_iff_unmade disk.wellFormed]
  · rw [makesDirs_iff_furnished disk.wellFormed, furnished_iff_clearAtEnd disk.wellFormed]
    refine and_congr_left' ?_
    -- a working directory that is gone is not taken for one that exists
    have hnever : ¬ (¬ HasCwd disk.toFileSystem side.cwd ∧ attributed .getcwd enoent = eexist) := by
      rintro ⟨-, h⟩
      cases h
    rw [iff_false_left hnever, Bool.not_eq_false, imp_iff_not_or, or_comm]

end RpcProject.Files
