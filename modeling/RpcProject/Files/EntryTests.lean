/-
# The tests of entries in their tree

What `lstat` and `stat` say of an entry when its directory is listed follows from
the nodes of the tree, if the directory can be searched. So does the answer of
`is_dir`, which raises where the type of an entry cannot be found out.
-/

import RpcProject.Files.Traversal

namespace RpcProject.Files

open Foundations Server

/-- The path of a location below the end of a path. -/
def PosixPath.joins (path : PosixPath) (rest : Loc) : PosixPath := rest.foldl PosixPath.join path

section Tests

variable {fs : FileSystem} {cwd loc : Loc} {path q : PosixPath} {order : List Name}
  {access : Access} {name : Name} {node : Node}

theorem stat_eq_ok_iff {follow : Bool} {mode : ℕ} : fs.stat cwd follow path = .ok mode ↔
    ∃ loc node, fs.lookup cwd follow path = .found loc ∧ fs.node loc = some node ∧
      mode = node.mode := by
  rw [FileSystem.stat, FileSystem.nodeAt]
  cases hlookup : fs.lookup cwd follow path with
  | found loc => cases hnode : fs.node loc <;> simp [hnode, Except.map, eq_comm]
  | absent parent name => simp [Except.map]
  | failed errno => simp [Except.map]

theorem stat_slash_of_denied {follow : Bool} (hfound : fs.lookup cwd true q = .found loc)
    (hdir : fs.node loc = some (.dir order access)) (hproper : FileSystem.Proper name)
    (hsearch : access.searchable = false) :
    fs.stat cwd follow (q.slash name) = .error eacces := by
  obtain ⟨left, hlookup⟩ := FileSystem.lookup_slash hfound hproper.1
  rw [FileSystem.stat, FileSystem.nodeAt, hlookup, FileSystem.resolve_proper hproper hdir,
    if_pos hsearch]
  rfl

theorem stat_slash_of_entry {follow : Bool} (hfound : fs.lookup cwd true q = .found loc)
    (hdir : fs.node loc = some (.dir order access)) (hproper : FileSystem.Proper name)
    (hsearch : access.searchable = true) (hnode : fs.node (loc ++ [name]) = some node)
    (hfollow : follow = true → ∀ target, node ≠ .link target) :
    fs.stat cwd follow (q.slash name) = .ok node.mode := by
  obtain ⟨left, hlookup⟩ := FileSystem.lookup_slash hfound hproper.1
  rw [FileSystem.stat, FileSystem.nodeAt, hlookup, FileSystem.resolve_proper hproper hdir,
    if_neg (by simp [hsearch]), hnode]
  cases node with
  | link target =>
    cases follow with
    | false => simp only [if_true, hnode]; rfl
    | true => exact absurd rfl (hfollow rfl target)
  | dir order access => simp only [hnode]; rfl
  | file content => simp only [hnode]; rfl
  | special kind => simp only [hnode]; rfl

theorem fetchStat_of_ok {follow : Bool} {mode : ℕ}
    (hstat : fs.stat cwd follow (q.slash name) = .ok mode) :
    (fs.entryAt cwd q loc name).fetchStat follow = .ok mode := by
  cases follow <;> simp [DirEntry.fetchStat, FileSystem.entryAt, FileSystem.statOf, hstat]

theorem fetchStat_of_denied {follow : Bool}
    (hstat : fs.stat cwd follow (q.slash name) = .error eacces) :
    (fs.entryAt cwd q loc name).fetchStat follow =
      .error (.errno eacces ("failed to stat: " ++ name)) := by
  cases follow <;> simp [DirEntry.fetchStat, FileSystem.entryAt, FileSystem.statOf, hstat, eacces]

theorem compareMode_of_ne (entry : DirEntry) (q : PosixPath) (bits : ℕ) {mode : ℕ}
    (hne : mode ≠ 0) :
    entry.compareMode q mode bits = .ok (Node.fileType mode = bits) := if_neg hne

theorem isDir_entryAt_of_typed (hproper : FileSystem.Proper name)
    (hnode : fs.node (loc ++ [name]) = some node) (htyped : fs.typed (loc ++ [name]) = true)
    (hlink : node.isLink = false) : (fs.entryAt cwd q loc name).isDir q = .ok node.isDir := by
  have htype : (fs.entryAt cwd q loc name).dType = node.dType := by
    simp [FileSystem.entryAt, FileSystem.dTypeAt, hproper.2, hnode, htyped]
  have hdir : DirEntry.dTypeOf sIfdir = dtDir := by decide
  rw [DirEntry.isDir, DirEntry.testMode, htype]
  simp [dType_ne_dtUnknown, dType_eq_dtLnk, hlink, hdir, dType_eq_dtDir]

theorem isSymlink_entryAt (hfound : fs.lookup cwd true q = .found loc)
    (hdir : fs.node loc = some (.dir order access)) (hproper : FileSystem.Proper name)
    (hsearch : access.searchable = true) (hnode : fs.node (loc ++ [name]) = some node) :
    (fs.entryAt cwd q loc name).isSymlink q = .ok node.isLink := by
  rw [DirEntry.isSymlink]
  have htype : (fs.entryAt cwd q loc name).dType =
      if fs.typed (loc ++ [name]) = false then dtUnknown else node.dType := by
    simp [FileSystem.entryAt, FileSystem.dTypeAt, hproper.2, hnode]
  have hlstat : (fs.entryAt cwd q loc name).fetchStat false = .ok node.mode :=
    fetchStat_of_ok (stat_slash_of_entry hfound hdir hproper hsearch hnode (by simp))
  cases htyped : fs.typed (loc ++ [name])
  · have hcompare := compareMode_of_ne (fs.entryAt cwd q loc name) q sIflnk node.mode_ne_zero
    simp [htype, htyped, hlstat, hcompare, except_bind_ok, Node.fileType_mode,
      Node.typeBits_eq_sIflnk]
  · simp [htype, htyped, dType_ne_dtUnknown, dType_eq_dtLnk]

theorem isDir_entryAt_of_searchable (hfound : fs.lookup cwd true q = .found loc)
    (hdir : fs.node loc = some (.dir order access)) (hproper : FileSystem.Proper name)
    (hsearch : access.searchable = true) (hnode : fs.node (loc ++ [name]) = some node)
    (hlink : ∀ target, node = .link target →
      ∃ mode, fs.stat cwd true (q.slash name) = .ok mode ∧ Node.fileType mode ≠ sIfdir) :
    (fs.entryAt cwd q loc name).isDir q = .ok node.isDir := by
  by_cases hplain : fs.typed (loc ++ [name]) = true ∧ node.isLink = false
  · exact isDir_entryAt_of_typed hproper hnode hplain.1 hplain.2
  · have hneed : (fs.entryAt cwd q loc name).dType = dtUnknown ∨
        (true = true ∧ (fs.entryAt cwd q loc name).dType = dtLnk) := by
      simp only [FileSystem.entryAt, FileSystem.dTypeAt, if_neg hproper.2, hnode, Option.elim]
      cases htyped : fs.typed (loc ++ [name]) <;> simp_all [dType_eq_dtLnk]
    have hmode : ∃ mode, (fs.entryAt cwd q loc name).statMode q true = .ok mode ∧ mode ≠ 0 ∧
        (Node.fileType mode = sIfdir ↔ node.isDir = true) := by
      rw [DirEntry.statMode, if_neg (by simp), isSymlink_entryAt hfound hdir hproper hsearch hnode,
        except_bind_ok]
      cases hisLink : node.isLink with
      | false =>
        have hnot : ∀ target, node ≠ .link target := by
          rintro target rfl
          cases hisLink
        refine ⟨node.mode, ?_, node.mode_ne_zero, ?_⟩
        · exact fetchStat_of_ok (stat_slash_of_entry hfound hdir hproper hsearch hnode (by simp))
        · rw [Node.fileType_mode, Node.typeBits_eq_sIfdir]
      | true =>
        obtain ⟨target, rfl⟩ := Node.isLink_eq_true_iff.mp hisLink
        obtain ⟨mode, hstat, hmode⟩ := hlink target rfl
        obtain ⟨-, other, -, -, rfl⟩ := stat_eq_ok_iff.mp hstat
        exact ⟨_, fetchStat_of_ok hstat, other.mode_ne_zero, by simpa [Node.isDir] using hmode⟩
    obtain ⟨mode, hstat, hne, hiff⟩ := hmode
    rw [DirEntry.isDir, DirEntry.testMode, if_pos hneed, hstat, except_bind_ok,
      compareMode_of_ne _ _ _ hne]
    simp [hiff]

theorem isDir_entryAt_eq_error (hfound : fs.lookup cwd true q = .found loc)
    (hdir : fs.node loc = some (.dir order access)) (hproper : FileSystem.Proper name)
    (hsearch : access.searchable = false) (hnode : fs.node (loc ++ [name]) = some node)
    (hplain : ¬ (fs.typed (loc ++ [name]) = true ∧ node.isLink = false)) :
    ∃ e, (fs.entryAt cwd q loc name).isDir q = .error e := by
  have hdenied : ∀ follow, (fs.entryAt cwd q loc name).fetchStat follow =
      .error (.errno eacces ("failed to stat: " ++ name)) :=
    fun follow => fetchStat_of_denied (stat_slash_of_denied hfound hdir hproper hsearch)
  have htype : (fs.entryAt cwd q loc name).dType =
      if fs.typed (loc ++ [name]) = false then dtUnknown else node.dType := by
    simp [FileSystem.entryAt, FileSystem.dTypeAt, hproper.2, hnode]
  refine ⟨.errno eacces ("failed to stat: " ++ name), ?_⟩
  rw [DirEntry.isDir, DirEntry.testMode, DirEntry.statMode, DirEntry.isSymlink]
  cases htyped : fs.typed (loc ++ [name])
  · rw [htyped, if_pos rfl] at htype
    simp [htype, hdenied, except_bind_error]
  · have hlink : node.isLink = true := by simpa [htyped] using hplain
    rw [htyped, if_neg (by simp)] at htype
    simp [htype, hdenied, dType_ne_dtUnknown, dType_eq_dtLnk, hlink, except_bind_ok,
      except_bind_error]

/-- The type test of an entry tells whether it is a directory, or raises. -/
theorem isDir_entryAt (hfound : fs.lookup cwd true q = .found loc)
    (hdir : fs.node loc = some (.dir order access)) (hproper : FileSystem.Proper name)
    (hnode : fs.node (loc ++ [name]) = some node)
    (hlink : access.searchable = true → ∀ target, node = .link target →
      ∃ mode, fs.stat cwd true (q.slash name) = .ok mode ∧ Node.fileType mode ≠ sIfdir) :
    (fs.entryAt cwd q loc name).isDir q = .ok node.isDir ∨
      access.searchable = false ∧ ∃ e, (fs.entryAt cwd q loc name).isDir q = .error e := by
  cases hsearch : access.searchable with
  | true =>
    exact Or.inl (isDir_entryAt_of_searchable hfound hdir hproper hsearch hnode (hlink hsearch))
  | false =>
    by_cases hplain : fs.typed (loc ++ [name]) = true ∧ node.isLink = false
    · exact Or.inl (isDir_entryAt_of_typed hproper hnode hplain.1 hplain.2)
    · exact Or.inr ⟨rfl, isDir_entryAt_eq_error hfound hdir hproper hsearch hnode hplain⟩

theorem isDir_entryAt_of_dangling (hfound : fs.lookup cwd true q = .found loc)
    (hdir : fs.node loc = some (.dir order access)) (hproper : FileSystem.Proper name)
    (hsearch : access.searchable = true) {target : PosixPath}
    (hnode : fs.node (loc ++ [name]) = some (.link target)) {errno : Errno}
    (hstat : fs.stat cwd true (q.slash name) = .error errno) :
    ∃ e, (fs.entryAt cwd q loc name).isDir q = .error e := by
  have hneed : (fs.entryAt cwd q loc name).dType = dtUnknown ∨
      (true = true ∧ (fs.entryAt cwd q loc name).dType = dtLnk) := by
    simp only [FileSystem.entryAt, FileSystem.dTypeAt, if_neg hproper.2, hnode, Option.elim]
    cases htyped : fs.typed (loc ++ [name]) <;> simp [dtLnk, Node.dType]
  have hmode : (fs.entryAt cwd q loc name).statMode q true =
      (fs.entryAt cwd q loc name).fetchStat true := by
    rw [DirEntry.statMode, if_neg (by simp), isSymlink_entryAt hfound hdir hproper hsearch hnode]
    rfl
  have hstated : (fs.entryAt cwd q loc name).stat = ⟨errno, 0⟩ := by
    rw [FileSystem.entryAt, hstat, FileSystem.statOf]
  rw [DirEntry.isDir, DirEntry.testMode, if_pos hneed, hmode, DirEntry.fetchStat, if_pos rfl,
    hstated]
  by_cases hzero : errno = 0
  · -- no error, and no mode either
    simp only [hzero, ne_eq, not_true, if_false, except_bind_ok]
    exact ⟨_, if_pos rfl⟩
  · simp only [ne_eq, hzero, not_false_iff, if_true]
    exact ⟨_, rfl⟩

/-- The type of an entry that is no link to a directory can be found out: `readdir`
reports it and it is no link, or the directory can be searched and, if the entry is a
link, `stat` finds what it leads to. -/
def TypeFound (fs : FileSystem) (cwd : Loc) (q : PosixPath) (loc : Loc) (access : Access)
    (name : Name) (node : Node) : Prop :=
  fs.typed (loc ++ [name]) = true ∧ node.isLink = false ∨
    access.searchable = true ∧ ∀ target, node = .link target →
      ∃ mode, fs.stat cwd true (q.slash name) = .ok mode

theorem isDir_entryAt_of_typeFound (hfound : fs.lookup cwd true q = .found loc)
    (hdir : fs.node loc = some (.dir order access)) (hproper : FileSystem.Proper name)
    (hnode : fs.node (loc ++ [name]) = some node)
    (hlink : ∀ target mode, node = .link target → fs.stat cwd true (q.slash name) = .ok mode →
      Node.fileType mode ≠ sIfdir) (htype : TypeFound fs cwd q loc access name node) :
    (fs.entryAt cwd q loc name).isDir q = .ok node.isDir := by
  rcases htype with ⟨htyped, hplain⟩ | ⟨hsearch, hstat⟩
  · exact isDir_entryAt_of_typed hproper hnode htyped hplain
  · apply isDir_entryAt_of_searchable hfound hdir hproper hsearch hnode
    intro target htarget
    obtain ⟨mode, hmode⟩ := hstat target htarget
    exact ⟨mode, hmode, hlink target mode htarget hmode⟩

theorem isDir_entryAt_of_not_typeFound (hfound : fs.lookup cwd true q = .found loc)
    (hdir : fs.node loc = some (.dir order access)) (hproper : FileSystem.Proper name)
    (hnode : fs.node (loc ++ [name]) = some node)
    (hnot : ¬ TypeFound fs cwd q loc access name node) :
    ∃ e, (fs.entryAt cwd q loc name).isDir q = .error e := by
  rw [TypeFound, not_or] at hnot
  cases hsearch : access.searchable with
  | false => exact isDir_entryAt_eq_error hfound hdir hproper hsearch hnode hnot.1
  | true =>
    obtain ⟨target, rfl, hfails⟩ : ∃ target, node = .link target ∧
        ∀ mode, fs.stat cwd true (q.slash name) ≠ .ok mode := by
      simpa [hsearch] using hnot.2
    cases hstat : fs.stat cwd true (q.slash name) with
    | ok mode => exact absurd hstat (hfails mode)
    | error errno => exact isDir_entryAt_of_dangling hfound hdir hproper hsearch hnode hstat

/-- Whether a name of a directory names a directory. -/
def isDirAt (fs : FileSystem) (loc : Loc) (name : Name) : Bool :=
  (fs.node (loc ++ [name])).any Node.isDir

theorem namesWith_map_entryAt {test : DirEntry → Bool} {names : List Name} {keep : Name → Bool}
    (htest : ∀ name, test (fs.entryAt cwd q loc name) = keep name) :
    namesWith test (names.map (fs.entryAt cwd q loc)) = names.filter keep := by
  induction names with
  | nil => rfl
  | cons name names ih =>
    rw [List.map_cons, namesWith_cons, ih, htest, List.filter_cons]
    rfl

end Tests

end RpcProject.Files
