/-
# The stat cache of the shell's listings

The stub for `ls` remembers every directory that it has listed, together with what
`stat` and `lstat` said about the entries. It answers a later `stat` from these:
going through the directories in the order in which they were listed first, it takes
the first entry that has the last part of the path as its name, in a directory that
is the start of the path.

So the answer is that of the path itself where the entry and the path lead to the
same file. It fails to be where no directory has such an entry and the path leads to
a link, since `lstat` is called then whatever the flag says.
-/

import RpcProject.Files.EntryTests
import RpcProject.Files.PurePath

namespace RpcProject.Files

open Foundations Server

/-! ## Path objects -/

namespace PosixPath

/-- The slashes at the start of a path object: none, one or exactly two. -/
def root (p : PosixPath) : Bool × Bool := (p.absolute, p.absolute && doubleRoot p.parts)

/-- `path.relative_to(other)` does not raise. -/
def IsRelativeTo (p other : PosixPath) : Prop := p.root = other.root ∧ other.named <+: p.named

instance (p other : PosixPath) : Decidable (p.IsRelativeTo other) :=
  inferInstanceAs (Decidable (_ ∧ _))

/-- `path.parts[-1]`, where a path has parts. -/
def lastPart (p : PosixPath) : Option Name :=
  match p.named.getLast? with
  | some last => some last
  | none =>
      if p.absolute = true then some (if doubleRoot p.parts = true then "//" else "/") else none

end PosixPath

/-! ## Status -/

/-- What `stat` says about a file. It is the same file where the inode is the same. -/
structure Status where
  stIno : Loc
  stMode : ℕ
  deriving DecidableEq, Repr

namespace FileSystem

/-- `stat` and `lstat`, with the node they are about. -/
def status (fs : FileSystem) (cwd : Loc) (follow : Bool) (p : PosixPath) : Except Errno Status :=
  match fs.lookup cwd follow p with
  | .found loc =>
      match fs.node loc with
      | some node => .ok ⟨loc, node.mode⟩
      | none => .error enoent
  | .absent _ _ => .error enoent
  | .failed errno => .error errno

end FileSystem

/-- An entry of a listing, with all that its two calls have left. -/
structure StatEntry where
  entry : DirEntry
  lstat : Except Errno Status
  stat : Except Errno Status

namespace StatEntry

/-- `_fetch_stat` -/
def fetchStat (e : StatEntry) (followSymlinks : Bool) : Except Fault Status :=
  match if followSymlinks then e.stat else e.lstat with
  | .ok status => .ok status
  | .error errno => .error (.errno errno ("failed to stat: " ++ e.entry.dName))

/-- `DirEntry.stat` -/
def statOf (e : StatEntry) (dir : PosixPath) (followSymlinks : Bool) : Except Fault Status :=
  if followSymlinks = false then e.fetchStat false
  else do
    if ← e.entry.isSymlink dir then e.fetchStat true else e.fetchStat false

end StatEntry

/-- An entry of the directory at a path, with the status of its file. -/
def FileSystem.withStatus (fs : FileSystem) (cwd : Loc) (dir : PosixPath) (entry : DirEntry) :
    StatEntry :=
  ⟨entry, fs.status cwd false (dir.slash entry.dName), fs.status cwd true (dir.slash entry.dName)⟩

/-! ## The stub -/

/-- What the stub raises: an exception of the client, or one for a tuple index. -/
inductive StubFault
  | fault (fault : Fault)
  | indexError
  deriving DecidableEq, Repr

/-- The directories that were listed, in the order of the dictionary. -/
abbrev PathsEntries := List (PosixPath × List StatEntry)

namespace PathsEntries

/-- A dictionary keeps the place of a key that it has. -/
def setItem (key : PosixPath) (entries : List StatEntry) : PathsEntries → PathsEntries
  | [] => [(key, entries)]
  | (key', entries') :: rest =>
      if key' = key then (key, entries) :: rest else (key', entries') :: setItem key entries rest

/-- The names of the cached entries. -/
def names (cache : PathsEntries) : List (PosixPath × List Name) :=
  cache.map fun item => (item.1, item.2.map fun e => e.entry.dName)

end PathsEntries

section Stub

variable (fs : FileSystem) (platform : Platform) (cwd : Loc)

/-- `RpcLsStub.listdir` -/
def lsListdir (path : PosixPath) (cache : PathsEntries) :
    Except Fault (List Name) × PathsEntries :=
  match fs.scandir platform cwd path with
  | .ok entries =>
      (.ok (entries.map DirEntry.dName), cache.setItem path (entries.map (fs.withStatus cwd path)))
  | .error e => (.error e, cache)

/-- The cache after a sequence of listings, from a new stub on. -/
def lsListdirs (paths : List PosixPath) : PathsEntries :=
  paths.foldl (fun cache path => (lsListdir fs platform cwd path cache).2) []

/-- `Fs.stat` and `Fs.lstat` on a path object. -/
def statPath (followSymlinks : Bool) (path : PosixPath) : Except StubFault Status :=
  match fs.status cwd followSymlinks path.normalise with
  | .ok status => .ok status
  | .error errno =>
      .error (.fault (.errno errno ("failed to stat(): " ++ path.normalise.text)))

/-- The first entry that has the last part of a path as its name. -/
def findEntry (path : PosixPath) : List StatEntry → Except StubFault (Option StatEntry)
  | [] => .ok none
  | e :: entries =>
      match path.lastPart with
      | none => .error .indexError
      | some last => if e.entry.dName = last then .ok (some e) else findEntry path entries

/-- `RpcLsStub.stat` -/
def lsStat (path : PosixPath) (followSymlinks : Bool) : PathsEntries → Except StubFault Status
  | [] => statPath fs cwd false path
  | (parent, entries) :: rest =>
      if path.IsRelativeTo parent then
        -- search for a cached entry
        match findEntry path entries with
        | .error e => .error e
        | .ok (some e) => (e.statOf parent followSymlinks).mapError .fault
        | .ok none => lsStat path followSymlinks rest
      -- if not relative then use stat()
      else if followSymlinks = true then statPath fs cwd true path
      else statPath fs cwd false path

end Stub

/-! ## Agreement with a direct call -/

/-- A call of the stub ends like a direct one: with the same status, or with the
exception for the same error number. -/
def Agrees : Except StubFault Status → Except Errno Status → Prop
  | .ok status, .ok status' => status = status'
  | .error (.fault (.errno errno _)), .error errno' => errno = errno'
  | _, _ => False

/-- Which of its ways the stub takes to an answer. -/
inductive Answer
  | direct
  | cached (dir : PosixPath) (name : Name)
  | exhausted
  | noPart
  deriving DecidableEq, Repr

/-- The way to the answer for a path. It depends only on the names that were listed. -/
def answer (path : PosixPath) : List (PosixPath × List Name) → Answer
  | [] => .exhausted
  | (dir, names) :: rest =>
      if path.IsRelativeTo dir then
        if names = [] then answer path rest
        else
          match path.lastPart with
          | none => .noPart
          | some last => if last ∈ names then .cached dir last else answer path rest
      else .direct

section Agreement

variable {fs : FileSystem} {platform : Platform} {cwd loc : Loc} {path dir : PosixPath}
  {follow : Bool} {name : Name} {order : List Name} {access : Access} {e : StatEntry}
  {cache : PathsEntries}

/-- The path leads to a symbolic link. -/
def LeadsToLink (fs : FileSystem) (cwd : Loc) (path : PosixPath) : Prop :=
  ∃ loc target, fs.lookup cwd false path = .found loc ∧ fs.node loc = some (.link target)

/-- The way to the answer ends at the file of the path. -/
def Right (fs : FileSystem) (cwd : Loc) (path : PosixPath) (follow : Bool) : Answer → Prop
  -- the path object leads where the text does that it was made from
  | .direct => fs.status cwd follow path.normalise = fs.status cwd follow path
  -- the entry is the file of the path
  | .cached dir name => fs.status cwd follow (dir.slash name) = fs.status cwd follow path
  -- there is no link to follow
  | .exhausted => fs.status cwd follow path.normalise = fs.status cwd follow path ∧
      (follow = true → ¬ LeadsToLink fs cwd path.normalise)
  | .noPart => False

/-- What agrees with one answer agrees with another just if the answers are the same. -/
theorem agrees_iff_eq {result : Except StubFault Status} {direct direct' : Except Errno Status}
    (hagrees : Agrees result direct) : Agrees result direct' ↔ direct = direct' := by
  match result, direct with
  | .ok status, .ok status' =>
    obtain rfl : status = status' := hagrees
    cases direct' <;> simp [Agrees]
  | .error (.fault (.errno errno message)), .error errno' =>
    obtain rfl : errno = errno' := hagrees
    cases direct' <;> simp [Agrees]

/-! ## Status and links -/

theorem stat_eq_map_status (fs : FileSystem) (cwd : Loc) (follow : Bool) (path : PosixPath) :
    fs.stat cwd follow path = (fs.status cwd follow path).map Status.stMode := by
  rw [FileSystem.stat, FileSystem.nodeAt, FileSystem.status]
  cases hlookup : fs.lookup cwd follow path with
  | found loc => cases hnode : fs.node loc <;> simp [hnode, Except.map]
  | absent parent name => rfl
  | failed errno => rfl

theorem status_error_ne_zero {errno : Errno} (hstatus : fs.status cwd follow path = .error errno) :
    errno ≠ 0 := by
  rw [FileSystem.status] at hstatus
  cases hlookup : fs.lookup cwd follow path with
  | found loc =>
    rw [hlookup] at hstatus
    cases hnode : fs.node loc with
    | none =>
      simp only [hnode] at hstatus
      cases hstatus
      decide
    | some node =>
      simp only [hnode] at hstatus
      cases hstatus
  | absent parent name =>
    rw [hlookup] at hstatus
    cases hstatus
    decide
  | failed errno' =>
    rw [hlookup] at hstatus
    cases hstatus
    exact FileSystem.lookup_failed_ne_zero hlookup

theorem mode_ne_zero_of_status {status : Status}
    (hstatus : fs.status cwd follow path = .ok status) :
    status.stMode ≠ 0 := by
  have hstat : fs.stat cwd follow path = .ok status.stMode := by
    rw [stat_eq_map_status, hstatus]
    rfl
  obtain ⟨loc, node, -, -, hmode⟩ := stat_eq_ok_iff.mp hstat
  rw [hmode]
  exact node.mode_ne_zero

/-- Where there is no link at the end, it does not matter whether links are followed. -/
theorem status_follow_of_not_link (hlink : ¬ LeadsToLink fs cwd path) :
    fs.status cwd true path = fs.status cwd false path := by
  rcases FileSystem.lookup_follow_or_link fs cwd path with hsame | hfound
  · rw [FileSystem.status, FileSystem.status, hsame]
  · exact absurd hfound hlink

/-- The status of a link is not that of what it leads to. -/
theorem status_ne_of_link (hfs : fs.WellFormed) (hlink : LeadsToLink fs cwd path) (q : PosixPath) :
    fs.status cwd false path ≠ fs.status cwd true q := by
  obtain ⟨loc, target, hfound, hnode⟩ := hlink
  intro hsame
  have hstatus : fs.status cwd false path = .ok ⟨loc, (Node.link target).mode⟩ := by
    simp only [FileSystem.status, hfound, hnode]
  rw [hstatus, FileSystem.status] at hsame
  cases hlookup : fs.lookup cwd true q with
  | found loc' =>
    have hnot := hfs.notLink_of_lookup hlookup target
    cases hnode' : fs.node loc' with
    | none => simp [hlookup, hnode'] at hsame
    | some node =>
      simp only [hlookup, hnode', Except.ok.injEq, Status.mk.injEq] at hsame
      rw [← hsame.1] at hnot
      exact hnot hnode
  | absent parent name => simp [hlookup] at hsame
  | failed errno => simp [hlookup] at hsame

/-! ## Cached entries -/

/-- A listed entry tells what `stat` does. -/
theorem fetchStat_agrees (fs : FileSystem) (cwd : Loc) (dir : PosixPath) (entry : DirEntry)
    (follow : Bool) : Agrees (((fs.withStatus cwd dir entry).fetchStat follow).mapError .fault)
      (fs.status cwd follow (dir.slash entry.dName)) := by
  have hstored : (if follow = true then (fs.withStatus cwd dir entry).stat
      else (fs.withStatus cwd dir entry).lstat) = fs.status cwd follow (dir.slash entry.dName) := by
    cases follow <;> rfl
  rw [StatEntry.fetchStat, hstored]
  cases fs.status cwd follow (dir.slash entry.dName) with
  | ok status => exact rfl
  | error errno => exact rfl

/-- Asking whether an entry is a link fails only as `lstat` has failed on it. -/
theorem isSymlink_entryAt_cases (fs : FileSystem) (cwd : Loc) (dir : PosixPath) (loc : Loc)
    (name : Name) : (∃ b, (fs.entryAt cwd dir loc name).isSymlink dir = .ok b) ∨
      ∃ errno, fs.status cwd false (dir.slash name) = .error errno ∧
        (fs.entryAt cwd dir loc name).isSymlink dir =
          .error (.errno errno ("failed to stat: " ++ name)) := by
  rw [DirEntry.isSymlink]
  by_cases htype : (fs.entryAt cwd dir loc name).dType ≠ dtUnknown
  · exact Or.inl ⟨_, if_pos htype⟩
  · rw [if_neg htype]
    have hstat := stat_eq_map_status fs cwd false (dir.slash name)
    cases hstatus : fs.status cwd false (dir.slash name) with
    | ok status =>
      rw [hstatus] at hstat
      have hne := mode_ne_zero_of_status hstatus
      rw [fetchStat_of_ok hstat, except_bind_ok, compareMode_of_ne _ _ _ hne]
      exact Or.inl ⟨_, rfl⟩
    | error errno =>
      have hfetch : (fs.entryAt cwd dir loc name).fetchStat false =
          .error (.errno errno ("failed to stat: " ++ name)) := by
        rw [hstatus] at hstat
        have hne := status_error_ne_zero hstatus
        simp [DirEntry.fetchStat, FileSystem.entryAt, FileSystem.statOf, hstat, Except.map, hne]
      rw [hfetch]
      exact Or.inr ⟨errno, rfl, rfl⟩

/-- Where an entry is no link, the answer does not depend on what `is_symlink` says. -/
theorem statOf_agrees_of_same (loc : Loc) (name : Name)
    (hstatus : fs.status cwd true (dir.slash name) = fs.status cwd false (dir.slash name)) :
    Agrees
      (((fs.withStatus cwd dir (fs.entryAt cwd dir loc name)).statOf dir follow).mapError .fault)
      (fs.status cwd follow (dir.slash name)) := by
  have hfetch := fetchStat_agrees fs cwd dir (fs.entryAt cwd dir loc name)
  rw [StatEntry.statOf]
  cases follow with
  | false => exact hfetch false
  | true =>
    rw [if_neg (by simp)]
    have hentry : (fs.withStatus cwd dir (fs.entryAt cwd dir loc name)).entry =
        fs.entryAt cwd dir loc name := rfl
    rw [hentry]
    rcases isSymlink_entryAt_cases fs cwd dir loc name with
      ⟨b, hlink⟩ | ⟨errno, hlstat, hlink⟩
    · rw [hlink, except_bind_ok]
      cases b with
      | false =>
        rw [hstatus]
        exact hfetch false
      | true => exact hfetch true
    · rw [hlink, hstatus, hlstat]
      exact rfl

/-- The entries "." and ".." of a directory lead to directories. -/
theorem not_leadsToLink_of_isDot (hfs : fs.WellFormed)
    (hfound : fs.lookup cwd true dir = .found loc)
    (hdir : fs.node loc = some (.dir order access)) (hdot : IsDot name) :
    ¬ LeadsToLink fs cwd (dir.slash name) := by
  rintro ⟨dest, target, hdest, hnode⟩
  have hempty : name ≠ "" := by rcases hdot with rfl | rfl <;> decide
  obtain ⟨left, hlookup⟩ := FileSystem.lookup_slash hfound hempty
  rw [hlookup, FileSystem.resolve, FileSystem.descend, FileSystem.hop_dir hdir] at hdest
  rcases hdot with rfl | rfl
  · cases hdest
    cases hdir.symm.trans hnode
  · cases hsearch : access.searchable with
    | false => simp [hsearch] at hdest
    | true =>
      simp only [hsearch, Bool.true_eq_false, if_false, if_true] at hdest
      cases hdest
      exact absurd hnode (hfs.notLink_dropLast hdir target)

/-- A link among the entries of a directory is known to be one. -/
theorem isSymlink_of_link (hfs : fs.WellFormed) (hfound : fs.lookup cwd true dir = .found loc)
    (hdir : fs.node loc = some (.dir order access)) (hname : name ∈ order)
    (hlink : LeadsToLink fs cwd (dir.slash name)) :
    (fs.entryAt cwd dir loc name).isSymlink dir = .ok true := by
  by_cases hdot : IsDot name
  · exact absurd hlink (not_leadsToLink_of_isDot hfs hfound hdir hdot)
  · obtain ⟨dest, target, hdest, hnode⟩ := hlink
    have hproper := hfs.proper_of_mem hdir hname hdot
    obtain ⟨node, hentry⟩ := Option.isSome_iff_exists.mp (hfs.isSome_of_mem hdir hname hdot)
    have hempty : name ≠ "" := fun h => hfs.named _ _ _ hdir (h ▸ hname)
    obtain ⟨left, hlookup⟩ := FileSystem.lookup_slash hfound hempty
    rw [hlookup, FileSystem.resolve_entry hproper hdir hentry (by simp)] at hdest
    split at hdest
    · cases hdest
    · next hsearch =>
      cases hdest
      cases hentry.symm.trans hnode
      exact isSymlink_entryAt hfound hdir hproper (by simpa using hsearch) hentry

/-- What a cached entry answers is what a call on its directory's path with a slash and
the name behind it answers. -/
theorem statOf_agrees (hfs : fs.WellFormed) (hfound : fs.lookup cwd true dir = .found loc)
    (hdir : fs.node loc = some (.dir order access)) (hname : name ∈ order) :
    Agrees
      (((fs.withStatus cwd dir (fs.entryAt cwd dir loc name)).statOf dir follow).mapError .fault)
      (fs.status cwd follow (dir.slash name)) := by
  by_cases hlink : LeadsToLink fs cwd (dir.slash name)
  · have hisLink := isSymlink_of_link hfs hfound hdir hname hlink
    have hfetch : (fs.withStatus cwd dir (fs.entryAt cwd dir loc name)).statOf dir follow =
        (fs.withStatus cwd dir (fs.entryAt cwd dir loc name)).fetchStat follow := by
      rw [StatEntry.statOf]
      cases follow with
      | false => rfl
      | true =>
        rw [if_neg (by simp)]
        exact congrArg (· >>= _) hisLink
    rw [hfetch]
    exact fetchStat_agrees fs cwd dir _ follow
  · exact statOf_agrees_of_same loc name (status_follow_of_not_link hlink)

/-! ## The cache -/

/-- What is cached for a directory is its listing. -/
def Listed (fs : FileSystem) (cwd : Loc) (dir : PosixPath) (entries : List StatEntry) : Prop :=
  ∃ loc order access, fs.lookup cwd true dir = .found loc ∧
    fs.node loc = some (.dir order access) ∧
    entries = (order.drop 2).map fun name => fs.withStatus cwd dir (fs.entryAt cwd dir loc name)

/-- The entries of a listing are as they were found. -/
theorem listed_of_scandir {entries : List DirEntry}
    (hscandir : fs.scandir platform cwd path = .ok entries) :
    Listed fs cwd path (entries.map (fs.withStatus cwd path)) := by
  cases hall : fs.entries cwd path with
  | error errno =>
    obtain ⟨e, herror⟩ := FileSystem.scandir_of_error platform hall
    cases herror.symm.trans hscandir
  | ok all =>
    rw [FileSystem.scandir_of_entries platform hall] at hscandir
    split at hscandir
    · cases hscandir
      obtain ⟨loc, order, access, hfound, hdir, -, rfl⟩ := FileSystem.entries_eq_ok_iff.mp hall
      exact ⟨loc, order, access, hfound, hdir, by rw [← List.map_drop, List.map_map]; rfl⟩
    · cases hscandir

/-- Every entry that is cached for a directory answers right for its own path. -/
theorem statOf_agrees_of_listed (hfs : fs.WellFormed) {entries : List StatEntry}
    (hlisted : Listed fs cwd dir entries) (hmem : e ∈ entries) :
    Agrees ((e.statOf dir follow).mapError .fault)
      (fs.status cwd follow (dir.slash e.entry.dName)) := by
  obtain ⟨loc, order, access, hfound, hdir, rfl⟩ := hlisted
  obtain ⟨name, hname, rfl⟩ := List.mem_map.mp hmem
  exact statOf_agrees hfs hfound hdir (List.mem_of_mem_drop hname)

/-- What is in the cache after an entry is stored. -/
theorem mem_setItem {key : PosixPath} {entries : List StatEntry}
    {item : PosixPath × List StatEntry} (hmem : item ∈ cache.setItem key entries) :
    item = (key, entries) ∨ item ∈ cache := by
  induction cache with
  | nil => exact Or.inl (List.mem_singleton.mp hmem)
  | cons first cache ih =>
    rw [PathsEntries.setItem] at hmem
    split at hmem
    · exact (List.mem_cons.mp hmem).imp id (List.mem_cons_of_mem _)
    · rcases List.mem_cons.mp hmem with rfl | hrest
      · exact Or.inr List.mem_cons_self
      · exact (ih hrest).imp id (List.mem_cons_of_mem _)

/-- One more listing leaves only listings in the cache. -/
theorem listed_lsListdir (hcache : ∀ item ∈ cache, Listed fs cwd item.1 item.2) :
    ∀ item ∈ (lsListdir fs platform cwd path cache).2, Listed fs cwd item.1 item.2 := by
  rw [lsListdir]
  cases hscandir : fs.scandir platform cwd path with
  | error e => exact hcache
  | ok entries =>
    intro item hmem
    rcases mem_setItem hmem with rfl | hmem
    · exact listed_of_scandir hscandir
    · exact hcache item hmem

/-- The cache of a call holds listings of the disk. -/
theorem listed_lsListdirs (fs : FileSystem) (platform : Platform) (cwd : Loc)
    (paths : List PosixPath) :
    ∀ item ∈ lsListdirs fs platform cwd paths, Listed fs cwd item.1 item.2 := by
  have hrun : ∀ cache : PathsEntries, (∀ item ∈ cache, Listed fs cwd item.1 item.2) →
      ∀ item ∈ paths.foldl (fun cache path => (lsListdir fs platform cwd path cache).2) cache,
        Listed fs cwd item.1 item.2 := by
    induction paths with
    | nil => exact fun cache hcache => hcache
    | cons path paths ih => exact fun cache hcache => ih _ (listed_lsListdir hcache)
  exact hrun [] (List.forall_mem_nil _)

/-! ## The search -/

/-- A path that is asked for itself is answered as `stat` does. -/
theorem statPath_agrees (fs : FileSystem) (cwd : Loc) (path : PosixPath) (follow : Bool) :
    Agrees (statPath fs cwd follow path) (fs.status cwd follow path.normalise) := by
  rw [statPath]
  cases fs.status cwd follow path.normalise with
  | ok status => exact rfl
  | error errno => exact rfl

theorem findEntry_eq {last : Name} (hlast : path.lastPart = some last) (entries : List StatEntry) :
    findEntry path entries = .ok (entries.find? fun e => e.entry.dName = last) := by
  induction entries with
  | nil => rfl
  | cons e entries ih =>
    rw [findEntry, hlast, ih, List.find?_cons]
    by_cases hname : e.entry.dName = last <;> simp [hname]

/-- When the answer for a path is right, if the search gets to it. -/
theorem lstat_agrees_iff (hfs : fs.WellFormed) :
    Agrees (statPath fs cwd false path) (fs.status cwd follow path) ↔
      Right fs cwd path follow .exhausted := by
  rw [agrees_iff_eq (statPath_agrees fs cwd path false), Right]
  cases follow with
  | false => simp
  | true =>
    by_cases hlink : LeadsToLink fs cwd path.normalise
    · constructor
      · exact fun hsame => absurd hsame (status_ne_of_link hfs hlink path)
      · exact fun hright => absurd hlink (hright.2 rfl)
    · rw [status_follow_of_not_link hlink]
      exact ⟨fun hsame => ⟨hsame, fun _ => hlink⟩, And.left⟩

/-- The first entry of a name is found where the names have it. -/
theorem find_entry_cases (last : Name) (entries : List StatEntry) :
    ((entries.find? fun e => e.entry.dName = last) = none ∧
        last ∉ entries.map fun e => e.entry.dName) ∨
      ∃ e ∈ entries, (entries.find? fun e => e.entry.dName = last) = some e ∧
        e.entry.dName = last ∧ last ∈ entries.map fun e => e.entry.dName := by
  cases hfind : entries.find? fun e => e.entry.dName = last with
  | none =>
    rw [List.find?_eq_none] at hfind
    left
    refine ⟨rfl, fun hmem => ?_⟩
    obtain ⟨e, he, hname⟩ := List.mem_map.mp hmem
    exact hfind e he (by simpa using hname)
  | some e =>
    have hmem := List.mem_of_find?_eq_some hfind
    have hname : e.entry.dName = last := by simpa using List.find?_some hfind
    right
    exact ⟨e, hmem, rfl, hname, hname ▸ List.mem_map_of_mem hmem⟩

/-- The search answers right exactly where the way that it takes ends at the file of
the path. -/
theorem lsStat_agrees_iff_of_listed (hfs : fs.WellFormed)
    (hcache : ∀ item ∈ cache, Listed fs cwd item.1 item.2) :
    Agrees (lsStat fs cwd path follow cache) (fs.status cwd follow path) ↔
      Right fs cwd path follow (answer path (PathsEntries.names cache)) := by
  induction cache with
  | nil => exact lstat_agrees_iff hfs
  | cons item cache ih =>
    obtain ⟨dir, entries⟩ := item
    obtain ⟨hitem, hrest⟩ := List.forall_mem_cons.mp hcache
    have hnames : PathsEntries.names ((dir, entries) :: cache) =
        (dir, entries.map fun e => e.entry.dName) :: PathsEntries.names cache := rfl
    rw [lsStat, hnames, answer]
    by_cases hrelative : path.IsRelativeTo dir
    · rw [if_pos hrelative, if_pos hrelative]
      cases entries with
      | nil => exact ih hrest
      | cons first entries =>
        rw [if_neg (by simp)]
        cases hlast : path.lastPart with
        | none =>
          simp only [findEntry, hlast]
          exact Iff.rfl
        | some last =>
          rw [findEntry_eq hlast]
          rcases find_entry_cases last (first :: entries) with
            ⟨hfind, hnot⟩ | ⟨e, he, hfind, rfl, hmem⟩
          · simp only [hfind, if_neg hnot]
            exact ih hrest
          · simp only [hfind, if_pos hmem]
            exact agrees_iff_eq (statOf_agrees_of_listed hfs hitem he)
    · rw [if_neg hrelative, if_neg hrelative]
      have hdirect := statPath_agrees fs cwd path follow
      cases follow with
      | false => exact agrees_iff_eq hdirect
      | true => exact agrees_iff_eq hdirect

end Agreement

/-- **The stat cache.** After any sequence of listings, the stub's `stat` of a path ends
like a direct `stat` or `lstat` of the path exactly when its way to the answer ends at
the file of the path: the listed entry is that file, or, where no entry is found, there
is no link that the call should follow. -/
theorem lsStat_agrees_iff (disk : Disk) (platform : Platform) (cwd : Loc) (paths : List PosixPath)
    (path : PosixPath) (follow : Bool) :
    Agrees (lsStat disk.toFileSystem cwd path follow
        (lsListdirs disk.toFileSystem platform cwd paths))
        (disk.status cwd follow path) ↔
      Right disk.toFileSystem cwd path follow
        (answer path (PathsEntries.names (lsListdirs disk.toFileSystem platform cwd paths))) :=
  lsStat_agrees_iff_of_listed disk.wellFormed
    (listed_lsListdirs disk.toFileSystem platform cwd paths)

/-- A disk with a file at two depths and a link to one of the two. -/
def nestedDisk : Disk := Disk.ofTable
  [([], .dir [".", "..", "d", "f", "l"] ⟨true, true, true⟩),
    (["d"], .dir [".", "..", "f"] ⟨true, true, true⟩), (["d", "f"], .file [1]), (["f"], .file []),
    (["l"], .link ⟨true, ["f"]⟩)]
  (fun _ => true) (by decide)

/-- Without a listing, the status of the link is taken for that of its target. With the
root listed, a file of the directory below it is taken for the one of the same name. -/
theorem not_agrees_nestedDisk :
    (lsStat nestedDisk.toFileSystem [] ⟨true, ["l"]⟩ true
        (lsListdirs nestedDisk.toFileSystem .darwin [] []) =
          .ok ⟨["l"], sIflnk + 0o777⟩ ∧
        nestedDisk.status [] true ⟨true, ["l"]⟩ = .ok ⟨["f"], sIfreg + 0o644⟩) ∧
      (lsStat nestedDisk.toFileSystem [] ⟨true, ["d", "f"]⟩ false
            (lsListdirs nestedDisk.toFileSystem .darwin [] [⟨true, [""]⟩]) =
          .ok ⟨["f"], sIfreg + 0o644⟩ ∧
        nestedDisk.status [] false ⟨true, ["d", "f"]⟩ = .ok ⟨["d", "f"], sIfreg + 0o644⟩) ∧
      ¬ ∀ (disk : Disk) (platform : Platform) (cwd : Loc) (paths : List PosixPath)
        (path : PosixPath) (follow : Bool),
        Agrees (lsStat disk.toFileSystem cwd path follow
          (lsListdirs disk.toFileSystem platform cwd paths)) (disk.status cwd follow path) := by
  have hlink : lsStat nestedDisk.toFileSystem [] ⟨true, ["l"]⟩ true
      (lsListdirs nestedDisk.toFileSystem .darwin [] []) = .ok ⟨["l"], sIflnk + 0o777⟩ := rfl
  have htarget : nestedDisk.status [] true ⟨true, ["l"]⟩ = .ok ⟨["f"], sIfreg + 0o644⟩ := rfl
  refine ⟨⟨hlink, htarget⟩, ⟨rfl, rfl⟩, fun hclaim => ?_⟩
  have hagrees := hclaim nestedDisk .darwin [] [] ⟨true, ["l"]⟩ true
  rw [hlink, htarget] at hagrees
  have hsame : (⟨["l"], sIflnk + 0o777⟩ : Status) = ⟨["f"], sIfreg + 0o644⟩ := hagrees
  exact absurd hsame (by decide)

end RpcProject.Files
