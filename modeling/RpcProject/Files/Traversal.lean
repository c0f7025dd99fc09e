/-
# Traversing a remote tree

`scandir` lists the directory at a path; each entry has the type that `readdir`
reports, if it does, and what `lstat` and `stat` said about it when the directory
was listed. `walk` sorts the entries into directories, links to directories
among them, and other files, and goes on with each directory. `find` names what
`walk` visits.

The traversal is a generator: what consumes it runs between its steps, and may
change the file system that the next step sees.
-/

import RpcProject.Files.Lookup
import RpcProject.Foundations.Effects

namespace RpcProject.Files

open Foundations Server

/-! ## Exceptions -/

/-- What the client raises. -/
inductive Fault
  /-- an exception for the error number of a call -/
  | errno (errno : Errno) (message : String)
  /-- an exception for the error number that a failed routine has left -/
  | routine (error : RoutineError) (message : String)
  | argument (message : String)
  | outOfFuel
  deriving DecidableEq, Repr

/-! ## Entries -/

def dtUnknown : ℕ := 0
def dtDir : ℕ := 4
def dtReg : ℕ := 8
def dtLnk : ℕ := 10

theorem dType_ne_dtUnknown (node : Node) : node.dType ≠ dtUnknown := by
  cases node with
  | special kind => cases kind <;> exact Nat.succ_ne_zero _
  | dir order access => exact Nat.succ_ne_zero _
  | file content => exact Nat.succ_ne_zero _
  | link target => exact Nat.succ_ne_zero _

theorem dType_eq_dtLnk (node : Node) : (node.dType = dtLnk) = (node.isLink = true) := by
  cases node with
  | special kind => cases kind <;> decide
  | dir order access => exact (by decide : (4 = dtLnk) = (false = true))
  | file content => exact (by decide : (8 = dtLnk) = (false = true))
  | link target => exact (by decide : (10 = dtLnk) = (true = true))

theorem dType_eq_dtDir (node : Node) : (node.dType = dtDir) = (node.isDir = true) := by
  cases node with
  | special kind => cases kind <;> decide
  | dir order access => exact (by decide : (4 = dtDir) = (true = true))
  | file content => exact (by decide : (8 = dtDir) = (false = true))
  | link target => exact (by decide : (10 = dtDir) = (false = true))

namespace DirEntry

/-- The type that `readdir` reports for what has the type bits of a mode. -/
def dTypeOf (mode : ℕ) : ℕ :=
  if mode = sIflnk then dtLnk else if mode = sIfdir then dtDir else dtReg

/-- `_fetch_stat` -/
def fetchStat (entry : DirEntry) (followSymlinks : Bool) : Except Fault ℕ :=
  let result := if followSymlinks then entry.stat else entry.lstat
  if result.errno1 ≠ 0 then
    .error (.errno result.errno1 ("failed to stat: " ++ entry.dName))
  else .ok result.stMode

/-- The end of `_test_mode`: compare the type bits. -/
def compareMode (entry : DirEntry) (dir : PosixPath) (stMode mode : ℕ) : Except Fault Bool :=
  if stMode = 0 then .error (.errno 0 ("failed to stat(): " ++ (dir.join entry.dName).text))
  else .ok (Node.fileType stMode = mode)

/-- `is_symlink` -/
def isSymlink (entry : DirEntry) (dir : PosixPath) : Except Fault Bool :=
  if entry.dType ≠ dtUnknown then .ok (entry.dType = dtLnk)
  else do
    let stMode ← entry.fetchStat false
    entry.compareMode dir stMode sIflnk

/-- The mode that `DirEntry.stat` returns. -/
def statMode (entry : DirEntry) (dir : PosixPath) (followSymlinks : Bool) : Except Fault ℕ :=
  if followSymlinks = false then entry.fetchStat false
  else do
    if ← entry.isSymlink dir then entry.fetchStat true else entry.fetchStat false

/-- `_test_mode` -/
def testMode (entry : DirEntry) (dir : PosixPath) (followSymlinks : Bool) (mode : ℕ) :
    Except Fault Bool :=
  if entry.dType = dtUnknown ∨ (followSymlinks = true ∧ entry.dType = dtLnk) then do
    let stMode ← entry.statMode dir followSymlinks
    entry.compareMode dir stMode mode
  else .ok (entry.dType = dTypeOf mode)

/-- `is_dir` of the entry of a directory. -/
def isDir (entry : DirEntry) (dir : PosixPath) : Except Fault Bool :=
  entry.testMode dir true sIfdir

end DirEntry

/-! ## Listing -/

namespace FileSystem

/-- What the reply holds of a status. -/
def statOf : Except Errno ℕ → DirEntryStat
  | .ok stMode => ⟨0, stMode⟩
  | .error errno => ⟨errno, 0⟩

/-- The type that `readdir` reports for a name of a directory. -/
def dTypeAt (fs : FileSystem) (loc : Loc) (name : Name) : ℕ :=
  if fs.typed (loc ++ [name]) = false then dtUnknown
  else if IsDot name then dtDir
  else (fs.node (loc ++ [name])).elim dtUnknown Node.dType

/-- What the server says about a name of the directory at a path. -/
def entryAt (fs : FileSystem) (cwd : Loc) (path : PosixPath) (loc : Loc) (name : Name) :
    DirEntry :=
  ⟨name, fs.dTypeAt loc name, statOf (fs.stat cwd false (path.slash name)),
    statOf (fs.stat cwd true (path.slash name))⟩

/-- The entries of the directory at a path, if it opens. -/
def entries (fs : FileSystem) (cwd : Loc) (path : PosixPath) : Except Errno (List DirEntry) :=
  match fs.readdir cwd path with
  | .ok (loc, order) => .ok (order.map (fs.entryAt cwd path loc))
  | .error errno => .error errno

/-- `Fs.scandir` -/
def scandir (fs : FileSystem) (platform : Platform) (cwd : Loc) (path : PosixPath) :
    Except Fault (List DirEntry) :=
  let pass := (fs.entries cwd path).toOption
  match routineListdir platform path.text pass pass with
  | .ok entries => .ok (Files.scandir entries)
  | .error error => .error (.routine error ("failed to listdir: " ++ path.text))

variable {fs : FileSystem} {cwd loc : Loc} {path : PosixPath}
  {entries : List DirEntry} {order : List Name}

@[simp] theorem entryAt_dName (fs : FileSystem) (cwd : Loc) (path : PosixPath) (loc : Loc)
    (name : Name) : (fs.entryAt cwd path loc name).dName = name := rfl

/-- When a directory can be listed, and what is listed. -/
theorem entries_eq_ok_iff : fs.entries cwd path = .ok entries ↔
    ∃ loc order access, fs.lookup cwd true path = .found loc ∧
      fs.node loc = some (.dir order access) ∧ access.readable = true ∧
      entries = order.map (fs.entryAt cwd path loc) := by
  rw [FileSystem.entries, readdir]
  cases hlookup : fs.lookup cwd true path with
  | found loc =>
    cases hnode : fs.node loc with
    | none => simp [hnode]
    | some node =>
      cases node with
      | dir order access =>
        by_cases hread : access.readable = true
        · simp only [hnode, hread, if_true, Except.ok.injEq]
          constructor
          · rintro rfl
            exact ⟨loc, order, access, rfl, hnode, hread, rfl⟩
          · rintro ⟨loc', order', access', ⟨⟩, hnode', -, rfl⟩
            cases hnode.symm.trans hnode'
            rfl
        · simp only [hnode, if_neg hread]
          constructor
          · intro h
            cases h
          · rintro ⟨loc', order', access', ⟨⟩, hnode', hread', -⟩
            cases hnode.symm.trans hnode'
            exact absurd hread' hread
      | file content => simp [hnode]
      | link target => simp [hnode]
      | special kind => simp [hnode]
  | absent parent name => simp
  | failed errno => simp

/-- The listing of a directory that opens: all its entries but the first two,
unless a path is too long. -/
theorem scandir_of_entries (platform : Platform) (hentries : fs.entries cwd path = .ok entries) :
    fs.scandir platform cwd path =
      if ∀ entry ∈ entries, PathFits platform path.text entry.dName then .ok (entries.drop 2)
      else .error (.routine .serverError ("failed to listdir: " ++ path.text)) := by
  obtain ⟨loc, order, access, hlookup, -⟩ := entries_eq_ok_iff.mp hentries
  have htext : path.text ≠ "" := by
    intro hempty
    rw [lookup, if_pos ((path.text_eq_empty_iff).mp hempty)] at hlookup
    cases hlookup
  rw [scandir, hentries]
  simp only [Except.toOption, routineListdir, if_neg htext, List.take_length,
    mapM_forwardEntry]
  by_cases hempty : entries.length = 0
  · rw [List.length_eq_zero_iff] at hempty
    subst hempty
    simp [Files.scandir]
  · rw [if_neg hempty]
    by_cases hfits : ∀ entry ∈ entries, PathFits platform path.text entry.dName
    · simp only [if_pos hfits]
      rfl
    · simp only [if_neg hfits]

/-- A directory that cannot be listed raises. -/
theorem scandir_of_error (platform : Platform) {errno : Errno}
    (herror : fs.entries cwd path = .error errno) :
    ∃ e, fs.scandir platform cwd path = .error e := by
  rw [scandir, herror]
  by_cases htext : path.text = ""
  · exact ⟨_, by simp only [routineListdir, if_pos htext]; rfl⟩
  · exact ⟨_, by simp only [routineListdir, if_neg htext]; rfl⟩

/-- A directory that is listed right is listed with all its entries. -/
theorem scandir_children (platform : Platform) {access : Access}
    (hfound : fs.lookup cwd true path = .found loc) (hdir : fs.node loc = some (.dir order access))
    (hread : access.readable = true) (hfirst : DotsFirst order)
    (hfits : ∀ name ∈ order, PathFits platform path.text name) :
    fs.scandir platform cwd path = .ok ((children order).map (fs.entryAt cwd path loc)) := by
  have hentries : fs.entries cwd path = .ok (order.map (fs.entryAt cwd path loc)) :=
    entries_eq_ok_iff.mpr ⟨loc, order, access, hfound, hdir, hread, rfl⟩
  have hfits' : ∀ entry ∈ order.map (fs.entryAt cwd path loc),
      PathFits platform path.text entry.dName := List.forall_mem_map.mpr hfits
  have hdrop : order.drop 2 = children order :=
    drop_eq_filter_of_dotsFirst id (by rw [List.map_id]; exact hfirst)
  rw [scandir_of_entries platform hentries, if_pos hfits', ← List.map_drop, hdrop]

end FileSystem

/-! ## Traversals -/

/-- What `walk` yields for a directory. -/
structure Visit where
  top : PosixPath
  dirs : List Name
  files : List Name
  deriving DecidableEq, Repr

/-- The names of a list of entries that pass a test. -/
def namesWith (test : DirEntry → Bool) (entries : List DirEntry) : List Name :=
  (entries.filter test).map DirEntry.dName

section Walk

variable {σ : Type} (view : σ → FileSystem) (platform : Platform) (cwd : Loc) (topdown : Bool)
  (onerror : Option (Fault → Effect σ Fault Unit)) (emit : Visit → Effect σ Fault Unit)

/-- The loop of `walk` over the entries, with the names sorted so far. It returns
the exception that ends it, if one does. -/
def classify (top : PosixPath) (dirs files : List Name) :
    List DirEntry → Effect σ Fault (List Name × List Name × Option Fault)
  | [] => pure (dirs, files, none)
  | entry :: rest =>
      match entry.isDir top with
      | .ok true => classify top (dirs ++ [entry.dName]) files rest
      | .ok false => classify top dirs (files ++ [entry.dName]) rest
      | .error e =>
          match onerror with
          | none => pure (dirs, files, some e)
          | some callback => do
              match ← Effect.attempt (callback e) with
              | .ok () => classify top dirs files rest
              | .error e' => pure (dirs, files, some e')

/-- What the outer `try` of `walk` covers: the listing and the loop. -/
def sortEntries (top : PosixPath) :
    Except Fault (List DirEntry) → Effect σ Fault (List Name × List Name × Option Fault)
  | .ok entries => classify onerror top [] [] entries
  | .error e => pure ([], [], some e)

/-- The handler of the outer `try`. -/
def settle : List Name × List Name × Option Fault → Effect σ Fault (List Name × List Name)
  | (dirs, files, none) => pure (dirs, files)
  | (dirs, files, some e) =>
      match onerror with
      | none => Effect.raise e
      | some callback => do
          callback e
          pure (dirs, files)

/-- List a directory and sort its entries. -/
def survey (top : PosixPath) : Effect σ Fault (List Name × List Name) := do
  let listing ← Effect.ask fun s => .ok ((view s).scandir platform cwd top)
  let sorted ← sortEntries onerror top listing
  settle onerror sorted

/-- Yield before or after what lies below. -/
def yieldAround (yield below : Effect σ Fault Unit) : Effect σ Fault Unit := do
  if topdown then yield else pure ()
  below
  if topdown then pure () else yield

/-- `Fs.walk`, with what runs when it yields. -/
def walk : ℕ → PosixPath → Effect σ Fault Unit
  | 0, _ => Effect.raise .outOfFuel
  | fuel + 1, top => do
      let (dirs, files) ← survey view platform cwd onerror top
      yieldAround topdown (emit ⟨top, dirs, files⟩)
        (Effect.forEach (fun name => walk fuel (top.join name)) dirs)

/-- `Fs.find` yields the path itself only if it is accessible. -/
def yieldTop (emit : PosixPath → Effect σ Fault Unit) (top : PosixPath) : Effect σ Fault Unit := do
  let accessible ← Effect.ask fun s => .ok ((view s).accessible cwd top)
  if accessible then emit top
  else Effect.raise (.errno enoent ("cannot access: " ++ top.text))

/-- What `Fs.find` yields for what `walk` yields. -/
def yieldNames (emit : PosixPath → Effect σ Fault Unit) (visit : Visit) : Effect σ Fault Unit := do
  Effect.forEach (fun name => emit (visit.top.join name)) visit.files
  Effect.forEach (fun name => emit (visit.top.join name)) visit.dirs

/-- `Fs.find`, with what runs when it yields. -/
def find (emit : PosixPath → Effect σ Fault Unit) (fuel : ℕ) (top : PosixPath) :
    Effect σ Fault Unit :=
  yieldAround topdown (yieldTop view cwd emit top)
    (walk view platform cwd topdown none (yieldNames emit) fuel top)

end Walk

/-! ## Sorting entries whose tests succeed -/

section Sorting

variable {σ : Type} {handler : Option (Fault → Effect σ Fault Unit)} {top : PosixPath}
  {dirs files : List Name} {entries : List DirEntry} {test : DirEntry → Bool}

theorem namesWith_cons (test : DirEntry → Bool) (entry : DirEntry) (entries : List DirEntry) :
    namesWith test (entry :: entries) =
      if test entry = true then entry.dName :: namesWith test entries
      else namesWith test entries := by
  rw [namesWith, List.filter_cons]
  split <;> rfl

theorem mem_namesWith {name : Name} : name ∈ namesWith test entries ↔
    ∃ entry ∈ entries, test entry = true ∧ entry.dName = name := by
  simp only [namesWith, List.mem_map, List.mem_filter, and_assoc]

/-- Entries that can all be tested are sorted. -/
theorem classify_of_tested (htested : ∀ entry ∈ entries, entry.isDir top = .ok (test entry)) :
    classify handler top dirs files entries =
      pure (dirs ++ namesWith test entries,
        files ++ namesWith (fun entry => !test entry) entries, none) := by
  induction entries generalizing dirs files with
  | nil => simp [classify, namesWith]
  | cons entry rest ih =>
    obtain ⟨hentry, hrest⟩ := List.forall_mem_cons.mp htested
    cases hvalue : test entry <;> simp [classify, hentry, ih hrest, namesWith_cons, hvalue]

/-- Without a handler, the first test that fails ends the loop. -/
theorem classify_none_of_failed (dirs files : List Name) {entry : DirEntry} {e : Fault}
    (hmem : entry ∈ entries)
    (hfailed : entry.isDir top = .error e) : ∃ d f e',
      classify (none : Option (Fault → Effect σ Fault Unit)) top dirs files entries =
        pure (d, f, some e') := by
  induction entries generalizing dirs files with
  | nil => cases hmem
  | cons first rest ih =>
    rw [classify]
    cases htest : first.isDir top with
    | error e' => exact ⟨dirs, files, e', rfl⟩
    | ok b =>
      have hrest : entry ∈ rest := by
        rcases List.mem_cons.mp hmem with rfl | hrest
        · cases hfailed.symm.trans htest
        · exact hrest
      cases b
      · exact ih dirs (files ++ [first.dName]) hrest
      · exact ih (dirs ++ [first.dName]) files hrest

end Sorting

end RpcProject.Files
