/-
# Making directories with their parents

`mkdir` with `parents` makes one directory after the other, from the root or the working
directory to the end of the path, and takes no notice of entries that exist already. So it
does not tell a directory at the end of the path from anything else that is there, and it
does not look at `exist_ok`.

That an entry exists already the client learns from `errno`, which it reads by requests of
its own when the call has failed. The server may have written the variable since, so what
the client reads is a parameter here: any number for each call.

A call that returns has made every directory along its path that was missing and could be
made. Where each failure is read as what it is, a part that is not a directory makes the
call fail, unless it is the last one: nothing is made in that.
-/

import RpcProject.Files.Growth

namespace RpcProject.Files

open Foundations Foundations.Effect

/-! ## The calls -/

/-- `getcwd`, which fails in a directory that is gone. -/
def FileSystem.getcwd (fs : FileSystem) (cwd : Loc) : Except Errno PosixPath :=
  match fs.node cwd with
  | some (.dir _ _) => .ok ⟨true, cwd⟩
  | _ => .error enoent

/-- A part of a pure path: the root of an absolute one, or a name. -/
inductive Part
  | root (path : PosixPath)
  | name (name : Name)
  deriving DecidableEq, Repr

namespace PosixPath

/-- The root of an absolute path, as a part. -/
def rootParts (p : PosixPath) : List Part :=
  if p.absolute = true then [.root (p.withNamed [])] else []

/-- `PurePosixPath(path).parts` -/
def pureParts (p : PosixPath) : List Part := p.rootParts ++ p.named.map .name

/-- `dir_path / part` -/
def joinPart (dirPath : PosixPath) : Part → PosixPath
  | .root path => path
  | .name name => dirPath.child name

end PosixPath

/-- The calls behind whose failure `errno` is read. -/
inductive FailedCall
  | getcwd
  | mkdir (path : PosixPath)
  | chmod (path : PosixPath)
  deriving DecidableEq, Repr

/-- What the client reads from `errno` behind a call that has failed with some number. -/
abbrev ErrnoReads := FailedCall → Errno → Errno

/-- Each failure is read as what it is. -/
def attributed : ErrnoReads := fun _ errno => errno

section Calls

variable (reads : ErrnoReads) (side : Side)

/-- calls getcwd(buf, size_t) -/
def pwd : Effect FileSystem Fault PosixPath :=
  ask fun fs => failing "getcwd() failed" ((fs.getcwd side.cwd).mapError (reads .getcwd))

/-- `_mkdir` -/
def mkdirOne (path : PosixPath) (mode : ℕ) : Effect FileSystem Fault Unit := do
  tryUpdate fun fs => failing ("failed to mkdir: " ++ path.text)
    ((fs.mkdir side.cwd path (masked side mode)).mapError (reads (.mkdir path)))
  -- os may not always respect the permission given by the mode argument to mkdir
  tryUpdate fun fs => failing ("failed to chmod: " ++ path.text)
    ((fs.chmod side.cwd path mode).mapError (reads (.chmod path)))

/-- The error number that the class of an exception stands for. -/
def Fault.number : Fault → Option Errno
  | .errno number _ => some number
  | _ => none

/-- `RpcFileExistsError` -/
def Fault.IsFileExists (e : Fault) : Prop := e.number = some eexist

/-- `RpcIsADirectoryError` -/
def Fault.IsADirectory (e : Fault) : Prop := e.number = some eisdir

instance : DecidablePred Fault.IsFileExists := fun _ => inferInstanceAs (Decidable (_ = _))

instance : DecidablePred Fault.IsADirectory := fun _ => inferInstanceAs (Decidable (_ = _))

/-- `contextlib.suppress` of the two. -/
def suppress (body : Effect FileSystem Fault Unit) : Effect FileSystem Fault Unit :=
  handle body fun e => if e.IsADirectory ∨ e.IsFileExists then pure () else raise e

/-- The loop over the parts of a path. -/
def makeParts (mode : ℕ) : PosixPath → List Part → Effect FileSystem Fault Unit
  | _, [] => pure ()
  | dirPath, part :: rest => do
      suppress (mkdirOne reads side (dirPath.joinPart part) mode)
      makeParts mode (dirPath.joinPart part) rest

/-- Create a directory, optionally creating parent directories. -/
def mkdir (path : PosixPath) (mode : ℕ) (parents existOk : Bool) : Effect FileSystem Fault Unit :=
  if parents = false then
    handle (mkdirOne reads side path mode) fun e =>
      if e.IsFileExists ∧ existOk = true then pure () else raise e
  else do
    let dirPath ← pwd reads side
    makeParts reads side mode dirPath path.pureParts

end Calls

/-! ## What is asked of them -/

/-- A path leads to a directory. -/
def LeadsToDir (fs : FileSystem) (cwd : Loc) (path : PosixPath) : Prop :=
  ∃ loc order access, fs.lookup cwd true path = .found loc ∧ fs.node loc = some (.dir order access)

/-- Every entry is as it was, except that a directory may have more. -/
def EntriesKept (fs fs' : FileSystem) : Prop :=
  ∀ loc node, fs.node loc = some node →
    (node.isDir = false → fs'.node loc = some node) ∧
      ∀ order access, node = .dir order access →
        ∃ more, fs'.node loc = some (.dir (order ++ more) access)

/-- A call that returns leaves the path and its ancestors directories, and the entries as they
were. A path that leads to a directory already is refused without `exist_ok`. -/
structure MakesDirs (reads : ErrnoReads) (side : Side) (path : PosixPath) (mode : ℕ)
    (existOk : Bool)
    (fs : FileSystem) : Prop where
  made : ∀ fs', mkdir reads side path mode true existOk fs = (.ok (), fs') →
    EntriesKept fs fs' ∧
      ∀ names, names <+: path.named → LeadsToDir fs' side.cwd (path.withNamed names)
  refused : LeadsToDir fs side.cwd path.normalise →
    ((∃ e fs', mkdir reads side path mode true existOk fs = (.error e, fs') ∧ e.IsFileExists) ↔
      existOk = false)

/-! ## The directories along a path -/

namespace FileSystem

/-- The error number with which a directory cannot be made. -/
def mkdirFails (fs : FileSystem) (cwd : Loc) (path : PosixPath) : Option Errno :=
  match fs.lookup cwd false path.strip with
  | .found _ => some eexist
  | .absent parent _ => if fs.mayChange parent = true then none else some eacces
  | .failed errno => some errno

/-- The file system with a directory, if it is missing and can be made. -/
def furnishOne (fs : FileSystem) (cwd : Loc) (mode : ℕ) (path : PosixPath) : FileSystem :=
  match fs.lookup cwd false path.strip with
  | .absent parent name =>
      if fs.mayChange parent = true then
        fs.insert parent name (.dir [".", ".."] (.ofMode mode))
      else fs
  | _ => fs

/-- The file system with the directories that are missing and can be made, one after the other. -/
def furnish (fs : FileSystem) (cwd : Loc) (mode : ℕ) (paths : List PosixPath) : FileSystem :=
  paths.foldl (fun fs path => fs.furnishOne cwd mode path) fs

end FileSystem

/-- The paths of the parts behind a path. -/
def partPaths : PosixPath → List Part → List PosixPath
  | _, [] => []
  | dirPath, part :: rest => dirPath.joinPart part :: partPaths (dirPath.joinPart part) rest

/-- That a directory cannot be made is read as `EISDIR` or `EEXIST`. -/
def PassedOver (reads : ErrnoReads) (path : PosixPath) (errno : Errno) : Prop :=
  reads (.mkdir path) errno = eisdir ∨ reads (.mkdir path) errno = eexist

/-- Whatever of the directories along a path cannot be made is passed over. -/
def AllPassedOver (reads : ErrnoReads) (cwd : Loc) (mode : ℕ) : FileSystem → List PosixPath → Prop
  | _, [] => True
  | fs, path :: rest =>
      (∀ errno, fs.mkdirFails cwd path = some errno → PassedOver reads path errno) ∧
        AllPassedOver reads cwd mode (fs.furnishOne cwd mode path) rest

variable {reads : ErrnoReads} {side : Side} {fs fs' : FileSystem} {cwd loc parent : Loc}
  {path dirPath : PosixPath} {mode : ℕ} {existOk : Bool} {names pre : List Name} {name : Name}
  {order : List Name} {access : Access} {e : Fault}

/-! ## One directory -/

/-- The mode of a directory that has just been made can be changed. -/
theorem chmod_made (cwd : Loc) (mode : ℕ) (access : Access)
    (habsent : fs.lookup cwd false path.strip = .absent parent name) :
    (fs.insert parent name (.dir [".", ".."] access)).chmod cwd path mode =
      .ok (fs.insert parent name (.dir [".", ".."] (.ofMode mode))) := by
  have hnode : (fs.insert parent name (.dir [".", ".."] access)).node (parent ++ [name]) =
      some (.dir [".", ".."] access) := by rw [FileSystem.insert_node, if_pos rfl]
  have hok : ∃ fs', (fs.insert parent name (.dir [".", ".."] access)).chmod cwd path mode =
      .ok fs' := by
    rw [FileSystem.chmod, FileSystem.lookup_insert_dir habsent]
    simp only [hnode]
    exact ⟨_, rfl⟩
  obtain ⟨fs', hchmod⟩ := hok
  rw [hchmod, chmod_insert habsent hchmod]

/-- What `_mkdir` does is decided by where the path leads. -/
theorem mkdirOne_apply (reads : ErrnoReads) (side : Side) (path : PosixPath) (mode : ℕ)
    (fs : FileSystem) :
    mkdirOne reads side path mode fs =
      match fs.mkdirFails side.cwd path with
      | none => (.ok (), fs.furnishOne side.cwd mode path)
      | some errno =>
          (.error (.errno (reads (.mkdir path) errno) ("failed to mkdir: " ++ path.text)), fs) := by
  rw [mkdirOne, FileSystem.mkdirFails, FileSystem.furnishOne]
  have hfails {errno : Errno} (h : fs.mkdir side.cwd path (masked side mode) = .error errno) :
      failing ("failed to mkdir: " ++ path.text)
          ((fs.mkdir side.cwd path (masked side mode)).mapError (reads (.mkdir path))) =
        .error (.errno (reads (.mkdir path) errno) ("failed to mkdir: " ++ path.text)) := by
    rw [h]
    rfl
  cases hlookup : fs.lookup side.cwd false path.strip with
  | found loc =>
    exact bind_of_error (tryUpdate_of_error (hfails (by rw [FileSystem.mkdir, hlookup])))
  | failed errno =>
    exact bind_of_error (tryUpdate_of_error (hfails (by rw [FileSystem.mkdir, hlookup])))
  | absent parent name =>
    dsimp only
    by_cases hchange : fs.mayChange parent = true
    · rw [if_pos hchange, if_pos hchange]
      have hmade : fs.mkdir side.cwd path (masked side mode) =
          .ok (fs.insert parent name (.dir [".", ".."] (.ofMode (masked side mode)))) := by
        simp only [FileSystem.mkdir, hlookup, FileSystem.create, if_pos hchange]
      have hchmod := chmod_made side.cwd mode (.ofMode (masked side mode)) hlookup
      rw [bind_of_ok (tryUpdate_of_ok (by rw [hmade]; rfl))]
      exact tryUpdate_of_ok (by rw [hchmod]; rfl)
    · rw [if_neg hchange]
      refine bind_of_error (tryUpdate_of_error (hfails ?_))
      simp only [FileSystem.mkdir, hlookup, FileSystem.create, if_neg hchange]

/-- What cannot be made is left as it is. -/
theorem furnishOne_of_fails {errno : Errno} (h : fs.mkdirFails cwd path = some errno) :
    fs.furnishOne cwd mode path = fs := by
  rw [FileSystem.mkdirFails] at h
  rw [FileSystem.furnishOne]
  cases hlookup : fs.lookup cwd false path.strip with
  | found loc => rfl
  | failed errno => rfl
  | absent parent name =>
    rw [hlookup] at h
    by_cases hchange : fs.mayChange parent = true
    · simp [hchange] at h
    · simp only [hchange, if_false, Bool.false_eq_true]

/-- What can be made is missing from a directory that may be changed. -/
theorem absent_of_mkdirFails (h : fs.mkdirFails cwd path = none) :
    ∃ parent name, fs.lookup cwd false path.strip = .absent parent name ∧
      fs.mayChange parent = true := by
  rw [FileSystem.mkdirFails] at h
  split at h
  · cases h
  · next parent name habsent =>
    split at h
    · next hchange => exact ⟨parent, name, habsent, hchange⟩
    · cases h
  · cases h

/-- Nothing is made where there is something. -/
theorem furnishOne_of_found (h : fs.lookup cwd false path.strip = .found loc) :
    fs.furnishOne cwd mode path = fs := by
  rw [FileSystem.furnishOne, h]

theorem fs_put (w : World) (side : Side) (fs : FileSystem) : (w.put side fs).fs side = fs :=
  Function.update_self _ _ _

section Faultless

variable {env : Environment} {w : World} {errno : Errno} {f : FileSystem → Except Errno FileSystem}
  (hfault : ∀ time, env.fault time = none)

include hfault

/-- A call that succeeds changes the disk. -/
theorem act_of_ok (message : String) (h : f (w.fs side) = .ok fs) :
    act env side message (fun fs => (f fs).map fun fs' => ((), fs')) w =
      (.ok (), w.put side fs) := by
  rw [act, h, hfault]
  rfl

theorem act_of_error (message : String) (h : f (w.fs side) = .error errno) :
    act env side message (fun fs => (f fs).map fun fs' => ((), fs')) w =
      (.error (.errno errno message), w.tick) := by
  rw [act, h, hfault]
  rfl

/-- Where the calls raise nothing of their own, and failures are read as what they are, this is
what path objects do. -/
theorem fsMkdir_eq_mkdirOne (path : PosixPath) (mode : ℕ) (w : World) :
    (fsMkdir env path mode w).1 = (mkdirOne attributed env.server path mode (w.fs env.server)).1 ∧
      (fsMkdir env path mode w).2.fs env.server =
        (mkdirOne attributed env.server path mode (w.fs env.server)).2 := by
  rw [fsMkdir, mkdirOne]
  cases hmkdir : (w.fs env.server).mkdir env.server.cwd path (masked env.server mode) with
  | error errno =>
    have hrun : mkdirCall env env.server path mode w = _ := act_of_error hfault _ hmkdir
    rw [bind_of_error hrun, bind_of_error (tryUpdate_of_error (by rw [hmkdir]; rfl))]
    exact ⟨rfl, rfl⟩
  | ok fs =>
    have hrun : mkdirCall env env.server path mode w = _ := act_of_ok hfault _ hmkdir
    rw [bind_of_ok hrun, bind_of_ok (tryUpdate_of_ok (by rw [hmkdir]; rfl))]
    cases hchmod : fs.chmod env.server.cwd path mode with
    | error errno =>
      have hrun' : chmodCall env env.server path mode (w.put env.server fs) = _ :=
        act_of_error hfault _ (by rw [fs_put, hchmod])
      rw [hrun', tryUpdate_of_error (by rw [hchmod]; rfl)]
      exact ⟨rfl, fs_put w _ fs⟩
    | ok fs' =>
      have hrun' : chmodCall env env.server path mode (w.put env.server fs) = _ :=
        act_of_ok hfault _ (by rw [fs_put, hchmod])
      rw [hrun', tryUpdate_of_ok (by rw [hchmod]; rfl)]
      exact ⟨rfl, fs_put _ _ fs'⟩

end Faultless

/-- A directory is made, or something is passed over. -/
theorem suppress_of_passed (mode : ℕ)
    (h : ∀ errno, fs.mkdirFails side.cwd path = some errno → PassedOver reads path errno) :
    suppress (mkdirOne reads side path mode) fs = (.ok (), fs.furnishOne side.cwd mode path) := by
  rw [suppress, handle, mkdirOne_apply]
  cases hfails : fs.mkdirFails side.cwd path with
  | none => rfl
  | some errno =>
    have hpassed : Fault.IsADirectory
          (.errno (reads (.mkdir path) errno) ("failed to mkdir: " ++ path.text)) ∨
        Fault.IsFileExists
          (.errno (reads (.mkdir path) errno) ("failed to mkdir: " ++ path.text)) :=
      (h errno hfails).imp (congrArg some) (congrArg some)
    dsimp only
    rw [if_pos hpassed, furnishOne_of_fails hfails]
    rfl

/-- Any other error is raised, and is no `RpcFileExistsError`. -/
theorem suppress_of_not_passed {errno : Errno} (mode : ℕ)
    (hfails : fs.mkdirFails side.cwd path = some errno) (hnot : ¬ PassedOver reads path errno) :
    ∃ e, ¬ e.IsFileExists ∧ suppress (mkdirOne reads side path mode) fs = (.error e, fs) := by
  obtain ⟨hisdir, hexists⟩ := not_or.mp hnot
  have hraised : ¬ (Fault.IsADirectory
        (.errno (reads (.mkdir path) errno) ("failed to mkdir: " ++ path.text)) ∨
      Fault.IsFileExists
        (.errno (reads (.mkdir path) errno) ("failed to mkdir: " ++ path.text))) :=
    not_or.mpr ⟨fun h => hisdir (Option.some.inj h), fun h => hexists (Option.some.inj h)⟩
  refine ⟨.errno (reads (.mkdir path) errno) ("failed to mkdir: " ++ path.text),
    fun h => hexists (Option.some.inj h), ?_⟩
  rw [suppress, handle, mkdirOne_apply, hfails]
  dsimp only
  rw [if_neg hraised]
  rfl

/-- `suppress` passes over some failures and raises the others. -/
theorem suppress_cases (reads : ErrnoReads) (side : Side) (path : PosixPath) (mode : ℕ)
    (fs : FileSystem) :
    ((∀ errno, fs.mkdirFails side.cwd path = some errno → PassedOver reads path errno) ∧
      suppress (mkdirOne reads side path mode) fs = (.ok (), fs.furnishOne side.cwd mode path)) ∨
    (¬ (∀ errno, fs.mkdirFails side.cwd path = some errno → PassedOver reads path errno) ∧
      ∃ e, ¬ e.IsFileExists ∧ suppress (mkdirOne reads side path mode) fs = (.error e, fs)) := by
  by_cases hall : ∀ errno, fs.mkdirFails side.cwd path = some errno → PassedOver reads path errno
  · exact .inl ⟨hall, suppress_of_passed mode hall⟩
  · obtain ⟨errno, hnot⟩ := not_forall.mp hall
    obtain ⟨hfails, hnot⟩ := Classical.not_imp.mp hnot
    exact .inr ⟨hall, suppress_of_not_passed mode hfails hnot⟩

/-! ## What is kept -/

instance : Std.Refl EntriesKept := ⟨fun fs _ node hnode => by
  refine ⟨fun _ => hnode, fun order access hdir => ⟨[], ?_⟩⟩
  rw [List.append_nil, hnode, hdir]⟩

instance : IsTrans FileSystem EntriesKept := ⟨fun _ _ _ hfirst hsecond loc node hnode => by
  refine ⟨fun hdir => ?_, fun order access hdir => ?_⟩
  · exact (hsecond loc node ((hfirst loc node hnode).1 hdir)).1 hdir
  · obtain ⟨more, hmore⟩ := (hfirst loc node hnode).2 order access hdir
    obtain ⟨more', hmore'⟩ := (hsecond loc _ hmore).2 _ access rfl
    exact ⟨more ++ more', by rw [hmore', List.append_assoc]⟩⟩

/-- Where entries are kept lookups are. -/
theorem EntriesKept.persists (h : EntriesKept fs fs') : fs.Persists fs' := by
  intro loc node hnode
  obtain ⟨hother, hdir⟩ := h loc node hnode
  cases node with
  | dir order access =>
    obtain ⟨more, hmore⟩ := hdir order access rfl
    exact ⟨_, hmore, rfl⟩
  | file content => exact ⟨_, hother rfl, rfl⟩
  | link target => exact ⟨_, hother rfl, rfl⟩
  | special kind => exact ⟨_, hother rfl, rfl⟩

theorem entriesKept_insert (hnone : fs.node (parent ++ [name]) = none) (node : Node) :
    EntriesKept fs (fs.insert parent name node) := by
  intro loc original horiginal
  have hne : loc ≠ parent ++ [name] := by
    rintro rfl
    cases hnone.symm.trans horiginal
  rw [FileSystem.insert_node, if_neg hne]
  by_cases hparent : loc = parent
  · subst hparent
    rw [if_pos rfl, horiginal, Option.map_some]
    refine ⟨fun hdir => ?_, ?_⟩
    · cases original with
      | dir order access => cases hdir
      | file content => rfl
      | link target => rfl
      | special kind => rfl
    · rintro order access rfl
      exact ⟨[name], rfl⟩
  · rw [if_neg hparent]
    refine ⟨fun _ => horiginal, ?_⟩
    rintro order access rfl
    exact ⟨[], by rw [List.append_nil, horiginal]⟩

/-- A path to a directory still leads there. -/
theorem LeadsToDir.kept (h : LeadsToDir fs cwd path) (hkept : EntriesKept fs fs') :
    LeadsToDir fs' cwd path := by
  obtain ⟨loc, order, access, hfound, hdir⟩ := h
  obtain ⟨order', hdir'⟩ := hkept.persists.dir hdir
  exact ⟨loc, order', access, hkept.persists.lookup hfound, hdir'⟩

/-- The entries are kept, and the file system stays well formed. -/
def GrowsWellFormed (fs fs' : FileSystem) : Prop :=
  EntriesKept fs fs' ∧ (fs.WellFormed → fs'.WellFormed)

instance : Std.Refl GrowsWellFormed := ⟨fun fs => ⟨refl_of EntriesKept fs, id⟩⟩

instance : IsTrans FileSystem GrowsWellFormed := ⟨fun _ _ _ hfirst hsecond =>
  ⟨trans_of EntriesKept hfirst.1 hsecond.1, fun hfs => hsecond.2 (hfirst.2 hfs)⟩⟩

theorem grows_furnishOne (fs : FileSystem) (cwd : Loc) (mode : ℕ) (path : PosixPath) :
    GrowsWellFormed fs (fs.furnishOne cwd mode path) := by
  rw [FileSystem.furnishOne]
  split
  · next parent name habsent =>
    split
    · exact ⟨entriesKept_insert (FileSystem.lookup_absent habsent).2.1 _,
        fun hfs => hfs.insert (FileSystem.hop_of_lookup_absent habsent) rfl⟩
    · exact refl_of GrowsWellFormed fs
  · exact refl_of GrowsWellFormed fs

theorem grows_furnish (fs : FileSystem) (cwd : Loc) (mode : ℕ) (paths : List PosixPath) :
    GrowsWellFormed fs (fs.furnish cwd mode paths) := by
  induction paths generalizing fs with
  | nil => exact refl_of GrowsWellFormed fs
  | cons path rest ih => exact trans_of GrowsWellFormed (grows_furnishOne fs cwd mode path) (ih _)

/-! ## The loop -/

/-- **The loop.** It returns when everything along the path that cannot be made is passed over,
and then leaves the directories made that can be. It raises no `RpcFileExistsError`. -/
theorem makeParts_cases (reads : ErrnoReads) (side : Side) (mode : ℕ) (dirPath : PosixPath)
    (parts : List Part) (fs : FileSystem) :
    (AllPassedOver reads side.cwd mode fs (partPaths dirPath parts) ∧
      makeParts reads side mode dirPath parts fs =
        (.ok (), fs.furnish side.cwd mode (partPaths dirPath parts))) ∨
    (¬ AllPassedOver reads side.cwd mode fs (partPaths dirPath parts) ∧
      ∃ e fs', ¬ e.IsFileExists ∧
        makeParts reads side mode dirPath parts fs = (.error e, fs')) := by
  induction parts generalizing dirPath fs with
  | nil => exact .inl ⟨trivial, rfl⟩
  | cons part rest ih =>
    rw [partPaths, AllPassedOver, makeParts]
    rcases suppress_cases reads side (dirPath.joinPart part) mode fs with
      ⟨hpassed, hrun⟩ | ⟨hnot, e, he, hrun⟩
    · rw [bind_of_ok hrun]
      rcases ih (dirPath.joinPart part) (fs.furnishOne side.cwd mode (dirPath.joinPart part)) with
        ⟨hall, hrest⟩ | ⟨hnot, hraised⟩
      · exact .inl ⟨⟨hpassed, hall⟩, hrest⟩
      · exact .inr ⟨fun h => hnot h.2, hraised⟩
    · rw [bind_of_error hrun]
      exact .inr ⟨fun h => hnot h.1, e, fs, he, rfl⟩

/-! ## Where the call starts -/

/-- The working directory is there. -/
def HasCwd (fs : FileSystem) (cwd : Loc) : Prop :=
  ∃ order access, fs.node cwd = some (.dir order access)

/-- The working directory is told, if it is there. -/
theorem pwd_of_hasCwd (h : HasCwd fs side.cwd) :
    pwd reads side fs = (.ok ⟨true, side.cwd⟩, fs) := by
  obtain ⟨order, access, hdir⟩ := h
  rw [pwd, ask, FileSystem.getcwd, hdir]
  rfl

theorem pwd_of_not_hasCwd (h : ¬ HasCwd fs side.cwd) :
    pwd reads side fs = (.error (.errno (reads .getcwd enoent) "getcwd() failed"), fs) := by
  have hfails : fs.getcwd side.cwd = .error enoent := by
    rw [FileSystem.getcwd]
    split
    · next order access hdir => exact absurd ⟨order, access, hdir⟩ h
    · rfl
  rw [pwd, ask, hfails]
  rfl

/-- The paths of the directories that the call makes. -/
def dirPaths (side : Side) (path : PosixPath) : List PosixPath :=
  partPaths ⟨true, side.cwd⟩ path.pureParts

/-- With `parents`, the only failure that may be taken for `RpcFileExistsError` is that the working
directory is gone. -/
theorem raises_fileExists_iff (reads : ErrnoReads) (side : Side) (path : PosixPath) (mode : ℕ)
    (existOk : Bool) (fs : FileSystem) :
    (∃ e fs', mkdir reads side path mode true existOk fs = (.error e, fs') ∧ e.IsFileExists) ↔
      ¬ HasCwd fs side.cwd ∧ reads .getcwd enoent = eexist := by
  rw [mkdir, if_neg Bool.false_ne_true.symm]
  by_cases hcwd : HasCwd fs side.cwd
  · refine iff_of_false ?_ fun h => h.1 hcwd
    rw [bind_of_ok (pwd_of_hasCwd hcwd)]
    rintro ⟨e, fs', hrun, he⟩
    rcases makeParts_cases reads side mode ⟨true, side.cwd⟩ path.pureParts fs with
      ⟨-, hok⟩ | ⟨-, e', t, hnot, herror⟩
    · cases hok.symm.trans hrun
    · cases herror.symm.trans hrun
      exact hnot he
  · rw [bind_of_error (pwd_of_not_hasCwd hcwd)]
    refine ⟨?_, fun h => ⟨_, _, rfl, congrArg some h.2⟩⟩
    rintro ⟨e, fs', hrun, he⟩
    cases hrun
    exact ⟨hcwd, Option.some.inj he⟩

/-! ## Ancestors -/

/-- Parts that a normal form leaves, behind the slashes at the start. -/
def PlainNames (parts : List Name) : Prop := ∀ part ∈ parts, part ≠ "" ∧ part ≠ "."

theorem plain_named (path : PosixPath) : PlainNames path.named := by
  intro part hpart
  have hkept := (List.mem_filter.mp hpart).2
  simpa using hkept

/-- An absolute path is looked up from the root. -/
theorem lookup_absolute (fs : FileSystem) (cwd : Loc) (follow : Bool) (parts : List Name) :
    fs.lookup cwd follow ⟨true, parts⟩ = fs.resolve follow maxSymlinks [] parts := by
  rw [FileSystem.lookup, if_neg fun h => Bool.noConfusion h.1]
  rfl

/-- A path without names stays where it starts. -/
theorem leadsToDir_withNamed_nil (hfs : fs.WellFormed) (hcwd : HasCwd fs cwd) (path : PosixPath) :
    LeadsToDir fs cwd (path.withNamed []) := by
  obtain ⟨order, access, hdir⟩ := hcwd
  obtain ⟨rootOrder, rootAccess, hroot⟩ := hfs.root
  rw [PosixPath.withNamed]
  split
  · split
    · refine ⟨[], rootOrder, rootAccess, ?_, hroot⟩
      rw [lookup_absolute]
      exact FileSystem.resolve_stay hroot (by simp)
    · refine ⟨[], rootOrder, rootAccess, ?_, hroot⟩
      rw [lookup_absolute]
      exact FileSystem.resolve_stay hroot (by simp)
  · refine ⟨cwd, order, access, ?_, hdir⟩
    rw [FileSystem.lookup, if_neg (by rintro ⟨-, h | h⟩ <;> simp at h)]
    exact FileSystem.resolve_stay hdir (by simp)

theorem withNamed_concat (path : PosixPath) (hne : names ≠ []) (name : Name) :
    path.withNamed (names ++ [name]) =
      ⟨(path.withNamed names).absolute, (path.withNamed names).parts ++ [name]⟩ := by
  rw [PosixPath.withNamed, PosixPath.withNamed, if_neg (List.concat_ne_nil _ _), if_neg hne,
    if_neg (List.concat_ne_nil _ _), if_neg hne]
  split
  · split <;> rfl
  · rfl

theorem not_isEmpty_withNamed (path : PosixPath) (hplain : PlainNames names) (hne : names ≠ []) :
    ¬ (path.withNamed names).IsEmpty := by
  rw [PosixPath.withNamed, if_neg hne]
  split
  · split <;> exact fun h => Bool.noConfusion h.1
  · rintro ⟨-, h | h⟩
    · exact hne h
    · have hempty : names = [""] := h
      exact (hplain "" (hempty ▸ List.mem_singleton_self _)).1 rfl

/-- What leads to a directory leads through directories. -/
theorem leadsToDir_of_concat (hplain : PlainNames names) (hne : names ≠ [])
    (h : LeadsToDir fs cwd (path.withNamed (names ++ [name]))) :
    LeadsToDir fs cwd (path.withNamed names) := by
  obtain ⟨loc, order, access, hfound, -⟩ := h
  rw [withNamed_concat path hne, FileSystem.lookup] at hfound
  split at hfound
  · cases hfound
  · obtain ⟨dest, order', access', hdest, hdir⟩ :=
      FileSystem.dir_of_resolve_append fun errno hfailed => by cases hfailed.symm.trans hfound
    refine ⟨dest, order', access', ?_, hdir⟩
    rw [FileSystem.lookup, if_neg (not_isEmpty_withNamed path hplain hne)]
    exact hdest

/-- When a path leads to a directory, so do the paths before it. -/
theorem leadsToDir_of_prefix (hfs : fs.WellFormed) (hcwd : HasCwd fs cwd)
    (h : LeadsToDir fs cwd path.normalise) (hnames : names <+: path.named) :
    LeadsToDir fs cwd (path.withNamed names) := by
  rcases eq_or_ne names [] with rfl | hne
  · exact leadsToDir_withNamed_nil hfs hcwd path
  obtain ⟨rest, hrest⟩ := hnames
  have hplain : PlainNames (names ++ rest) := hrest ▸ plain_named path
  rw [PosixPath.normalise, ← hrest] at h
  -- one name less at a time
  clear hrest
  induction rest using List.reverseRecOn with
  | nil => rwa [List.append_nil] at h
  | append_singleton rest last ih =>
    rw [← List.append_assoc] at h hplain
    have hbefore : PlainNames (names ++ rest) := fun part hmem =>
      hplain part (List.mem_append_left _ hmem)
    exact ih (leadsToDir_of_concat hbefore (by simp [hne]) h) hbefore

/-! ## The whole call -/

/-- A call that returns makes what it should just if the path leads to a directory once the
directories along it have been made that can be. -/
theorem made_iff_furnished (hfs : fs.WellFormed) (reads : ErrnoReads) (side : Side)
    (path : PosixPath) (mode : ℕ) (existOk : Bool) :
    (∀ fs', mkdir reads side path mode true existOk fs = (.ok (), fs') →
      EntriesKept fs fs' ∧
        ∀ names, names <+: path.named → LeadsToDir fs' side.cwd (path.withNamed names)) ↔
      (HasCwd fs side.cwd → AllPassedOver reads side.cwd mode fs (dirPaths side path) →
        LeadsToDir (fs.furnish side.cwd mode (dirPaths side path)) side.cwd path.normalise) := by
  rw [mkdir, if_neg Bool.false_ne_true.symm]
  by_cases hcwd : HasCwd fs side.cwd
  swap
  · -- in a directory that is gone nothing is made
    rw [bind_of_error (pwd_of_not_hasCwd hcwd)]
    exact iff_of_true (fun fs' hrun => by cases hrun) fun h => absurd h hcwd
  rw [bind_of_ok (pwd_of_hasCwd hcwd)]
  have hgrows := grows_furnish fs side.cwd mode (dirPaths side path)
  rcases makeParts_cases reads side mode ⟨true, side.cwd⟩ path.pureParts fs with
    ⟨hall, hrun⟩ | ⟨hnot, e, fs₁, -, hrun⟩
  · refine ⟨fun h _ _ => (h _ hrun).2 path.named List.prefix_rfl, fun h fs' hrun' => ?_⟩
    cases hrun.symm.trans hrun'
    refine ⟨hgrows.1, fun names hprefix => ?_⟩
    obtain ⟨order, access, hdir⟩ := hcwd
    obtain ⟨order', hdir'⟩ := hgrows.1.persists.dir hdir
    exact leadsToDir_of_prefix (hgrows.2 hfs) ⟨order', access, hdir'⟩ (h ⟨order, access, hdir⟩ hall)
      hprefix
  · exact iff_of_true (fun fs' hrun' => by cases hrun.symm.trans hrun') fun _ hall =>
      absurd hall hnot

/-- Whatever the client reads from `errno`, `mkdir` does what it should just if both hold: where the
path leads to a directory beforehand, a failure is read as `EEXIST` before the loop just without
`exist_ok`; and the path leads to a directory once those along it have been made that can be, or
not all that cannot be made is passed over. -/
theorem makesDirs_iff_furnished (hfs : fs.WellFormed) (reads : ErrnoReads) (side : Side)
    (path : PosixPath) (mode : ℕ) (existOk : Bool) :
    MakesDirs reads side path mode existOk fs ↔
      (LeadsToDir fs side.cwd path.normalise →
        (¬ HasCwd fs side.cwd ∧ reads .getcwd enoent = eexist ↔ existOk = false)) ∧
      (HasCwd fs side.cwd → AllPassedOver reads side.cwd mode fs (dirPaths side path) →
        LeadsToDir (fs.furnish side.cwd mode (dirPaths side path)) side.cwd path.normalise) := by
  have hmade := made_iff_furnished hfs reads side path mode existOk
  have hrefused := raises_fileExists_iff reads side path mode existOk fs
  constructor
  · rintro ⟨hreturns, hraises⟩
    exact ⟨fun hleads => hrefused.symm.trans (hraises hleads), hmade.mp hreturns⟩
  · rintro ⟨hraises, hreturns⟩
    exact ⟨hmade.mpr hreturns, fun hleads => hrefused.trans (hraises hleads)⟩

/-- Without `parents`, an entry that is there is refused just without `exist_ok`, if that it exists
is read as what it is. -/
theorem mkdir_of_found (mode : ℕ) (existOk : Bool) (hread : reads (.mkdir path) eexist = eexist)
    (hfound : fs.lookup side.cwd false path.strip = .found loc) :
    (∃ e fs', mkdir reads side path mode false existOk fs = (.error e, fs') ∧ e.IsFileExists) ↔
      existOk = false := by
  have hfails : fs.mkdirFails side.cwd path = some eexist := by rw [FileSystem.mkdirFails, hfound]
  have hexists : Fault.IsFileExists
      (.errno (reads (.mkdir path) eexist) ("failed to mkdir: " ++ path.text)) :=
    congrArg some hread
  rw [mkdir, if_pos rfl, handle, mkdirOne_apply, hfails]
  dsimp only
  cases existOk with
  | true =>
    rw [if_pos ⟨hexists, rfl⟩]
    refine iff_of_false ?_ Bool.false_ne_true.symm
    rintro ⟨e, fs', hrun, -⟩
    cases hrun
  | false =>
    rw [if_neg fun h => Bool.false_ne_true h.2]
    exact iff_of_true ⟨_, fs, rfl, hexists⟩ rfl

/-! ## A file and a directory -/

/-- A disk with a directory and a file. -/
def mixedDisk : Disk :=
  .ofTable [([], .dir [".", "..", "d", "f"] ⟨true, true, true⟩),
    (["d"], .dir [".", ".."] ⟨true, true, true⟩), (["f"], .file [])] (fun _ => true) (by decide)

theorem leadsToDir_mixedDisk : LeadsToDir mixedDisk.toFileSystem [] ⟨false, ["d"]⟩ :=
  ⟨["d"], _, _, rfl, rfl⟩

/-- Whatever is read when the directory cannot be made, it is not refused with
`RpcFileExistsError`. Where it is read that the file exists, the file is taken for a directory. -/
theorem not_makesDirs_mixedDisk :
    (∀ reads, ¬ MakesDirs reads ⟨0, [], 0⟩ ⟨false, ["d"]⟩ 0o777 false mixedDisk.toFileSystem) ∧
      ¬ MakesDirs attributed ⟨0, [], 0⟩ ⟨false, ["f"]⟩ 0o777 true mixedDisk.toFileSystem := by
  constructor
  · intro reads h
    have hraised := (h.refused leadsToDir_mixedDisk).mpr rfl
    exact ((raises_fileExists_iff _ _ _ _ _ _).mp hraised).1 ⟨_, _, rfl⟩
  · intro h
    obtain ⟨-, hdirs⟩ := h.made mixedDisk.toFileSystem rfl
    obtain ⟨loc, order, access, hfound, hdir⟩ := hdirs ["f"] (by decide)
    cases hfound
    cases hdir

end RpcProject.Files
