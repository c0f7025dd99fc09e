/-
# Temporary directories

`remote_temp_dir` draws names until it can make a directory of that name, and gives back
a path that removes itself: `deallocate` removes the whole tree, once, and takes no notice
of what cannot be removed.

Whoever works below the directory only, and leaves a tree there that can be cleared, finds
the file system as it was before the directory was made.
-/

import RpcProject.Files.MakeDirs
import RpcProject.Files.Remove

namespace RpcProject.Files

open Foundations Foundations.Effect Server

/-! ## The calls -/

/-- The characters of a temporary name. -/
def tempAlphabet : List Char := "abcdefghijklmnopqrstuvwxyz0123456789_".toList

/-- What `random.choices` draws. -/
structure Draw where
  chars : List Char
  length_eq : chars.length = 8
  drawn : ∀ c ∈ chars, c ∈ tempAlphabet

/-- The name with a prefix. -/
def Draw.name (draw : Draw) : Name := "tmpdir_" ++ String.ofList draw.chars

/-- `RemoteTemporaryDir` -/
structure TempDir where
  path : PosixPath
  deleted : Bool
  deriving DecidableEq

section Calls

variable (reads : ErrnoReads) (platform : Platform) (side : Side)

/-- Generate a random temp directory name and create it in the given directory. The test
whether the directory exists looks at a method that it does not call, so it passes. -/
def remoteTempDir (directory : PosixPath) (mode : ℕ) :
    List Draw → Effect FileSystem Fault TempDir
  | [] => raise .outOfFuel
  | draw :: draws =>
      handle
        (do
          mkdir reads side (directory.child draw.name) mode false false
          pure ⟨(directory.child draw.name).normalise, false⟩)
        fun e => if e.IsFileExists then remoteTempDir directory mode draws else raise e

/-- `RemotePath.exists` -/
def pathExists (path : PosixPath) : Effect FileSystem Fault Bool :=
  Effect.look fun fs => (fs.stat side.cwd true path).isOk

/-- `RemotePath.remove` -/
def removePath (fuel : ℕ) (path : PosixPath) (recursive force : Bool) :
    Effect FileSystem Fault Unit := do
  if ← pathExists side path then remove platform side.cwd fuel path recursive force

/-- `RemoteTemporaryDir.deallocate` -/
def TempDir.deallocate (fuel : ℕ) (dir : TempDir) : Effect FileSystem Fault TempDir :=
  if dir.deleted = true then pure dir
  else do
    removePath platform side fuel dir.path true true
    pure { dir with deleted := true }

end Calls

variable {reads : ErrnoReads} {platform : Platform} {side : Side} {fs fs' : FileSystem}
  {cwd parent top : Loc}
  {directory path : PosixPath} {mode fuel : ℕ} {draw : Draw} {draws : List Draw} {dir : TempDir}
  {name : Name} {order : List Name} {access : Access} {gone : Set Loc} {result : Except Fault Unit}

/-! ## Making the directory -/

theorem Draw.proper (draw : Draw) : FileSystem.Proper draw.name := by
  have hlength : 7 ≤ draw.name.length := by
    rw [Draw.name, String.length_append]
    exact Nat.le_add_right 7 _
  refine ⟨fun h => ?_, ?_⟩
  · rw [h] at hlength
    exact absurd hlength (by decide)
  · rintro (h | h) <;> rw [h] at hlength <;> exact absurd hlength (by decide)

/-- `mkdir` without parents makes a name that is missing, or changes nothing. -/
theorem mkdir_cases (h : mkdir reads side path mode false false fs = (result, fs')) :
    (∃ parent name, result = .ok () ∧ fs.lookup side.cwd false path.strip = .absent parent name ∧
      fs.mayChange parent = true ∧
      fs' = fs.insert parent name (.dir [".", ".."] (.ofMode mode))) ∨
    ∃ e, result = .error e ∧ fs' = fs := by
  rw [mkdir, if_pos rfl, handle, mkdirOne_apply] at h
  cases hfails : fs.mkdirFails side.cwd path with
  | some errno =>
    rw [hfails] at h
    simp only [raise, and_false, Bool.false_eq_true, if_false, Prod.mk.injEq] at h
    exact Or.inr ⟨_, h.1.symm, h.2.symm⟩
  | none =>
    rw [hfails] at h
    obtain ⟨rfl, rfl⟩ := Prod.mk.inj h
    obtain ⟨parent, name, habsent, hchange⟩ := absent_of_mkdirFails hfails
    refine Or.inl ⟨parent, name, rfl, habsent, hchange, ?_⟩
    rw [FileSystem.furnishOne, habsent]
    exact if_pos hchange

/-- The directory that is made was missing. -/
theorem exists_of_remoteTempDir
    (h : remoteTempDir reads side directory mode draws fs = (.ok dir, fs')) :
    ∃ (draw : Draw) (parent : Loc) (name : Name), draw ∈ draws ∧
      fs.lookup side.cwd false (directory.child draw.name) = .absent parent name ∧
      fs.mayChange parent = true ∧ dir = ⟨(directory.child draw.name).normalise, false⟩ ∧
      fs' = fs.insert parent name (.dir [".", ".."] (.ofMode mode)) := by
  induction draws with
  | nil => cases h
  | cons draw draws ih =>
    rw [remoteTempDir, handle] at h
    rcases hrun : mkdir reads side (directory.child draw.name) mode false false fs with ⟨result, t⟩
    rcases mkdir_cases hrun with ⟨parent, name, rfl, habsent, hchange, rfl⟩ | ⟨e, rfl, rfl⟩
    · rw [bind_of_ok hrun] at h
      obtain ⟨rfl, rfl⟩ := pure_eq_ok_iff.mp h
      rw [strip_child _ draw.proper] at habsent
      exact ⟨draw, parent, name, List.mem_cons_self, habsent, hchange, rfl, rfl⟩
    · rw [bind_of_error hrun] at h
      dsimp only at h
      split_ifs at h with hexists
      · -- the name is taken, and nothing has changed
        obtain ⟨draw', parent, name, hmem, hrest⟩ := ih h
        exact ⟨draw', parent, name, List.mem_cons_of_mem _ hmem, hrest⟩
      · cases h

/-! ## Removing with force -/

/-- A removal by force covers one without. -/
theorem covers_removeOne (path : PosixPath) :
    Covers (removeOne cwd false path) (removeOne cwd true path) := by
  intro fs _ fs' h
  rw [removeOne] at h ⊢
  cases hremove : fs.remove cwd path with
  | ok fs'' => rwa [hremove] at h
  | error errno =>
    rw [hremove] at h
    cases h

variable {emit emit' : PosixPath → Effect FileSystem Fault Unit}
  {visit visit' : Visit → Effect FileSystem Fault Unit}

/-- What is yielded around is covered if both parts are. -/
theorem covers_yieldAround {topdown : Bool}
    {yield yield' below below' : Effect FileSystem Fault Unit}
    (hyield : Covers yield yield') (hbelow : Covers below below') :
    Covers (yieldAround topdown yield below) (yieldAround topdown yield' below') := by
  cases topdown with
  | true => exact hyield.bind fun _ => hbelow.bind fun _ => covers_refl _
  | false => exact (covers_refl (pure ())).bind fun _ => hbelow.bind fun _ => hyield

/-- A walk covers another if its visits do. -/
theorem covers_walk {view : FileSystem → FileSystem} {topdown : Bool}
    {onerror : Option (Fault → Effect FileSystem Fault Unit)}
    (hvisit : ∀ v, Covers (visit v) (visit' v)) (fuel : ℕ) (path : PosixPath) :
    Covers (walk view platform cwd topdown onerror visit fuel path)
      (walk view platform cwd topdown onerror visit' fuel path) := by
  induction fuel generalizing path with
  | zero => exact covers_refl _
  | succ fuel ih =>
    exact (covers_refl _).bind fun names =>
      covers_yieldAround (hvisit _) (Covers.forEach (fun name => ih _) _)

theorem covers_yieldNames (hemit : ∀ path, Covers (emit path) (emit' path)) (v : Visit) :
    Covers (yieldNames emit v) (yieldNames emit' v) :=
  (Covers.forEach (fun _ => hemit _) _).bind fun _ => Covers.forEach (fun _ => hemit _) _

theorem covers_yieldTop (hemit : ∀ path, Covers (emit path) (emit' path)) (path : PosixPath) :
    Covers (yieldTop id cwd emit path) (yieldTop id cwd emit' path) := by
  refine (covers_refl _).bind fun accessible => ?_
  split
  · exact hemit path
  · exact covers_refl _

/-- A removal that returns without force does the same with it. -/
theorem covers_remove (fuel : ℕ) (path : PosixPath) (recursive : Bool) :
    Covers (remove platform cwd fuel path recursive false)
      (remove platform cwd fuel path recursive true) := by
  have heither (single : Bool) :
      Covers (if single then removeOne cwd false path
        else find id platform cwd false (removeOne cwd false) fuel path)
      (if single then removeOne cwd true path
        else find id platform cwd false (removeOne cwd true) fuel path) := by
    split
    · exact covers_removeOne path
    · exact covers_yieldAround (covers_yieldTop covers_removeOne path)
        (covers_walk (covers_yieldNames covers_removeOne) fuel path)
  cases recursive with
  | true => exact (covers_refl (isFile cwd path)).bind heither
  | false => exact (covers_refl (pure true)).bind heither

/-! ## From its making to its removal -/

/-- Taking away what has just been made leaves what was there. -/
theorem FileSystem.delete_insert (hfs : fs.WellFormed) (hnone : fs.node (parent ++ [name]) = none)
    (hproper : FileSystem.Proper name) (node : Node) :
    (fs.insert parent name node).delete (parent ++ [name]) = fs := by
  have hne : parent ≠ parent ++ [name] := by simp
  refine FileSystem.ext (funext fun x => ?_) rfl
  rw [delete_node]
  by_cases hx : x = parent ++ [name]
  · rw [if_pos hx, hx, hnone]
  · rw [if_neg hx, insert_node, if_neg hne, if_pos rfl, insert_node, if_neg hx]
    by_cases hup : x = parent
    · subst hup
      rw [if_pos rfl]
      cases hnode : fs.node x with
      | none => rfl
      | some node =>
        cases node with
        | dir order access =>
          have hmem : name ∉ order := fun hmem => by
            have hsome := (hfs.listed x name).mpr ⟨hproper, order, access, hnode, hmem⟩
            rw [hnone] at hsome
            cases hsome
          simp [addName, dropName, List.erase_append_right _ hmem]
        | file content => rfl
        | link target => rfl
        | special kind => rfl
    · rw [if_neg hup, if_neg hup]

theorem FileSystem.mayChange_prune (hmem : top ∉ gone) :
    (fs.prune gone).mayChange top = fs.mayChange top := by
  classical
  rw [mayChange, mayChange, prune_node_of_not_mem hmem]
  cases fs.node top with
  | none => rfl
  | some node => cases node <;> rfl

/-- The normal form of a path to a missing name leads to the directory that is made there. -/
theorem FileSystem.lookup_made_child (hproper : FileSystem.Proper name) {name' : Name}
    (habsent : fs.lookup cwd false (path.child name) = .absent parent name') :
    name' = name ∧ ∀ follow, (fs.insert parent name (.dir order access)).lookup cwd follow
      (path.child name).normalise = .found (parent ++ [name]) := by
  obtain ⟨-, hnone, order', access', hdir, hsearch⟩ := lookup_absent habsent
  -- the names before the last lead to the directory that lacks it
  have hresolve : fs.resolve false maxSymlinks (if (path.child name).absolute then [] else cwd)
      (path.normalise.base ++ [name]) = .absent parent name' := by
    rw [lookup] at habsent
    split at habsent
    · cases habsent
    · exact habsent
  obtain ⟨dest, _, _, hbase, hdest⟩ := dir_of_resolve_append (by rw [hresolve]; simp)
  have hsame : dest = parent ∧ name' = name := by
    obtain ⟨left, -, hgo⟩ := resolve_append hbase
    rw [hgo false [name] (List.cons_ne_nil _ _), resolve_proper hproper hdest] at hresolve
    split at hresolve
    · cases hresolve
    · split at hresolve
      · cases hresolve
        exact ⟨rfl, rfl⟩
      · rw [if_pos rfl] at hresolve
        cases hresolve
      · cases hresolve
  obtain ⟨rfl, rfl⟩ := hsame
  refine ⟨rfl, fun follow => ?_⟩
  have hpersists : fs.Persists (fs.insert dest name' (.dir order access)) := persists_insert hnone
  obtain ⟨names, hparts, hskips⟩ :=
    PosixPath.exists_parts_normalise (p := path.child name') rfl hproper
  have hnormal := hskips.resolve (hpersists.resolve hbase)
  rw [← PosixPath.normalise_absolute] at hnormal
  obtain ⟨left, hlookup⟩ := lookup_append hnormal hparts hproper.1
  obtain ⟨order'', hdir'⟩ := hpersists.dir hdir
  rw [hlookup, resolve_entry hproper hdir' (by rw [insert_node, if_pos rfl]) (by simp),
    if_neg (by simp [hsearch])]

/-- A new node changes nobody's permissions. -/
theorem FileSystem.mayChange_insert (fs : FileSystem) (parent : Loc) (name : Name) (node : Node) :
    (fs.insert parent name node).mayChange parent = fs.mayChange parent := by
  rw [mayChange, mayChange, insert_node, if_neg (by simp), if_pos rfl]
  cases fs.node parent with
  | none => rfl
  | some node => cases node <;> rfl

/-- Nothing but what lies below the directory has changed, and the tree there can be
cleared: its directories are listed right, and may be emptied. -/
structure UsedInside (platform : Platform) (cwd : Loc) (path : PosixPath) (top : Loc)
    (fs fs' : FileSystem) : Prop where
  kept : fs'.prune (FileSystem.below top) = fs
  clearable : ∀ rest order access, fs'.node (top ++ rest) = some (.dir order access) →
    ListedRight fs' platform cwd path top rest order access ∧
      (FileSystem.children order ≠ [] → access.writable = true ∧ access.searchable = true)

/-- **Temporary directories.** A temporary directory is made where there was nothing. If
only what lies below it is changed until it is removed, and can be cleared, its removal
leaves the file system that there was before it was made. -/
theorem tempDir_restores (disk disk' : Disk)
    (hmade : remoteTempDir reads side directory mode draws disk.toFileSystem = (.ok dir, fs))
    (hused : ∀ top, fs.lookup side.cwd true dir.path = .found top →
      UsedInside platform side.cwd dir.path top fs disk'.toFileSystem) :
    (∃ top, disk.node top = none ∧ fs.lookup side.cwd true dir.path = .found top) ∧
      ∃ fuel, dir.deallocate platform side fuel disk'.toFileSystem =
        (.ok { dir with deleted := true }, disk.toFileSystem) := by
  obtain ⟨draw, parent, _, -, habsent, hchange, rfl, rfl⟩ := exists_of_remoteTempDir hmade
  have hproper := draw.proper
  obtain ⟨-, hnone, -⟩ := FileSystem.lookup_absent habsent
  obtain ⟨rfl, hlookup⟩ := @FileSystem.lookup_made_child _ _ _ _ _ [".", ".."]
    (.ofMode mode) hproper _ habsent
  refine ⟨⟨parent ++ [draw.name], hnone, hlookup true⟩, ?_⟩
  obtain ⟨hkept, hclear⟩ := hused _ (hlookup true)
  have hstrip := strip_normalise_child directory hproper
  have hlast : (directory.child draw.name).normalise.strip.parts.getLast? = some draw.name := by
    obtain ⟨names, hparts, -⟩ :=
      PosixPath.exists_parts_normalise (p := directory.child draw.name) rfl hproper
    rw [hstrip, hparts, List.getLast?_concat]
  have hfound : ∀ follow, (disk'.prune (FileSystem.below (parent ++ [draw.name]))).lookup side.cwd
      follow
      (directory.child draw.name).normalise = .found (parent ++ [draw.name]) := fun follow => by
    rw [hkept, hlookup]
  have hnode : (disk'.prune (FileSystem.below (parent ++ [draw.name]))).node
      (parent ++ [draw.name]) =
      some (.dir [".", ".."] (.ofMode mode)) := by rw [hkept, FileSystem.insert_node, if_pos rfl]
  obtain ⟨order, hdir⟩ := FileSystem.persists_of_prune.dir hnode
  -- without force the whole tree can be removed, and nothing else
  have hremoves : RemovesItsTree disk'.toFileSystem platform side.cwd
      (directory.child draw.name).normalise :=
    removesItsTree_of_dir disk' hlast hproper (hfound true) (by rw [hstrip, hfound]) hdir
      fun rest order access hrest => (hclear rest order access hrest).1
  have hthere : ∀ follow, disk'.lookup side.cwd follow (directory.child draw.name).normalise =
      .found (parent ++ [draw.name]) := fun follow =>
    FileSystem.persists_of_prune.lookup (hfound follow)
  have hmay : MayClear disk'.toFileSystem (parent ++ [draw.name]) := by
    refine ⟨by simp, ?_, fun rest order access hrest => (hclear rest order access hrest).2⟩
    have hup : parent ∉ FileSystem.below (parent ++ [draw.name]) := fun h => by
      simpa using h.1.length_le
    rw [List.dropLast_concat, ← FileSystem.mayChange_prune hup, hkept, FileSystem.mayChange_insert]
    exact hchange
  obtain ⟨fuel, fs', hrun⟩ := hremoves.2 _ (by rw [hstrip, hthere]) hmay
  obtain ⟨_, hloc, hpruned⟩ := hremoves.1 fuel fs' hrun
  rw [hstrip, hthere] at hloc
  cases hloc
  -- what is left is what was there
  have hrestored : fs' = disk.toFileSystem := by
    rw [hpruned, ← delete_prune_below disk'.wellFormed (by rw [hdir]; rfl) (by simp), hkept,
      FileSystem.delete_insert disk.wellFormed hnone hproper]
  subst hrestored
  refine ⟨fuel, ?_⟩
  have hexists : pathExists side (directory.child draw.name).normalise disk'.toFileSystem =
      (.ok true, disk'.toFileSystem) := by
    rw [pathExists, Effect.look, stat_eq_ok_iff.mpr ⟨_, _, hthere true, hdir, rfl⟩]
    rfl
  have hpath : removePath platform side fuel (directory.child draw.name).normalise true true
      disk'.toFileSystem = (.ok (), disk.toFileSystem) := by
    rw [removePath, bind_of_ok hexists]
    exact covers_remove fuel _ true _ _ _ hrun
  rw [TempDir.deallocate, if_neg (by simp), bind_of_ok hpath]
  rfl

/-! ## A directory in `/tmp` -/

/-- A disk with an empty directory for temporary ones. -/
def tmpDisk : Disk :=
  .ofTable
    [([], .dir [".", "..", "tmp"] ⟨true, true, true⟩),
      (["tmp"], .dir [".", ".."] ⟨true, true, true⟩)]
    (fun _ => true) (by decide)

theorem a_mem_tempAlphabet : 'a' ∈ tempAlphabet := by decide

/-- A name of the same letter. -/
def someDraw : Draw :=
  ⟨List.replicate 8 'a', rfl, fun _ hc => List.eq_of_mem_replicate hc ▸ a_mem_tempAlphabet⟩

/-- The disk with a temporary directory, and a file in it. -/
def usedDisk : Disk :=
  .ofTable
    [([], .dir [".", "..", "tmp"] ⟨true, true, true⟩),
      (["tmp"], .dir [".", "..", "tmpdir_aaaaaaaa"] ⟨true, true, true⟩),
      (["tmp", "tmpdir_aaaaaaaa"], .dir [".", "..", "f"] ⟨true, true, true⟩),
      (["tmp", "tmpdir_aaaaaaaa", "f"], .file [])]
    (fun _ => true) (by decide)

theorem usedDisk_kept : usedDisk.prune (FileSystem.below ["tmp", "tmpdir_aaaaaaaa"]) =
    tmpDisk.insert ["tmp"] "tmpdir_aaaaaaaa" (.dir [".", ".."] (.ofMode 0o700)) := by
  classical
  refine FileSystem.ext (funext fun x => ?_) rfl
  have hold : x ≠ [] → x ≠ ["tmp"] → tmpDisk.node x = none := fun hroot htmp => by
    refine Option.eq_none_iff_forall_ne_some.mpr fun node hnode => ?_
    simpa [hroot, htmp] using FileSystem.mem_of_lookup hnode
  rw [FileSystem.insert_node]
  by_cases hbelow : x ∈ FileSystem.below ["tmp", "tmpdir_aaaaaaaa"]
  · have hne : x ≠ ["tmp"] ++ ["tmpdir_aaaaaaaa"] := hbelow.2
    have hlength := hbelow.1.length_le
    rw [FileSystem.prune_node_of_mem hbelow, if_neg hne, if_neg (by rintro rfl; simp at hlength),
      hold (by rintro rfl; simp at hlength) (by rintro rfl; simp at hlength)]
  · rw [FileSystem.prune_node_of_not_mem hbelow]
    by_cases htop : x = ["tmp", "tmpdir_aaaaaaaa"]
    · subst htop
      rw [show usedDisk.node ["tmp", "tmpdir_aaaaaaaa"] = some (.dir [".", "..", "f"] _) from rfl]
      simp [Node.restrict, FileSystem.below, IsDot]
      rfl
    · by_cases htmp : x = ["tmp"]
      · subst htmp
        rw [show usedDisk.node ["tmp"] = some (.dir [".", "..", "tmpdir_aaaaaaaa"] _) from rfl,
          show tmpDisk.node ["tmp"] = some (.dir [".", ".."] _) from rfl]
        simp [Node.restrict, FileSystem.below, IsDot, FileSystem.addName]
      · by_cases hroot : x = []
        · subst hroot
          rw [show usedDisk.node [] = some (.dir [".", "..", "tmp"] _) from rfl,
            show tmpDisk.node [] = some (.dir [".", "..", "tmp"] _) from rfl]
          simp [Node.restrict, FileSystem.below, IsDot]
        · have hfile : x ≠ ["tmp", "tmpdir_aaaaaaaa", "f"] := by
            rintro rfl
            exact hbelow ⟨⟨["f"], rfl⟩, by decide⟩
          have hnone : usedDisk.node x = none := by
            refine Option.eq_none_iff_forall_ne_some.mpr fun node hnode => ?_
            simpa [htop, htmp, hroot, hfile] using FileSystem.mem_of_lookup hnode
          rw [hnone, if_neg (by simpa using htop), if_neg htmp, hold hroot htmp]
          rfl

theorem tempDir_restores_tmpDisk :
    ∃ fuel, TempDir.deallocate .linux ⟨0, [], 0⟩ fuel ⟨⟨true, ["tmp", "tmpdir_aaaaaaaa"]⟩, false⟩
      usedDisk.toFileSystem =
        (.ok ⟨⟨true, ["tmp", "tmpdir_aaaaaaaa"]⟩, true⟩, tmpDisk.toFileSystem) := by
  have hmade : remoteTempDir attributed ⟨0, [], 0⟩ ⟨true, ["tmp"]⟩ 0o700
      [someDraw] tmpDisk.toFileSystem =
      (.ok ⟨⟨true, ["tmp", "tmpdir_aaaaaaaa"]⟩, false⟩,
        tmpDisk.insert ["tmp"] "tmpdir_aaaaaaaa" (.dir [".", ".."] (.ofMode 0o700))) := by
    rw [remoteTempDir, handle, mkdir, if_pos rfl, bind_apply, handle, mkdirOne_apply]
    rfl
  refine (tempDir_restores tmpDisk usedDisk hmade fun top htop => ?_).2
  have htop' : (tmpDisk.insert ["tmp"] "tmpdir_aaaaaaaa"
      (.dir [".", ".."] (.ofMode 0o700))).lookup []
      true ⟨true, ["tmp", "tmpdir_aaaaaaaa"]⟩ = .found ["tmp", "tmpdir_aaaaaaaa"] := rfl
  cases htop'.symm.trans htop
  refine ⟨usedDisk_kept, fun rest order access hnode => ?_⟩
  have hplaces : rest = [] ∧ order = [".", "..", "f"] ∧ access = ⟨true, true, true⟩ := by
    simpa using FileSystem.mem_of_lookup hnode
  obtain ⟨rfl, rfl, rfl⟩ := hplaces
  refine ⟨⟨rfl, dotsFirst_of_forall (by decide), by decide, fun _ name _ target htarget => ?_⟩,
    fun _ => ⟨rfl, rfl⟩⟩
  have hlink : False := by simpa using FileSystem.mem_of_lookup htarget
  exact hlink.elim

end RpcProject.Files
