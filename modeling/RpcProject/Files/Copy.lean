/-
# Copying files and directories

`cp` copies sources to a destination, `push` from the client's machine to the
server's and `pull` the other way. It asks whether a path exists before it makes
a directory or writes a file there, and without `force` it writes no file that
exists.

What the parts of a copy keep is shown once, for every relation that is kept when a
directory, a link or a file is made. Without `force` a copy only adds nodes: every
node that was there before is there afterwards, also when the copy is cut off by an
exception.
-/

import RpcProject.Files.PathOps

namespace RpcProject.Files

open Foundations Server

/-! ## The routine -/

section Routine

variable (src dst : PathOps) (force : Bool)

/-- The start of `Fs._cp_dir`. -/
def makeMissing (source dest : PosixPath) : Call Unit := do
  if ← dst.pathExists dest then pure ()
  else do
    -- the mode of the link itself, when the source is one
    let mode ← src.lstat source
    dst.mkdir dest mode

/-- The loop of `Fs._cp_dir` for one entry of the source. -/
def cpEntry (cpDir : PosixPath → PosixPath → Call Unit) (dest srcFile : PosixPath) : Call Unit := do
  let destFile := dest.child srcFile.name
  let mode ← src.lstat srcFile
  if Node.fileType mode = sIfdir then cpDir srcFile destFile
  else if Node.fileType mode = sIflnk then do
    let symlinkFull ← src.readlink srcFile
    dst.symlinkTo destFile symlinkFull
  else do
    let there ← dst.pathExists destFile
    if there = true ∧ force = false then pure ()
    else do
      let data ← src.readBytes srcFile
      dst.writeBytes destFile data

/-- `Fs._cp_dir` -/
def cpDir : ℕ → PosixPath → PosixPath → Call Unit
  | 0, _, _ => Effect.raise .outOfFuel
  | fuel + 1, source, dest => do
      makeMissing src dst source dest
      let files ← src.iterdir source
      Effect.forEach (cpEntry src dst force (cpDir fuel) dest) files

/-- The destination is made for a recursive copy, unless it is made otherwise. -/
def makeDest (dest : PosixPath) : Call Unit :=
  Effect.handle (dst.mkdir dest 0o777) fun e => do
    if ← dst.pathExists dest then pure () else Effect.raise e

/-- `Fs.cp` for a source that is a directory. -/
def cpSourceDir (fuel : ℕ) (source dest : PosixPath) : Call Unit := do
  let curDest := dest.child source.name
  let sourceMode ← src.stat source
  let there ← dst.pathExists curDest
  if there then pure () else dst.mkdir curDest sourceMode
  cpDir src dst force fuel source curDest

/-- Where a file is copied to. -/
def fileDest (source dest : PosixPath) : Call PosixPath := do
  if ← dst.pathExists dest then
    if ← dst.isDir dest then return dest.child source.name
    else return dest
  else return dest

/-- `Fs.cp` for a source that is a file. -/
def cpSourceFile (source dest : PosixPath) : Call Unit := do
  let curDest ← fileDest dst source dest
  let there ← dst.pathExists curDest
  if there = false ∨ force = true then do
    let data ← src.readBytes source
    dst.writeBytes curDest data
  else pure ()

/-- The loop of `Fs.cp`. -/
def cpSource (fuel : ℕ) (recursive : Bool) (dest source : PosixPath) : Call Unit := do
  if ← src.pathExists source then
    if ← src.isDir source then
      if recursive then cpSourceDir src dst force fuel source dest else pure ()
    else cpSourceFile src dst force source dest
  else
    Effect.raise (.argument
      ("cannot stat " ++ source.normalise.text ++ ": No such file or directory"))

/-- Whether the destination is a directory that is there. -/
def isDestDir (dest : PosixPath) (destExists : Bool) : Call Bool :=
  if destExists then dst.isDir dest else pure false

/-- `Fs.cp` -/
def cp (fuel : ℕ) (sources : List PosixPath) (dest : PosixPath) (recursive : Bool) : Call Unit := do
  let destExists ← dst.pathExists dest
  let directory ← isDestDir dst dest destExists
  if (destExists = false ∨ directory = false) ∧ 1 < sources.length then
    Effect.raise (.argument ("target " ++ dest.normalise.text ++ " is not a directory"))
  else do
    if recursive = true ∧ destExists = false then makeDest dst dest else pure ()
    Effect.forEach (cpSource src dst force fuel recursive dest) sources

/-- `Fs.cp` up to its loop. -/
def cpReady (sources : List PosixPath) (dest : PosixPath) : Call Unit := do
  let destExists ← dst.pathExists dest
  let directory ← isDestDir dst dest destExists
  if (destExists = false ∨ directory = false) ∧ 1 < sources.length then
    Effect.raise (.argument ("target " ++ dest.normalise.text ++ " is not a directory"))
  else if destExists = false then makeDest dst dest
  else pure ()

/-- `Fs.cp` for a source that is a directory, up to the call of `_cp_dir`. -/
def makePlace (source place : PosixPath) : Call Unit := do
  let sourceMode ← src.stat source
  let there ← dst.pathExists place
  if there then pure () else dst.mkdir place sourceMode

/-- A recursive copy: a check, and one source after the other. -/
theorem cp_eq (fuel : ℕ) (sources : List PosixPath) (dest : PosixPath) :
    cp src dst force fuel sources dest true =
      cpReady dst sources dest >>= fun _ =>
        Effect.forEach (cpSource src dst force fuel true dest) sources := by
  rw [cpReady, Effect.bind_assoc, cp]
  congr 1
  funext destExists
  rw [Effect.bind_assoc]
  congr 1
  funext directory
  split
  · rfl
  · cases destExists <;> rfl

/-- The copy of a directory: its place, and what is below it. -/
theorem cpSourceDir_eq (fuel : ℕ) (source dest : PosixPath) :
    cpSourceDir src dst force fuel source dest =
      makePlace src dst source (dest.child source.name) >>= fun _ =>
        cpDir src dst force fuel source (dest.child source.name) := by
  rw [makePlace, Effect.bind_assoc, cpSourceDir]
  congr 1
  funext sourceMode
  rw [Effect.bind_assoc]
  congr 1
  funext there
  cases there <;> rfl

end Routine

/-- `Fs.push` copies to the server, `Fs.pull` from it. -/
inductive Direction
  | push
  | pull
  deriving DecidableEq, Repr

namespace Environment

variable (env : Environment)

/-- The paths of the sources. -/
def sourceOps : Direction → PathOps
  | .push => localPath env
  | .pull => remotePath env

/-- The paths of the destination. -/
def destOps : Direction → PathOps
  | .push => remotePath env
  | .pull => localPath env

/-- Where the sources are. -/
def sourceSide : Direction → Side
  | .push => env.client
  | .pull => env.server

/-- Where the destination is. -/
def destSide : Direction → Side
  | .push => env.server
  | .pull => env.client

/-- `Fs.cp` in one direction. -/
def copy (direction : Direction) (fuel : ℕ) (sources : List PosixPath) (dest : PosixPath)
    (recursive force : Bool) : Call Unit :=
  cp (env.sourceOps direction) (env.destOps direction) force fuel sources dest recursive

end Environment

/-! ## What the parts of a copy keep -/

/-- A relation between the worlds before and after that making a directory keeps, and
with it every part of a copy that only looks or makes directories. -/
structure KeptByMaking (dst : PathOps) (R : World → World → Prop) : Prop where
  same : ∀ w w', SameDisks w w' → R w w'
  mkdir : ∀ path mode, Effect.Keeps R (dst.mkdir path mode)

/-- A relation that links and the files that a copy writes keep too. -/
structure KeptByCopy (src dst : PathOps) (force : Bool) (R : World → World → Prop) : Prop extends
    KeptByMaking dst R where
  symlinkTo : ∀ path target, Effect.Keeps R (dst.symlinkTo path target)
  /-- a file is written when it has been asked for, and is absent or may be replaced -/
  write : ∀ {source path : PosixPath} {there : Bool} {w w₁ : World},
    dst.pathExists path w = (.ok there, w₁) → there = false ∨ force = true →
      R w₁ ((src.readBytes source >>= fun data => dst.writeBytes path data) w₁).2

section Kept

variable {src dst : PathOps} {srcSide dstSide : Side}
  {srcAddress dstAddress : PosixPath → PosixPath}
  {srcCopied dstCopied : PosixPath → PosixPath → PosixPath}
  {srcLists dstLists : PosixPath → List Name → Prop} {force : Bool} {R : World → World → Prop}
  (hsrc : src.Serves srcSide srcAddress srcCopied srcLists)
  (hdst : dst.Serves dstSide dstAddress dstCopied dstLists)

include hdst in
/-- Looking for the place of a file changes nothing. -/
theorem sameDisks_fileDest (source dest : PosixPath) :
    Effect.Keeps SameDisks (fileDest dst source dest) := by
  apply (hdst.pathExists dest).bind
  intro there
  split
  · apply (hdst.isDir dest).bind
    intro isDir
    split <;> exact Effect.keeps_pure _
  · exact Effect.keeps_pure _

include hdst in
theorem sameDisks_isDestDir (dest : PosixPath) (destExists : Bool) :
    Effect.Keeps SameDisks (isDestDir dst dest destExists) := by
  rw [isDestDir]
  split
  · exact hdst.isDir dest
  · exact Effect.keeps_pure _

theorem KeptByMaking.looks {α : Type} {m : Call α} (h : KeptByMaking dst R)
    (hm : Effect.Keeps SameDisks m) : Effect.Keeps R m := fun w => h.same _ _ (hm w)

variable [Std.Refl R] [IsTrans World R]

namespace KeptByMaking

include hsrc hdst in
/-- What is kept by making a directory is kept by making a missing one. -/
theorem makeMissing (h : KeptByMaking dst R) (source dest : PosixPath) :
    Effect.Keeps R (makeMissing src dst source dest) := by
  apply (h.looks (hdst.pathExists dest)).bind
  intro there
  split
  · exact Effect.keeps_pure _
  · exact (h.looks (hsrc.lstat source)).bind fun mode => h.mkdir dest mode

include hdst in
theorem makeDest (h : KeptByMaking dst R) (dest : PosixPath) :
    Effect.Keeps R (makeDest dst dest) := by
  apply (h.mkdir dest _).handle
  intro e
  apply (h.looks (hdst.pathExists dest)).bind
  intro there
  split
  · exact Effect.keeps_pure _
  · exact Effect.keeps_raise _

include hsrc hdst in
theorem makePlace (h : KeptByMaking dst R) (source place : PosixPath) :
    Effect.Keeps R (makePlace src dst source place) := by
  apply (h.looks (hsrc.stat source)).bind
  intro mode
  apply (h.looks (hdst.pathExists place)).bind
  intro there
  split
  · exact Effect.keeps_pure _
  · exact h.mkdir place mode

include hdst in
theorem cpReady (h : KeptByMaking dst R) (sources : List PosixPath) (dest : PosixPath) :
    Effect.Keeps R (cpReady dst sources dest) := by
  apply (h.looks (hdst.pathExists dest)).bind
  intro destExists
  apply (h.looks (sameDisks_isDestDir hdst dest destExists)).bind
  intro directory
  split
  · exact Effect.keeps_raise _
  · split
    · exact h.makeDest hdst dest
    · exact Effect.keeps_pure _

end KeptByMaking

namespace KeptByCopy

include hsrc hdst in
/-- What is kept by a copy is kept by the copy of an entry. -/
theorem cpEntry (h : KeptByCopy src dst force R) {recur : PosixPath → PosixPath → Call Unit}
    (hrecur : ∀ source dest, Effect.Keeps R (recur source dest)) (dest srcFile : PosixPath) :
    Effect.Keeps R (cpEntry src dst force recur dest srcFile) := by
  apply (h.looks (hsrc.lstat srcFile)).bind
  intro mode
  split
  · exact hrecur _ _
  · split
    · exact (h.looks (hsrc.readlink srcFile)).bind fun target => h.symlinkTo _ target
    · apply Effect.keeps_bind_of (h.looks (hdst.pathExists _))
      intro w there w₁ hexists
      split
      · exact refl_of R w₁
      · next hwrites =>
        rw [not_and_or, Bool.not_eq_true, Bool.not_eq_false] at hwrites
        exact h.write hexists hwrites

include hsrc hdst in
theorem cpDir (h : KeptByCopy src dst force R) (fuel : ℕ) (source dest : PosixPath) :
    Effect.Keeps R (cpDir src dst force fuel source dest) := by
  induction fuel generalizing source dest with
  | zero => exact Effect.keeps_raise _
  | succ fuel ih =>
    exact (h.makeMissing hsrc hdst source dest).bind fun _ =>
      (h.looks (hsrc.iterdir source)).bind fun files =>
        Effect.Keeps.forEach fun srcFile _ => h.cpEntry hsrc hdst ih dest srcFile

include hdst in
theorem cpSourceFile (h : KeptByCopy src dst force R) (source dest : PosixPath) :
    Effect.Keeps R (cpSourceFile src dst force source dest) := by
  apply (h.looks (sameDisks_fileDest hdst source dest)).bind
  intro curDest
  apply Effect.keeps_bind_of (h.looks (hdst.pathExists curDest))
  intro w there w₁ hexists
  split
  · next hwrites => exact h.write hexists hwrites
  · exact refl_of R w₁

include hsrc hdst in
theorem cpSource (h : KeptByCopy src dst force R) (fuel : ℕ) (recursive : Bool)
    (dest source : PosixPath) :
    Effect.Keeps R (cpSource src dst force fuel recursive dest source) := by
  apply (h.looks (hsrc.pathExists source)).bind
  intro there
  split
  · apply (h.looks (hsrc.isDir source)).bind
    intro isDir
    split
    · split
      · rw [cpSourceDir_eq]
        exact (h.makePlace hsrc hdst source _).bind fun _ => h.cpDir hsrc hdst fuel source _
      · exact Effect.keeps_pure _
    · exact h.cpSourceFile hdst source dest
  · exact Effect.keeps_raise _

include hsrc hdst in
theorem cp (h : KeptByCopy src dst force R) (fuel : ℕ) (sources : List PosixPath) (dest : PosixPath)
    (recursive : Bool) : Effect.Keeps R (cp src dst force fuel sources dest recursive) := by
  apply (h.looks (hdst.pathExists dest)).bind
  intro destExists
  apply (h.looks (sameDisks_isDestDir hdst dest destExists)).bind
  intro directory
  have hloop : Effect.Keeps R
      (Effect.forEach (Files.cpSource src dst force fuel recursive dest) sources) :=
    Effect.Keeps.forEach fun source _ => h.cpSource hsrc hdst fuel recursive dest source
  split
  · exact Effect.keeps_raise _
  · split
    · exact (h.makeDest hdst dest).bind fun _ => hloop
    · exact (Effect.keeps_pure ()).bind fun _ => hloop

end KeptByCopy

end Kept

/-! ## Copies that only add nodes -/

/-- On every machine, every node is still there. -/
def Keeping (w w' : World) : Prop := ∀ host, (w.disk host).Persists (w'.disk host)

instance : Std.Refl Keeping := ⟨fun w host => refl_of FileSystem.Persists (w.disk host)⟩

instance : IsTrans World Keeping :=
  ⟨fun _ _ _ hfirst hsecond host => trans_of FileSystem.Persists (hfirst host) (hsecond host)⟩

section Keeping

variable {α : Type} {m : Call α} {side : Side} {w w' : World}

/-- Disks that are the same keep what they hold. -/
theorem SameDisks.keeping (h : SameDisks w w') : Keeping w w' := fun host => by
  rw [SameDisks] at h
  rw [h]
  exact refl_of FileSystem.Persists _

theorem keeping_insert {follow : Bool} {path : PosixPath} {parent : Loc} {name : Name} {node : Node}
    (habsent : (w.fs side).lookup side.cwd follow path = .absent parent name)
    (hdisk : w'.disk = Function.update w.disk side.host ((w.fs side).insert parent name node)) :
    Keeping w w' := by
  intro host
  obtain ⟨-, hnone, -⟩ := FileSystem.lookup_absent habsent
  rw [hdisk]
  by_cases hhost : host = side.host
  · subst hhost
    rw [Function.update_self]
    exact FileSystem.persists_insert hnone
  · rw [Function.update_of_ne hhost]
    exact refl_of FileSystem.Persists _

theorem keeping_of_puts {follow : Bool} {path : PosixPath} {run : Except Fault Unit × World}
    {isNew : Node → Prop}
    (h : PutsOrFails side w run ((w.fs side).lookup side.cwd follow path) isNew) :
    Keeping w run.2 := by
  rcases h with ⟨hsame, -⟩ | ⟨parent, name, node, habsent, -, hdisk⟩
  · exact hsame.keeping
  · exact keeping_insert habsent hdisk

end Keeping

section NoClobber

variable {src dst : PathOps} {srcSide dstSide : Side}
  {srcAddress dstAddress : PosixPath → PosixPath}
  {srcCopied dstCopied : PosixPath → PosixPath → PosixPath}
  {srcLists dstLists : PosixPath → List Name → Prop} {source : PosixPath}
  (hsrc : src.Serves srcSide srcAddress srcCopied srcLists)
  (hdst : dst.Serves dstSide dstAddress dstCopied dstLists)

include hsrc hdst in
/-- A file that is read and written where nothing was found before. -/
theorem keeping_write {w : World} {path : PosixPath}
    (hnone : ¬ ∃ loc node, Sees dstSide true w (dstAddress path) loc node) :
    Keeping w ((src.readBytes source >>= fun data => dst.writeBytes path data) w).2 := by
  rw [Effect.bind_apply]
  have hread := hsrc.readBytes source w
  rcases hrun : src.readBytes source w with ⟨e | data, w₁⟩
  · rw [hrun] at hread
    exact hread.keeping
  · rw [hrun] at hread
    have hsame : w₁.fs dstSide = w.fs dstSide := hread.fs dstSide
    refine trans_of Keeping hread.keeping (keeping_of_puts (hdst.writeBytes path data w₁ ?_))
    simpa only [Sees, hsame] using hnone

include hsrc hdst in
/-- A file is written only where the destination does not exist. -/
theorem keeping_writeUnless {w w₁ : World} {path : PosixPath} {there : Bool}
    (hexists : dst.pathExists path w = (.ok there, w₁)) (hthere : there = false) :
    Keeping w₁ ((src.readBytes source >>= fun data => dst.writeBytes path data) w₁).2 := by
  apply keeping_write hsrc hdst
  have hsame : w₁.fs dstSide = w.fs dstSide := by
    have hkept := (hdst.pathExists path).of_run hexists
    exact hkept.fs dstSide
  have hnone := (hdst.pathExists_ok hexists).not.mp (by simp [hthere])
  simpa only [Sees, hsame] using hnone

include hsrc hdst in
/-- Without `force`, every part of a copy only adds nodes. -/
theorem keeping_keptByCopy : KeptByCopy src dst false Keeping where
  same _ _ hsame := hsame.keeping
  mkdir path mode w := keeping_of_puts (hdst.mkdir path mode w)
  symlinkTo path target w := keeping_of_puts (hdst.symlinkTo path target w)
  write hexists hwrites :=
    keeping_writeUnless hsrc hdst hexists (hwrites.resolve_right Bool.false_ne_true)

end NoClobber

/-- Without `force`, a copy only adds nodes, however it ends. -/
theorem keeping_copy (env : Environment) (direction : Direction) (fuel : ℕ)
    (sources : List PosixPath) (dest : PosixPath) (recursive : Bool) :
    Effect.Keeps Keeping (env.copy direction fuel sources dest recursive false) := by
  have hlocal := localPath_serves env
  have hremote := remotePath_serves env
  cases direction with
  | push => exact (keeping_keptByCopy hlocal hremote).cp hlocal hremote fuel sources dest recursive
  | pull => exact (keeping_keptByCopy hremote hlocal).cp hremote hlocal fuel sources dest recursive

/-- Every regular file that a path led to is still there, with the same content. -/
def KeepsFiles (side : Side) (w w' : World) : Prop :=
  ∀ path loc content, Sees side true w path loc (.file content) →
    Sees side true w' path loc (.file content)

/-- A copy without `force` leaves every regular file of the side that is copied to,
under the destination or not. -/
theorem copy_keepsFiles (env : Environment) (direction : Direction) (fuel : ℕ)
    (sources : List PosixPath) (dest : PosixPath) (recursive : Bool) (w : World) :
    KeepsFiles (env.destSide direction) w
      (env.copy direction fuel sources dest recursive false w).2 := by
  intro path loc content hsees
  have hkept := keeping_copy env direction fuel sources dest recursive w
    (env.destSide direction).host
  exact ⟨hkept.lookup hsees.1, hkept.node_of_not_dir hsees.2 rfl⟩

end RpcProject.Files
