/-
# The calls of a copy

`_cp_dir` makes the directory that it copies to, lists the one that it copies, and
calls itself for each directory in the list. A recursive `cp` makes such a call for
each of its sources that is a directory, when the sources before have been copied.

A copy ends if each call that it makes does. Whichever calls it makes, it only makes
nodes without entries and replaces the content of files.
-/

import RpcProject.Files.Copy
import RpcProject.Files.Growth
import RpcProject.Foundations.Recursion

namespace RpcProject.Files

open Foundations Server

/-! ## Kinds of path objects -/

/-- The two classes of paths. -/
inductive PathKind
  | path
  | remotePath
  deriving DecidableEq, Repr

/-- The path that a call is made with. -/
def PathKind.address : PathKind → PosixPath → PosixPath
  | .path => PosixPath.normalise
  | .remotePath => id

namespace Environment

variable (env : Environment)

/-- The operations of a path. -/
def ops : PathKind → PathOps
  | .path => localPath env
  | .remotePath => remotePath env

/-- Where it is. -/
def side : PathKind → Side
  | .path => env.client
  | .remotePath => env.server

end Environment

/-! ## The calls of a copy -/

section Calls

variable (src dst : PathOps) (force : Bool)

/-- A call of `_cp_dir` and the state in which it starts. -/
structure CopyCall where
  source : PosixPath
  dest : PosixPath
  world : World

/-- A call of `_cp_dir` that a recursive `cp` makes. -/
inductive Starts (sources : List PosixPath) (dest : PosixPath) (w : World) : CopyCall → Prop
  | source {before after : List PosixPath} {source : PosixPath} {fuel : ℕ} {w₁ w₂ w₃ w₄ w₅ : World}
      (ready : cpReady dst sources dest w = (.ok (), w₁))
      (split : sources = before ++ source :: after)
      (copied : Effect.forEach (cpSource src dst force fuel true dest) before w₁ = (.ok (), w₂))
      (there : src.pathExists source w₂ = (.ok true, w₃))
      (directory : src.isDir source w₃ = (.ok true, w₄))
      (placed : makePlace src dst source (dest.child source.name) w₄ = (.ok (), w₅)) :
      Starts sources dest w ⟨source, dest.child source.name, w₅⟩

/-- A call of `_cp_dir` that a call of `_cp_dir` makes. -/
inductive Enters (c : CopyCall) : CopyCall → Prop
  | entry {files before after : List PosixPath} {srcFile : PosixPath} {fuel mode : ℕ}
      {w₁ w₂ w₃ w₄ : World} (made : makeMissing src dst c.source c.dest c.world = (.ok (), w₁))
      (listed : src.iterdir c.source w₁ = (.ok files, w₂))
      (split : files = before ++ srcFile :: after)
      (copied : Effect.forEach (cpEntry src dst force (cpDir src dst force fuel) c.dest) before w₂ =
        (.ok (), w₃))
      (status : src.lstat srcFile w₃ = (.ok mode, w₄)) (directory : Node.fileType mode = sIfdir) :
      Enters c ⟨srcFile, c.dest.child srcFile.name, w₄⟩

/-- The recursion of a call ends. -/
def CopyCall.Ends (c : CopyCall) : Prop :=
  Effect.Ends (fun fuel => cpDir src dst force fuel c.source c.dest) c.world

end Calls

section Recursion

variable {src dst : PathOps} {force : Bool} {c : CopyCall} {sources : List PosixPath}
  {source dest : PosixPath} {w : World}

/-- A call ends if the calls that it makes do. -/
theorem CopyCall.ends_of_enters (hcalls : ∀ c', Enters src dst force c c' → c'.Ends src dst force) :
    c.Ends src dst force := by
  refine Effect.Ends.succ (Effect.Ends.bind_const fun _ w₁ hmade => Effect.Ends.bind_const
    fun files w₂ hlisted =>
      Effect.Ends.forEach fun before srcFile after fuel w₃ hsplit hcopied => ?_)
  apply Effect.Ends.bind_const
  intro mode w₄ hmode
  -- only an entry that is a directory makes a call
  by_cases hdir : Node.fileType mode = sIfdir
  · simp only [if_pos hdir]
    exact hcalls _ (.entry hmade hlisted hsplit hcopied hmode hdir)
  · simp only [if_neg hdir]
    exact Effect.ends_const _ w₄

/-- A copy ends if the calls that it makes do. -/
theorem ends_cp (hcalls : ∀ c, Starts src dst force sources dest w c → c.Ends src dst force) :
    Effect.Ends (fun fuel => cp src dst force fuel sources dest true) w := by
  simp only [cp_eq]
  refine Effect.Ends.bind_const fun _ w₁ hready =>
    Effect.Ends.forEach fun before source after fuel w₂ hsplit hcopied => ?_
  apply Effect.Ends.bind_const
  intro there w₃ hthere
  -- a source that does not exist raises
  cases there with
  | false => exact Effect.ends_const _ w₃
  | true =>
    apply Effect.Ends.bind_const
    intro isDir w₄ hisDir
    -- a source that is a file makes no call
    cases isDir with
    | false => exact Effect.ends_const _ w₄
    | true =>
      simp only [if_true, cpSourceDir_eq]
      exact Effect.Ends.bind_const fun _ w₅ hplaced =>
        hcalls _ (.source hready hsplit hcopied hthere hisDir hplaced)

end Recursion

/-! ## What a copy leaves -/

section Growing

variable {src dst : PathOps} {srcSide dstSide : Side}
  {srcAddress dstAddress : PosixPath → PosixPath}
  {srcCopied dstCopied : PosixPath → PosixPath → PosixPath}
  {srcLists dstLists : PosixPath → List Name → Prop} {force : Bool} {w w' : World}
  (hsrc : src.Serves srcSide srcAddress srcCopied srcLists)
  (hdst : dst.Serves dstSide dstAddress dstCopied dstLists)
  (hwrite : ∀ path data, Effect.Keeps (Growing fun node => node.isDir = false)
    (dst.writeBytes path data))

theorem isLeaf_of_not_dir {node : Node} (hdir : node.isDir = false) : FileSystem.IsLeaf node := by
  cases node with
  | dir order access => cases hdir
  | _ => trivial

/-- What a copy does to the file systems. -/
abbrev Copying : World → World → Prop := Growing FileSystem.IsLeaf

include hdst in
/-- A directory that is made is part of the copying. -/
theorem copying_keptByMaking : KeptByMaking dst Copying where
  same _ _ hsame := hsame.growing
  mkdir path mode w := by
    refine Growing.mono ?_ ((hdst.mkdir path mode w).growing ?_)
    all_goals
      rintro _ ⟨access, rfl⟩
      exact rfl

include hdst in
/-- A link that is made lets the disks grow. -/
theorem growing_symlinkTo (path target : PosixPath) :
    Effect.Keeps (Growing fun node => node.isDir = false) (dst.symlinkTo path target) := by
  intro w
  refine Growing.mono ?_ ((hdst.symlinkTo path target w).growing ?_)
  · rintro _ rfl
    rfl
  · rintro _ rfl
    trivial

include hsrc hwrite in
theorem growing_writes (source dest : PosixPath) :
    Effect.Keeps (Growing fun node => node.isDir = false)
      (src.readBytes source >>= fun data => dst.writeBytes dest data) :=
  Effect.Keeps.bind (fun w => (hsrc.readBytes source w).growing) fun data => hwrite dest data

include hsrc hdst hwrite in
/-- All that a copy makes is part of the copying. -/
theorem copying_keptByCopy : KeptByCopy src dst force Copying where
  toKeptByMaking := copying_keptByMaking hdst
  symlinkTo path target w :=
    (growing_symlinkTo hdst path target w).mono fun _ => isLeaf_of_not_dir
  write _ _ := (growing_writes hsrc hwrite _ _ _).mono fun _ => isLeaf_of_not_dir

include hsrc hdst hwrite in
/-- An entry that is not a directory is copied without making one. -/
theorem growing_cpEntry {mode : ℕ} {recur : PosixPath → PosixPath → Call Unit} {srcFile : PosixPath}
    (dest : PosixPath) (hmode : src.lstat srcFile w = (.ok mode, w'))
    (hdir : Node.fileType mode ≠ sIfdir) :
    Growing (fun node => node.isDir = false) w (cpEntry src dst force recur dest srcFile w).2 := by
  have hsame := (hsrc.lstat srcFile).of_run hmode
  rw [cpEntry, Effect.bind_of_ok hmode, if_neg hdir]
  -- a link is made, or a file is written
  apply trans_of (Growing _) hsame.growing
  split
  · exact Effect.Keeps.bind (fun w => (hsrc.readlink srcFile w).growing)
      (fun target => growing_symlinkTo hdst _ target) w'
  · refine Effect.Keeps.bind (fun w => (hdst.pathExists _ w).growing) (fun there => ?_) w'
    split
    · exact Effect.keeps_pure _
    · exact growing_writes hsrc hwrite srcFile _

include hsrc hdst hwrite in
/-- What has happened when a call is made. -/
theorem Enters.copying {c c' : CopyCall} (h : Enters src dst force c c') :
    Copying c.world c'.world := by
  obtain @⟨files, before, after, srcFile, fuel, mode, w₁, w₂, w₃, w₄, hmade, hlisted, hsplit,
    hcopied, hmode, hdirectory⟩ := h
  have hkept : KeptByCopy src dst force Copying := copying_keptByCopy hsrc hdst hwrite
  have hcopying₁ := (hkept.makeMissing hsrc hdst c.source c.dest).of_run hmade
  have hsame₂ := (hsrc.iterdir c.source).of_run hlisted
  have hentry (file : PosixPath) : Effect.Keeps Copying
      (cpEntry src dst force (cpDir src dst force fuel) c.dest file) :=
    hkept.cpEntry hsrc hdst (hkept.cpDir hsrc hdst fuel) c.dest file
  have hcopying₃ := (Effect.Keeps.forEach fun file _ => hentry file).of_run hcopied
  have hsame₄ := (hsrc.lstat srcFile).of_run hmode
  exact trans_of Copying hcopying₁
    (trans_of Copying hsame₂.growing (trans_of Copying hcopying₃ hsame₄.growing))

include hsrc hdst hwrite in
/-- A call for a source comes after what was copied before. -/
theorem Starts.copying {sources : List PosixPath} {dest : PosixPath} {c : CopyCall}
    (h : Starts src dst force sources dest w c) : Copying w c.world ∧
      ∃ loc node, Sees srcSide true c.world (srcAddress c.source) loc node := by
  obtain @⟨before, after, source, fuel, w₁, w₂, w₃, w₄, w₅, hready, hsplit, hcopied, hthere,
    hdirectory, hplaced⟩ := h
  have hkept : KeptByCopy src dst force Copying := copying_keptByCopy hsrc hdst hwrite
  have hcopying₁ := (hkept.cpReady hdst sources dest).of_run hready
  have hsource (source : PosixPath) :
      Effect.Keeps Copying (cpSource src dst force fuel true dest source) :=
    hkept.cpSource hsrc hdst fuel true dest source
  have hcopying₂ := (Effect.Keeps.forEach fun source _ => hsource source).of_run hcopied
  have hsame₃ := (hsrc.pathExists source).of_run hthere
  have hsame₄ := (hsrc.isDir source).of_run hdirectory
  have hcopying₅ := (hkept.makePlace hsrc hdst source (dest.child source.name)).of_run hplaced
  have hcopying : Copying w₂ w₅ :=
    trans_of Copying (trans_of SameDisks hsame₃ hsame₄).growing hcopying₅
  obtain ⟨loc, node, hlookup, hnode⟩ := (hsrc.pathExists_ok hthere).mp rfl
  obtain ⟨node', hnode'⟩ := (hcopying srcSide.host).exists_node hnode
  exact ⟨trans_of Copying hcopying₁ (trans_of Copying hcopying₂ hcopying),
    loc, node', (hcopying srcSide.host).lookup hlookup, hnode'⟩

end Growing

end RpcProject.Files
