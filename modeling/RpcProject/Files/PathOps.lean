/-
# The operations of path objects

The client copies files between path objects of two kinds, whose operations have
the same names: `pathlib.Path` on its own machine, and `RemotePath`, each of whose
operations is one or more calls on the server. Every call takes one step of a
clock. It acts on the file system of its machine or fails there, and it may
raise an exception of its own, before or after it has had its effect. Only
`stat` fails just where there is nothing to find.

Files are read and written in pieces that the kernel chooses.
-/

import RpcProject.Files.PurePath
import RpcProject.Files.Traversal
import RpcProject.Foundations.Chunks

namespace RpcProject.Files

open Foundations Server

/-! ## Machines -/

/-- The file systems of the machines, and the number of calls so far. -/
structure World where
  disk : ℕ → FileSystem
  clock : ℕ

/-- A process that makes calls: its machine, working directory and file creation mask. -/
structure Side where
  host : ℕ
  cwd : Loc
  umask : ℕ

/-- What the calls of a session depend on. The client and the server may run on one
machine. -/
structure Environment where
  client : Side
  server : Side
  platform : Platform
  /-- the errors that the tests of `pathlib` take for an absent path -/
  ignored : Errno → Bool
  /-- the exception of its own that a call raises, and whether it has had its effect -/
  fault : ℕ → Option (Fault × Bool)
  /-- the pieces in which bytes are read or written from a time on -/
  pieces : ℕ → (bytes : Bytes) → Fragmentation bytes
  /-- what a special file yields to a reader -/
  device : ℕ → Bytes
  /-- what is read of the target of a link that does not fit the buffer -/
  overread : PosixPath → PosixPath

namespace World

/-- The file system of a side. -/
def fs (w : World) (side : Side) : FileSystem := w.disk side.host

/-- Time goes on. -/
def tick (w : World) : World := { w with clock := w.clock + 1 }

/-- The world with another file system on a machine, one call later. -/
def put (w : World) (side : Side) (fs : FileSystem) : World :=
  ⟨Function.update w.disk side.host fs, w.clock + 1⟩

end World

/-- A call on the disks. -/
abbrev Call := Effect World Fault

/-! ## Calls -/

section Calls

variable (env : Environment) (side : Side) {α : Type}

/-- A call that changes the file system, or fails and leaves it. -/
def act (message : String) (f : FileSystem → Except Errno (α × FileSystem)) : Call α := fun w =>
  match f (w.fs side), env.fault w.clock with
  | .ok (a, fs), none => (.ok a, w.put side fs)
  -- the reply is lost, after the call has had its effect or before
  | .ok (_, fs), some (e, done) => (.error e, if done then w.put side fs else w.tick)
  | .error errno, none => (.error (.errno errno message), w.tick)
  | .error _, some (e, _) => (.error e, w.tick)

/-- A call that leaves the file system. -/
def look (f : FileSystem → Except Fault α) : Call α := fun w =>
  match env.fault w.clock with
  | none => (f (w.fs side), w.tick)
  | some (e, _) => (.error e, w.tick)

/-- A call of `stat`. -/
def status (path : PosixPath) : Call (Except Errno ℕ) := fun w =>
  (.ok ((w.fs side).stat side.cwd true path), w.tick)

/-- The time. -/
def now : Call ℕ := Effect.ask fun w => .ok w.clock

/-- Run a body and close what it works on, also when it raises. -/
def closing (body : Call α) : Call α := do
  let result ← Effect.attempt body
  look env side fun _ => .ok ()
  match result with
  | .ok a => pure a
  | .error e => Effect.raise e

/-- The error of a call, with a message. -/
def failing (message : String) (result : Except Errno α) : Except Fault α :=
  result.mapError fun errno => .errno errno message

/-- `stat` and `lstat` -/
def statCall (follow : Bool) (path : PosixPath) : Call ℕ :=
  look env side fun fs => failing ("failed to stat(): " ++ path.text) (fs.stat side.cwd follow path)

/-- The loop of `File.read`: a call for each piece, and one that finds the end. -/
def readUsingChunk : List Bytes → Call Bytes
  | [] => look env side fun _ => .ok []
  | piece :: pieces => do
      let chunk ← look env side fun _ => .ok piece
      let rest ← readUsingChunk pieces
      return chunk ++ rest

/-- `read_bytes` -/
def readBytes (path : PosixPath) : Call Bytes := do
  let content ← look env side fun fs =>
    failing ("failed to open: " ++ path.text) (fs.openRead side.cwd path)
  closing env side do
    let time ← now
    readUsingChunk env side (env.pieces time (content.getD (env.device time))).chunks

/-- The loop of `File.write`: a call for each piece. -/
def write (loc : Loc) : List Bytes → Call Unit :=
  Effect.forEach fun piece =>
    act env side "failed to write" fun fs => .ok ((), fs.append loc piece)

/-- `write_bytes` -/
def writeBytes (path : PosixPath) (data : Bytes) : Call Unit := do
  let loc ← act env side ("failed to open: " ++ path.text) fun fs => fs.openWrite side.cwd path
  closing env side do
    let time ← now
    write env side loc (env.pieces time data).chunks

/-- The bits of a mode that the file creation mask leaves. -/
def masked (mode : ℕ) : ℕ := mode - (mode &&& side.umask)

/-- `mkdir` -/
def mkdirCall (path : PosixPath) (mode : ℕ) : Call Unit :=
  act env side ("failed to mkdir: " ++ path.text) fun fs =>
    (fs.mkdir side.cwd path (masked side mode)).map fun fs' => ((), fs')

/-- `chmod` -/
def chmodCall (path : PosixPath) (mode : ℕ) : Call Unit :=
  act env side ("failed to chmod: " ++ path.text) fun fs =>
    (fs.chmod side.cwd path mode).map fun fs' => ((), fs')

/-- `symlink_to` -/
def symlinkCall (target path : PosixPath) : Call Unit :=
  act env side ("symlink failed to create link: " ++ path.text ++ "->" ++ target.text) fun fs =>
    (fs.symlink side.cwd target path).map fun fs' => ((), fs')

/-- `readlink` -/
def readlinkCall (path : PosixPath) : Call PosixPath :=
  look env side fun fs => failing ("readlink failed for: " ++ path.text) (fs.readlink side.cwd path)

end Calls

/-! ## Path objects -/

/-- The operations of a kind of path objects that the copy uses. -/
structure PathOps where
  pathExists : PosixPath → Call Bool
  isDir : PosixPath → Call Bool
  mkdir : PosixPath → ℕ → Call Unit
  lstat : PosixPath → Call ℕ
  stat : PosixPath → Call ℕ
  readlink : PosixPath → Call PosixPath
  symlinkTo : PosixPath → PosixPath → Call Unit
  readBytes : PosixPath → Call Bytes
  writeBytes : PosixPath → Bytes → Call Unit
  iterdir : PosixPath → Call (List PosixPath)

/-- `pathlib.Path`, on the client's machine. -/
def localPath (env : Environment) : PathOps where
  pathExists path := do
    match ← status env.client path.normalise with
    | .ok _ => pure true
    | .error errno =>
        if env.ignored errno then pure false
        else Effect.raise (.errno errno ("stat: " ++ path.normalise.text))
  isDir path := do
    match ← status env.client path.normalise with
    | .ok mode => pure (Node.fileType mode = sIfdir)
    | .error errno =>
        if env.ignored errno then pure false
        else Effect.raise (.errno errno ("stat: " ++ path.normalise.text))
  mkdir path mode := mkdirCall env env.client path.normalise mode
  lstat path := statCall env env.client false path.normalise
  stat path := statCall env env.client true path.normalise
  readlink path := readlinkCall env env.client path.normalise
  symlinkTo path target := symlinkCall env env.client target.normalise path.normalise
  readBytes path := readBytes env env.client path.normalise
  writeBytes path data := writeBytes env env.client path.normalise data
  iterdir path := look env env.client fun fs =>
    failing ("listdir: " ++ path.normalise.text)
      ((fs.readdir env.client.cwd path.normalise).map fun entries =>
        (FileSystem.children entries.2).map path.child)

/-- The size of the buffer for the target of a link. -/
def maxpathlen : ℕ := 1024

/-- What the client reads of the target of a link on the server. -/
def peeked (env : Environment) (target : PosixPath) : PosixPath :=
  if target.text.utf8ByteSize < maxpathlen then target else env.overread target

/-- `Fs.readlink`, which takes the target from the directory of the link. -/
def fsReadlink (env : Environment) (path : PosixPath) : Call PosixPath := do
  -- a target that fills the buffer has no end mark, so more than the target may be read
  let target ← readlinkCall env env.server path
  return (path.parent.joinPath (peeked env target)).normalise

/-- `Fs._mkdir` -/
def fsMkdir (env : Environment) (path : PosixPath) (mode : ℕ) : Call Unit := do
  mkdirCall env env.server path mode
  chmodCall env env.server path mode

/-- `RemotePath`. A path exists if `stat` raises nothing, and it is a directory if the
bit of directories is set. -/
def remotePath (env : Environment) : PathOps where
  pathExists path := do
    match ← status env.server path with
    | .ok _ => pure true
    | .error _ => pure false
  isDir path := do
    match ← status env.server path with
    -- block devices and sockets have this bit as well
    | .ok mode => pure (mode &&& sIfdir ≠ 0)
    | .error errno => Effect.raise (.errno errno ("failed to stat(): " ++ path.text))
  mkdir := fsMkdir env
  lstat := statCall env env.server false
  stat := statCall env env.server true
  readlink := fsReadlink env
  symlinkTo path target := symlinkCall env env.server target.normalise path
  readBytes := readBytes env env.server
  writeBytes := writeBytes env env.server
  iterdir path := look env env.server fun fs =>
    (fs.scandir env.platform env.server.cwd path).map fun entries =>
      entries.map fun entry => path.child entry.dName

/-! ## What calls do -/

section Calls

variable {env : Environment} {side : Side} {α : Type} {message : String} {w w' : World}
  {path : PosixPath} {loc parent : Loc} {name : Name} {node : Node}

/-- The two worlds have the same file systems. -/
def SameDisks (w w' : World) : Prop := w'.disk = w.disk

instance : Std.Refl SameDisks := ⟨fun _ => rfl⟩

instance : IsTrans World SameDisks := ⟨fun _ _ _ hfirst hsecond => hsecond.trans hfirst⟩

/-- The file systems are the same when the disks are. -/
theorem SameDisks.fs (h : SameDisks w w') (side : Side) : w'.fs side = w.fs side :=
  congrFun h side.host

/-- What a call that may change a file system leaves. -/
theorem act_cases (env : Environment) (side : Side) (message : String)
    (f : FileSystem → Except Errno (α × FileSystem)) (w : World) :
    SameDisks w (act env side message f w).2 ∧ (∀ a, (act env side message f w).1 ≠ .ok a) ∨
      ∃ a fs, f (w.fs side) = .ok (a, fs) ∧
        (act env side message f w).2.disk = Function.update w.disk side.host fs ∧
        ∀ b, (act env side message f w).1 = .ok b → b = a := by
  rw [act]
  rcases hf : f (w.fs side) with errno | ⟨a, fs⟩
  · cases env.fault w.clock with
    | none => exact Or.inl ⟨rfl, fun a => by simp⟩
    | some fault => exact Or.inl ⟨rfl, fun a => by simp⟩
  · cases env.fault w.clock with
    | none => exact Or.inr ⟨a, fs, rfl, rfl, fun b hb => (Except.ok.inj hb).symm⟩
    | some fault =>
      obtain ⟨e, done⟩ := fault
      cases done with
      | false => exact Or.inl ⟨rfl, fun a => by simp⟩
      | true => exact Or.inr ⟨a, fs, rfl, rfl, fun b hb => by cases hb⟩

theorem keeps_look (f : FileSystem → Except Fault α) :
    Effect.Keeps SameDisks (look env side f) := by
  intro w
  rw [look]
  cases env.fault w.clock <;> rfl

theorem look_eq_ok {f : FileSystem → Except Fault α} {a : α}
    (hrun : look env side f w = (.ok a, w')) :
    f (w.fs side) = .ok a := by
  rw [look] at hrun
  cases hfault : env.fault w.clock with
  | none =>
    rw [hfault] at hrun
    exact congrArg Prod.fst hrun
  | some fault =>
    rw [hfault] at hrun
    cases hrun

theorem keeps_status (path : PosixPath) : Effect.Keeps SameDisks (status side path) := fun _ => rfl

theorem keeps_now : Effect.Keeps SameDisks now := fun _ => rfl

theorem failing_eq_ok_iff {result : Except Errno α} {a : α} :
    failing message result = .ok a ↔ result = .ok a := by
  cases result <;> simp [failing, Except.mapError]

theorem sameDisks_closing (env : Environment) (side : Side) (body : Call α) (w : World) :
    SameDisks (body w).2 (closing env side body w).2 := by
  have hattempt : Effect.attempt body w = (.ok (body w).1, (body w).2) := rfl
  rw [closing, Effect.bind_of_ok hattempt]
  refine Effect.Keeps.bind (keeps_look _) (fun _ => ?_) _
  split
  · exact Effect.keeps_pure _
  · exact Effect.keeps_raise _

/-- A body that is followed by a close has returned. -/
theorem closing_eq_ok {body : Call α} {a : α} (hrun : closing env side body w = (.ok a, w')) :
    ∃ w₁, body w = (.ok a, w₁) ∧ SameDisks w₁ w' := by
  have hsame := sameDisks_closing env side body w
  rw [hrun] at hsame
  rw [closing, Effect.bind_eq_ok_iff] at hrun
  obtain ⟨result, w₁, hattempt, hrest⟩ := hrun
  obtain ⟨_, _, -, hresult⟩ := Effect.bind_eq_ok_iff.mp hrest
  have hbody : body w = (result, w₁) := by
    cases hattempt
    rfl
  cases result with
  | error e => cases hresult
  | ok b =>
    obtain ⟨rfl, -⟩ := Effect.pure_eq_ok_iff.mp hresult
    exact ⟨w₁, hbody, by rwa [hbody] at hsame⟩

/-! ## Reading -/

theorem keeps_readUsingChunk (pieces : List Bytes) :
    Effect.Keeps SameDisks (readUsingChunk env side pieces) := by
  induction pieces with
  | nil => exact keeps_look _
  | cons piece pieces ih =>
    exact (keeps_look _).bind fun _ => ih.bind fun _ => Effect.keeps_pure _

/-- The loop returns all pieces. -/
theorem readUsingChunk_eq_ok {pieces : List Bytes} {bytes : Bytes}
    (hrun : readUsingChunk env side pieces w = (.ok bytes, w')) : bytes = pieces.flatten := by
  induction pieces generalizing w w' bytes with
  | nil => exact (Except.ok.inj (look_eq_ok (f := fun _ => .ok []) hrun)).symm
  | cons piece pieces ih =>
    obtain ⟨chunk, _, hchunk, hrun⟩ := Effect.bind_eq_ok_iff.mp hrun
    obtain ⟨rest, _, hrest, hrun⟩ := Effect.bind_eq_ok_iff.mp hrun
    obtain ⟨rfl, -⟩ := Effect.pure_eq_ok_iff.mp hrun
    have hpiece := Except.ok.inj (look_eq_ok (f := fun _ => .ok piece) hchunk)
    rw [← hpiece, ih hrest, List.flatten_cons]

theorem keeps_readBytes (path : PosixPath) : Effect.Keeps SameDisks (readBytes env side path) := by
  refine (keeps_look _).bind fun _ w => trans_of SameDisks ?_ (sameDisks_closing _ _ _ w)
  exact keeps_now.bind (fun _ => keeps_readUsingChunk _) w

/-- What a path leads to. -/
def Sees (side : Side) (follow : Bool) (w : World) (path : PosixPath) (loc : Loc) (node : Node) :
    Prop :=
  (w.fs side).lookup side.cwd follow path = .found loc ∧ (w.fs side).node loc = some node

theorem nodeAt_eq_ok_iff {follow : Bool} : (w.fs side).nodeAt side.cwd follow path = .ok node ↔
    ∃ loc, Sees side follow w path loc node := by
  rw [FileSystem.nodeAt]
  simp only [Sees]
  cases hlookup : (w.fs side).lookup side.cwd follow path with
  | found loc => cases hnode : (w.fs side).node loc <;> simp [hnode]
  | absent parent name => simp
  | failed errno => simp

theorem readBytes_eq_ok {bytes : Bytes} (hrun : readBytes env side path w = (.ok bytes, w')) :
    ∃ loc node, Sees side true w path loc node ∧ node.isDir = false ∧
      ∀ content, node = .file content → bytes = content := by
  obtain ⟨content, w₁, hopen, hrun⟩ := Effect.bind_eq_ok_iff.mp hrun
  obtain ⟨_, hrun, -⟩ := closing_eq_ok hrun
  obtain ⟨time, _, -, hrun⟩ := Effect.bind_eq_ok_iff.mp hrun
  have hbytes := readUsingChunk_eq_ok hrun
  rw [(env.pieces time _).flatten] at hbytes
  have hread := failing_eq_ok_iff.mp (look_eq_ok hopen)
  rw [FileSystem.openRead] at hread
  split at hread
  · next bytes' hnode =>
    cases hread
    obtain ⟨loc, hsees⟩ := nodeAt_eq_ok_iff.mp hnode
    exact ⟨loc, _, hsees, rfl, fun content h => hbytes.trans (Node.file.inj h)⟩
  · cases hread
  · next node hfile hdir hnode =>
    obtain ⟨loc, hsees⟩ := nodeAt_eq_ok_iff.mp hnode
    refine ⟨loc, node, hsees, ?_, fun content h => (hfile content h).elim⟩
    cases node with
    | dir order access => exact (hdir order access rfl).elim
    | file content => rfl
    | link target => rfl
    | special kind => rfl
  · cases hread

end Calls

/-! ## Writing -/

section Writing

variable {env : Environment} {side : Side} {w w' : World} {path : PosixPath} {loc parent : Loc}
  {name : Name} {node : Node}

/-- A node has been put where a lookup has found a name missing. -/
def Puts (side : Side) (w w' : World) (result : Lookup) (isNew : Node → Prop) : Prop :=
  ∃ parent name node, result = .absent parent name ∧ isNew node ∧
    w'.disk = Function.update w.disk side.host ((w.fs side).insert parent name node)

/-- A call, or a few, have changed nothing and returned nothing, or have put a node. -/
def PutsOrFails (side : Side) (w : World) (run : Except Fault Unit × World) (result : Lookup)
    (isNew : Node → Prop) : Prop :=
  SameDisks w run.2 ∧ run.1 ≠ .ok () ∨ Puts side w run.2 result isNew

theorem create_eq_ok {fs fs' : FileSystem} (hcreate : fs.create parent name node = .ok fs') :
    fs' = fs.insert parent name node := by
  rw [FileSystem.create] at hcreate
  split at hcreate
  · exact (Except.ok.inj hcreate).symm
  · cases hcreate

theorem mkdir_eq_ok {fs fs' : FileSystem} {cwd : Loc} {mode : ℕ}
    (hmkdir : fs.mkdir cwd path mode = .ok fs') :
    ∃ parent name, fs.lookup cwd false path.strip = .absent parent name ∧
      fs' = fs.insert parent name (.dir [".", ".."] (.ofMode mode)) := by
  rw [FileSystem.mkdir] at hmkdir
  split at hmkdir
  · cases hmkdir
  · next parent name habsent => exact ⟨parent, name, habsent, create_eq_ok hmkdir⟩
  · cases hmkdir

theorem symlink_eq_ok {fs fs' : FileSystem} {cwd : Loc} {target : PosixPath}
    (hsymlink : fs.symlink cwd target path = .ok fs') :
    ∃ parent name, fs.lookup cwd false path = .absent parent name ∧
      fs' = fs.insert parent name (.link target) := by
  rw [FileSystem.symlink] at hsymlink
  split at hsymlink
  · cases hsymlink
  · next parent name habsent => exact ⟨parent, name, habsent, create_eq_ok hsymlink⟩
  · cases hsymlink

theorem map_eq_ok {α β ε : Type} {f : α → β} {x : Except ε α} {b : β} (hmap : x.map f = .ok b) :
    ∃ a, x = .ok a ∧ b = f a := by
  cases x with
  | error e => cases hmap
  | ok a => exact ⟨a, rfl, (Except.ok.inj hmap).symm⟩

/-- A directory is put where nothing was. -/
theorem mkdirCall_puts (env : Environment) (side : Side) (path : PosixPath) (mode : ℕ) (w : World) :
    PutsOrFails side w (mkdirCall env side path mode w)
      ((w.fs side).lookup side.cwd false path.strip)
      fun node => ∃ access, node = .dir [".", ".."] access := by
  rcases act_cases env side ("failed to mkdir: " ++ path.text) (fun fs =>
      (fs.mkdir side.cwd path (masked side mode)).map fun fs' => ((), fs')) w with
    ⟨hsame, hfails⟩ | ⟨_, _, hmkdir, hdisk, -⟩
  · exact Or.inl ⟨hsame, hfails ()⟩
  · obtain ⟨fs', hmkdir, hpair⟩ := map_eq_ok hmkdir
    cases hpair
    obtain ⟨parent, name, habsent, rfl⟩ := mkdir_eq_ok hmkdir
    exact Or.inr ⟨parent, name, _, habsent, ⟨_, rfl⟩, hdisk⟩

theorem symlinkCall_puts (target path : PosixPath) (w : World) :
    PutsOrFails side w (symlinkCall env side target path w)
      ((w.fs side).lookup side.cwd false path) (· = .link target) := by
  rcases act_cases env side
    ("symlink failed to create link: " ++ path.text ++ "->" ++ target.text)
    (fun fs => (fs.symlink side.cwd target path).map fun fs' => ((), fs')) w with
    ⟨hsame, hfails⟩ | ⟨_, _, hsymlink, hdisk, -⟩
  · exact Or.inl ⟨hsame, hfails ()⟩
  · obtain ⟨fs', hsymlink, hpair⟩ := map_eq_ok hsymlink
    cases hpair
    obtain ⟨parent, name, habsent, rfl⟩ := symlink_eq_ok hsymlink
    exact Or.inr ⟨parent, name, _, habsent, rfl, hdisk⟩

/-- Changing the mode of the directory that has just been made. -/
theorem chmod_insert {fs fs' : FileSystem} {cwd : Loc} {mode : ℕ} {access : Access}
    (habsent : fs.lookup cwd false path.strip = .absent parent name)
    (hchmod : (fs.insert parent name (.dir [".", ".."] access)).chmod cwd path mode = .ok fs') :
    fs' = fs.insert parent name (.dir [".", ".."] (.ofMode mode)) := by
  have hnode : (fs.insert parent name (.dir [".", ".."] access)).node (parent ++ [name]) =
      some (.dir [".", ".."] access) := by rw [FileSystem.insert_node, if_pos rfl]
  rw [FileSystem.chmod, FileSystem.lookup_insert_dir habsent] at hchmod
  simp only [hnode, Except.ok.injEq] at hchmod
  rw [← hchmod]
  exact FileSystem.ext (Function.update_idem ..) rfl

theorem fs_of_update {fs : FileSystem} (hdisk : w'.disk = Function.update w.disk side.host fs) :
    w'.fs side = fs := by
  rw [World.fs, hdisk, Function.update_self]

/-- `Fs._mkdir` makes a directory, whatever becomes of the call of `chmod`. -/
theorem fsMkdir_puts (path : PosixPath) (mode : ℕ) (w : World) :
    PutsOrFails env.server w (fsMkdir env path mode w)
      ((w.fs env.server).lookup env.server.cwd false path.strip)
      fun node => ∃ access, node = .dir [".", ".."] access := by
  have hmkdir := mkdirCall_puts env env.server path mode w
  rcases hrun : mkdirCall env env.server path mode w with ⟨e | ⟨⟩, w₁⟩
  · rw [fsMkdir, Effect.bind_of_error hrun]
    rwa [hrun] at hmkdir
  · rw [fsMkdir, Effect.bind_of_ok hrun]
    rw [hrun] at hmkdir
    rcases hmkdir with ⟨-, hfails⟩ | ⟨parent, name, _, habsent, ⟨access, rfl⟩, hdisk⟩
    · exact absurd rfl hfails
    · -- the directory has been made, with the mode of the one call or the other
      apply Or.inr
      rcases act_cases env env.server ("failed to chmod: " ++ path.text) (fun fs =>
          (fs.chmod env.server.cwd path mode).map fun fs' => ((), fs')) w₁ with
        ⟨hsame, -⟩ | ⟨_, _, hchmod, hdisk', -⟩
      · exact ⟨parent, name, _, habsent, ⟨access, rfl⟩, hsame.trans hdisk⟩
      · obtain ⟨fs', hchmod, hpair⟩ := map_eq_ok hchmod
        cases hpair
        rw [fs_of_update hdisk] at hchmod
        refine ⟨parent, name, _, habsent, ⟨.ofMode mode, rfl⟩, ?_⟩
        rw [chmodCall, hdisk', chmod_insert habsent hchmod, hdisk, Function.update_idem]

theorem append_insert (fs : FileSystem) (parent : Loc) (name : Name) (content bytes : Bytes) :
    (fs.insert parent name (.file content)).append (parent ++ [name]) bytes =
      fs.insert parent name (.file (content ++ bytes)) := by
  have hnode : (fs.insert parent name (.file content)).node (parent ++ [name]) =
      some (.file content) := by rw [FileSystem.insert_node, if_pos rfl]
  rw [FileSystem.append, hnode]
  exact FileSystem.ext (Function.update_idem ..) rfl

/-- The loop of `File.write` fills the file that has just been made. -/
theorem write_fills (pieces : List Bytes) {w₀ : World} {content : Bytes}
    (hdisk : w.disk = Function.update w₀.disk side.host
      ((w₀.fs side).insert parent name (.file content))) :
    ∃ content', (write env side (parent ++ [name]) pieces w).2.disk =
        Function.update w₀.disk side.host ((w₀.fs side).insert parent name (.file content')) ∧
      ((write env side (parent ++ [name]) pieces w).1 = .ok () →
        content' = content ++ pieces.flatten) := by
  -- each call appends its piece to what the file holds so far, and the first that raises is the
  -- last
  induction pieces generalizing w content with
  | nil => exact ⟨content, hdisk, fun _ => (List.append_nil content).symm⟩
  | cons piece pieces ih =>
    have hact := act_cases env side "failed to write"
      (fun fs => .ok ((), fs.append (parent ++ [name]) piece)) w
    rcases hrun : act env side "failed to write"
      (fun fs => .ok ((), fs.append (parent ++ [name]) piece)) w with ⟨e | ⟨⟩, w₁⟩
    · rw [write, Effect.forEach, Effect.bind_of_error hrun]
      rw [hrun] at hact
      rcases hact with ⟨hsame, -⟩ | ⟨_, _, happend, hdisk', -⟩
      · exact ⟨content, hsame.trans hdisk, fun h => by cases h⟩
      · cases happend
        -- the piece has been written, and the call raises afterwards
        refine ⟨content ++ piece, ?_, fun h => by cases h⟩
        rw [hdisk', fs_of_update hdisk, append_insert, hdisk, Function.update_idem]
    · rw [write, Effect.forEach, Effect.bind_of_ok hrun]
      rw [hrun] at hact
      rcases hact with ⟨-, hfails⟩ | ⟨_, _, happend, hdisk', -⟩
      · exact absurd rfl (hfails ())
      · cases happend
        rw [fs_of_update hdisk, append_insert, hdisk, Function.update_idem] at hdisk'
        obtain ⟨content', hdisk'', hwhole⟩ := ih hdisk'
        exact ⟨content', hdisk'', fun hok => by
          rw [hwhole hok, List.flatten_cons, List.append_assoc]⟩

/-- A file that was not there is made empty. -/
theorem openWrite_eq_ok {fs fs' : FileSystem} {cwd : Loc}
    (hnone : ¬ ∃ loc node, fs.lookup cwd true path = .found loc ∧ fs.node loc = some node)
    (hopen : fs.openWrite cwd path = .ok (loc, fs')) :
    ∃ parent name, fs.lookup cwd true path = .absent parent name ∧ loc = parent ++ [name] ∧
      fs' = fs.insert parent name (.file []) := by
  rw [FileSystem.openWrite] at hopen
  cases hlookup : fs.lookup cwd true path with
  | found loc =>
    cases hnode : fs.node loc with
    | some node => exact absurd ⟨loc, node, hlookup, hnode⟩ hnone
    | none => simp [hlookup, hnode] at hopen
  | absent parent name =>
    rw [hlookup] at hopen
    obtain ⟨made, hcreate, hpair⟩ := map_eq_ok hopen
    cases hpair
    exact ⟨parent, name, rfl, rfl, create_eq_ok hcreate⟩
  | failed errno => simp [hlookup] at hopen

/-- Writing to a path that leads to nothing makes a file, whole or cut off. -/
theorem writeBytes_puts {data : Bytes} (hnone : ¬ ∃ loc node, Sees side true w path loc node) :
    PutsOrFails side w (writeBytes env side path data w)
      ((w.fs side).lookup side.cwd true path)
      fun node => ∃ content, node = .file content ∧
        ((writeBytes env side path data w).1 = .ok () → content = data) := by
  have hact := act_cases env side ("failed to open: " ++ path.text)
    (fun fs => fs.openWrite side.cwd path) w
  rcases hrun : act env side ("failed to open: " ++ path.text)
    (fun fs => fs.openWrite side.cwd path) w with ⟨e | loc, w₁⟩
  · rw [writeBytes, Effect.bind_of_error hrun]
    rw [hrun] at hact
    rcases hact with ⟨hsame, -⟩ | ⟨_, _, hopen, hdisk, -⟩
    · exact Or.inl ⟨hsame, by simp⟩
    · -- the file has been made, and the call raises afterwards
      obtain ⟨parent, name, habsent, rfl, rfl⟩ := openWrite_eq_ok hnone hopen
      exact Or.inr ⟨parent, name, _, habsent, ⟨[], rfl, fun h => by cases h⟩, hdisk⟩
  · rw [writeBytes, Effect.bind_of_ok hrun]
    rw [hrun] at hact
    rcases hact with ⟨-, hfails⟩ | ⟨_, _, hopen, hdisk, hresult⟩
    · exact absurd rfl (hfails loc)
    · cases hresult loc rfl
      obtain ⟨parent, name, habsent, rfl, rfl⟩ := openWrite_eq_ok hnone hopen
      obtain ⟨content, hfilled, hwhole⟩ := write_fills (env.pieces w₁.clock data).chunks hdisk
      have hclosed := sameDisks_closing env side
        (do
          let time ← now
          write env side (parent ++ [name]) (env.pieces time data).chunks) w₁
      refine Or.inr ⟨parent, name, _, habsent, ⟨content, rfl, fun hok => ?_⟩,
        hclosed.trans hfilled⟩
      obtain ⟨w₂, hbody, -⟩ := closing_eq_ok (Prod.ext hok rfl)
      rw [hwhole (congrArg Prod.fst hbody), List.nil_append, (env.pieces w₁.clock data).flatten]

end Writing

/-! ## What path objects offer -/

/-- The operations of a kind of path objects, as the file system of one side shows
them. Calls are made with the address of a path. A link that is read and written
again has the text `copied` says, and directories for which `lists` holds are
listed with all their entries. -/
structure PathOps.Serves (ops : PathOps) (side : Side) (address : PosixPath → PosixPath)
    (copied : PosixPath → PosixPath → PosixPath) (lists : PosixPath → List Name → Prop) : Prop where
  lookup_child : ∀ {fs : FileSystem} {path : PosixPath} {loc : Loc} {name : Name},
    fs.lookup side.cwd true (address path) = .found loc → FileSystem.Proper name →
      (address (path.child name)).strip = address (path.child name) ∧
      ∃ left, ∀ follow, fs.lookup side.cwd follow (address (path.child name)) =
        fs.resolve follow left loc [name]
  lookup_child_empty : ∀ {fs : FileSystem} {path : PosixPath} {loc : Loc} {order : List Name}
    {access : Access}, fs.lookup side.cwd true (address path) = .found loc →
      fs.node loc = some (.dir order access) →
      fs.lookup side.cwd true (address (path.child "")) = .found loc
  stay_of_unnamed : ∀ {path : PosixPath}, path.name = "" →
    ∀ part ∈ (address path).parts, part = "" ∨ part = "."
  pathExists : ∀ path, Effect.Keeps SameDisks (ops.pathExists path)
  pathExists_ok : ∀ {path w w' b}, ops.pathExists path w = (.ok b, w') →
    (b = true ↔ ∃ loc node, Sees side true w (address path) loc node)
  isDir : ∀ path, Effect.Keeps SameDisks (ops.isDir path)
  isDir_ok : ∀ {path w w' b loc node}, ops.isDir path w = (.ok b, w') →
    Sees side true w (address path) loc node → (∀ kind, node ≠ .special kind) → b = node.isDir
  lstat : ∀ path, Effect.Keeps SameDisks (ops.lstat path)
  lstat_ok : ∀ {path w w' mode}, ops.lstat path w = (.ok mode, w') →
    ∃ loc node, Sees side false w (address path) loc node ∧ mode = node.mode
  stat : ∀ path, Effect.Keeps SameDisks (ops.stat path)
  readlink : ∀ path, Effect.Keeps SameDisks (ops.readlink path)
  readlink_ok : ∀ {path w w' text}, ops.readlink path w = (.ok text, w') →
    ∃ loc target, Sees side false w (address path) loc (.link target) ∧
      text.normalise = copied path target
  readBytes : ∀ path, Effect.Keeps SameDisks (ops.readBytes path)
  readBytes_ok : ∀ {path w w' bytes}, ops.readBytes path w = (.ok bytes, w') →
    ∃ loc node, Sees side true w (address path) loc node ∧ node.isDir = false ∧
      ∀ content, node = .file content → bytes = content
  iterdir : ∀ path, Effect.Keeps SameDisks (ops.iterdir path)
  iterdir_ok : ∀ {path w w' files loc order access}, ops.iterdir path w = (.ok files, w') →
    Sees side true w (address path) loc (.dir order access) → lists path order →
      files = (FileSystem.children order).map path.child
  mkdir : ∀ path mode w, PutsOrFails side w (ops.mkdir path mode w)
    ((w.fs side).lookup side.cwd false (address path).strip)
    fun node => ∃ access, node = .dir [".", ".."] access
  symlinkTo : ∀ path target w, PutsOrFails side w (ops.symlinkTo path target w)
    ((w.fs side).lookup side.cwd false (address path)) (· = .link target.normalise)
  writeBytes : ∀ path data w, (¬ ∃ loc node, Sees side true w (address path) loc node) →
    PutsOrFails side w (ops.writeBytes path data w)
      ((w.fs side).lookup side.cwd true (address path))
      fun node => ∃ content, node = .file content ∧
        ((ops.writeBytes path data w).1 = .ok () → content = data)

section Kinds

variable {env : Environment} {side : Side} {w w' : World} {path : PosixPath} {name : Name}

theorem statCall_eq_ok {follow : Bool} {mode : ℕ}
    (hrun : statCall env side follow path w = (.ok mode, w')) :
    ∃ loc node, Sees side follow w path loc node ∧ mode = node.mode := by
  obtain ⟨node, hnode, rfl⟩ := map_eq_ok (failing_eq_ok_iff.mp (look_eq_ok hrun))
  obtain ⟨loc, hsees⟩ := nodeAt_eq_ok_iff.mp hnode
  exact ⟨loc, node, hsees, rfl⟩

theorem readlinkCall_eq_ok {target : PosixPath}
    (hrun : readlinkCall env side path w = (.ok target, w')) :
    ∃ loc, Sees side false w path loc (.link target) := by
  have hread := failing_eq_ok_iff.mp (look_eq_ok hrun)
  rw [FileSystem.readlink] at hread
  split at hread
  · next target' hnode =>
    cases hread
    exact nodeAt_eq_ok_iff.mp hnode
  · cases hread
  · cases hread

/-- What `stat` says of a path. -/
theorem stat_cases (w : World) (side : Side) (path : PosixPath) :
    (∃ loc node, Sees side true w path loc node ∧
        (w.fs side).stat side.cwd true path = .ok node.mode) ∨
      (¬ ∃ loc node, Sees side true w path loc node) ∧
        ∃ errno, (w.fs side).stat side.cwd true path = .error errno := by
  rw [FileSystem.stat]
  cases hnode : (w.fs side).nodeAt side.cwd true path with
  | ok node =>
    obtain ⟨loc, hsees⟩ := nodeAt_eq_ok_iff.mp hnode
    exact Or.inl ⟨loc, node, hsees, rfl⟩
  | error errno =>
    refine Or.inr ⟨?_, errno, rfl⟩
    rintro ⟨loc, node, hsees⟩
    cases hnode.symm.trans (nodeAt_eq_ok_iff.mpr ⟨loc, hsees⟩)

theorem stat_of_sees {loc : Loc} {node : Node} (hsees : Sees side true w path loc node) :
    (w.fs side).stat side.cwd true path = .ok node.mode := by
  rw [FileSystem.stat, nodeAt_eq_ok_iff.mpr ⟨loc, hsees⟩]
  rfl

/-- The bit of directories tells directories from files and links. -/
theorem mode_and_sIfdir {node : Node} (hplain : ∀ kind, node ≠ .special kind) :
    decide (node.mode &&& sIfdir ≠ 0) = node.isDir := by
  cases node with
  | dir order access =>
    have hmode : ∀ access : Access, decide ((sIfdir + access.mode) &&& sIfdir ≠ 0) = true := by
      rintro ⟨_ | _, _ | _, _ | _⟩ <;> decide
    exact hmode access
  | file content => exact (by decide : decide ((sIfreg + 0o644) &&& sIfdir ≠ 0) = false)
  | link target => exact (by decide : decide ((sIflnk + 0o777) &&& sIfdir ≠ 0) = false)
  | special kind => exact absurd rfl (hplain kind)

/-- A listing that succeeds has the entries of the directory. -/
theorem scandir_eq_ok {platform : Platform} {loc : Loc} {order : List Name} {access : Access}
    {entries : List DirEntry}
    (hlisting : (w.fs side).scandir platform side.cwd path = .ok entries)
    (hsees : Sees side true w path loc (.dir order access)) (hfirst : DotsFirst order)
    (hfits : ∀ name ∈ order, PathFits platform path.text name) :
    entries = (FileSystem.children order).map ((w.fs side).entryAt side.cwd path loc) := by
  cases hread : access.readable with
  | true =>
    rw [FileSystem.scandir_children platform hsees.1 hsees.2 hread hfirst hfits] at hlisting
    exact (Except.ok.inj hlisting).symm
  -- a directory that cannot be read is not listed
  | false =>
    have hdenied : (w.fs side).entries side.cwd path = .error eacces := by
      rw [FileSystem.entries, FileSystem.readdir, hsees.1]
      simp only [hsees.2, hread, Bool.false_eq_true, if_false]
    obtain ⟨e, herror⟩ := FileSystem.scandir_of_error platform hdenied
    cases herror.symm.trans hlisting

/-- A child's path has no slashes behind it. -/
theorem strip_child (p : PosixPath) (hname : FileSystem.Proper name) :
    (p.child name).strip = p.child name :=
  FileSystem.strip_of_proper List.getLast?_concat hname.1

theorem strip_normalise_child (p : PosixPath) (hname : FileSystem.Proper name) :
    (p.child name).normalise.strip = (p.child name).normalise := by
  obtain ⟨names, hparts, -⟩ := PosixPath.exists_parts_normalise (p := p.child name) rfl hname
  exact FileSystem.strip_of_proper (hparts ▸ List.getLast?_concat) hname.1

theorem localPath_serves (env : Environment) :
    (localPath env).Serves env.client PosixPath.normalise (fun _ target => target.normalise)
      fun _ _ => True where
  lookup_child hfound hname :=
    ⟨strip_normalise_child _ hname, FileSystem.lookup_normalise_child hfound hname⟩
  lookup_child_empty hfound hdir :=
    FileSystem.lookup_normalise (FileSystem.lookup_join_empty hfound hdir)
  stay_of_unnamed := PosixPath.stay_normalise
  pathExists path := by
    apply (keeps_status _).bind
    intro result
    split
    · exact Effect.keeps_pure _
    · split
      · exact Effect.keeps_pure _
      · exact Effect.keeps_raise _
  pathExists_ok := by
    intro path w w' b hrun
    obtain ⟨result, w₁, hstatus, hrun⟩ := Effect.bind_eq_ok_iff.mp hrun
    cases hstatus
    rcases stat_cases w env.client path.normalise with ⟨loc, node, hsees, hstat⟩ |
      ⟨hnone, errno, hstat⟩
    · rw [hstat] at hrun
      obtain ⟨rfl, -⟩ := Effect.pure_eq_ok_iff.mp hrun
      exact iff_of_true rfl ⟨loc, node, hsees⟩
    · rw [hstat] at hrun
      simp only at hrun
      split at hrun
      · obtain ⟨rfl, -⟩ := Effect.pure_eq_ok_iff.mp hrun
        exact iff_of_false (by simp) hnone
      · cases hrun
  isDir path := by
    apply (keeps_status _).bind
    intro result
    split
    · exact Effect.keeps_pure _
    · split
      · exact Effect.keeps_pure _
      · exact Effect.keeps_raise _
  isDir_ok := by
    intro path w w' b loc node hrun hsees _
    obtain ⟨result, w₁, hstatus, hrun⟩ := Effect.bind_eq_ok_iff.mp hrun
    cases hstatus
    rw [stat_of_sees hsees] at hrun
    obtain ⟨rfl, -⟩ := Effect.pure_eq_ok_iff.mp hrun
    simp [Node.fileType_mode, Node.typeBits_eq_sIfdir]
  lstat path := keeps_look _
  lstat_ok := statCall_eq_ok
  stat path := keeps_look _
  readlink path := keeps_look _
  readlink_ok := by
    intro path w w' text hrun
    obtain ⟨loc, hsees⟩ := readlinkCall_eq_ok hrun
    exact ⟨loc, text, hsees, rfl⟩
  readBytes path := keeps_readBytes _
  readBytes_ok := readBytes_eq_ok
  iterdir path := keeps_look _
  iterdir_ok := by
    intro path w w' files loc order access hrun hsees _
    simp only [localPath] at hrun
    obtain ⟨entries, hread, rfl⟩ := map_eq_ok (failing_eq_ok_iff.mp (look_eq_ok hrun))
    rw [FileSystem.readdir, hsees.1] at hread
    simp only [hsees.2] at hread
    split at hread
    · cases hread
      rfl
    · cases hread
  mkdir path mode w := mkdirCall_puts env env.client path.normalise mode w
  symlinkTo path target w := symlinkCall_puts target.normalise path.normalise w
  writeBytes path data w hnone := writeBytes_puts hnone

theorem remotePath_serves (env : Environment) :
    (remotePath env).Serves env.server id
      (fun path target => (path.parent.joinPath (peeked env target)).normalise.normalise)
      fun path order => DotsFirst order ∧ ∀ name ∈ order, PathFits env.platform path.text name where
  lookup_child hfound hname :=
    ⟨strip_child _ hname, FileSystem.lookup_child hfound hname.1⟩
  lookup_child_empty hfound hdir :=
    FileSystem.lookup_join_empty (FileSystem.lookup_normalise hfound) hdir
  stay_of_unnamed := PosixPath.stay_of_name_eq
  pathExists path := by
    apply (keeps_status _).bind
    intro result
    split <;> exact Effect.keeps_pure _
  pathExists_ok := by
    intro path w w' b hrun
    obtain ⟨result, w₁, hstatus, hrun⟩ := Effect.bind_eq_ok_iff.mp hrun
    cases hstatus
    rcases stat_cases w env.server path with ⟨loc, node, hsees, hstat⟩ | ⟨hnone, errno, hstat⟩
    · rw [hstat] at hrun
      obtain ⟨rfl, -⟩ := Effect.pure_eq_ok_iff.mp hrun
      exact iff_of_true rfl ⟨loc, node, hsees⟩
    · rw [hstat] at hrun
      obtain ⟨rfl, -⟩ := Effect.pure_eq_ok_iff.mp hrun
      exact iff_of_false (by simp) hnone
  isDir path := by
    apply (keeps_status _).bind
    intro result
    split
    · exact Effect.keeps_pure _
    · exact Effect.keeps_raise _
  isDir_ok := by
    intro path w w' b loc node hrun hsees hplain
    obtain ⟨result, w₁, hstatus, hrun⟩ := Effect.bind_eq_ok_iff.mp hrun
    cases hstatus
    have hstat : (w.fs env.server).stat env.server.cwd true path = .ok node.mode :=
      stat_of_sees hsees
    rw [hstat] at hrun
    obtain ⟨rfl, -⟩ := Effect.pure_eq_ok_iff.mp hrun
    exact mode_and_sIfdir hplain
  lstat path := keeps_look _
  lstat_ok := statCall_eq_ok
  stat path := keeps_look _
  readlink path := (keeps_look _).bind fun _ => Effect.keeps_pure _
  readlink_ok := by
    intro path w w' text hrun
    obtain ⟨target, w₁, hread, hrun⟩ := Effect.bind_eq_ok_iff.mp hrun
    obtain ⟨loc, hsees⟩ := readlinkCall_eq_ok hread
    obtain ⟨rfl, -⟩ := Effect.pure_eq_ok_iff.mp hrun
    exact ⟨loc, target, hsees, rfl⟩
  readBytes path := keeps_readBytes _
  readBytes_ok := readBytes_eq_ok
  iterdir path := keeps_look _
  iterdir_ok := by
    intro path w w' files loc order access hrun hsees hlists
    simp only [remotePath] at hrun
    obtain ⟨entries, hread, rfl⟩ := map_eq_ok (look_eq_ok hrun)
    rw [scandir_eq_ok hread hsees hlists.1 hlists.2, List.map_map]
    rfl
  mkdir path mode w := fsMkdir_puts path mode w
  symlinkTo path target w := symlinkCall_puts target.normalise path w
  writeBytes path data w hnone := writeBytes_puts hnone

end Kinds

end RpcProject.Files
