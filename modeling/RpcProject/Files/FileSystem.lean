/-
# File systems

A file system has a node at each location, a location being the list of names
that leads from the root to it through directories only. A directory keeps its
entries in the order in which `readdir` yields them, "." and ".." included where
the file system reports these.

A path is followed name by name. A symbolic link on the way is replaced by its
target, and so is one at the end if the call follows it; the kernel gives up
after a fixed number of links. The calls change one entry of one directory, and
fail with an error number otherwise.
-/

import Mathlib.Logic.Function.Basic
import RpcProject.Foundations.Framing
import RpcProject.Files.Listing

namespace RpcProject.Files

open Foundations

/-! ## Paths -/

/-- A path text, split at its slashes. Behind the slash of an absolute path stand
the parts with single slashes between them, so a part may be empty. -/
structure PosixPath where
  absolute : Bool
  parts : List Name
  deriving DecidableEq, Repr

namespace PosixPath

/-- The path as it is written. -/
def text (p : PosixPath) : String := (if p.absolute then "/" else "") ++ "/".intercalate p.parts

/-- The path of no text at all. -/
def IsEmpty (p : PosixPath) : Prop := p.absolute = false ∧ (p.parts = [] ∨ p.parts = [""])

instance : DecidablePred IsEmpty := fun _ => inferInstanceAs (Decidable (_ ∧ _))

/-- Only the empty path has the empty text. -/
theorem text_eq_empty_iff (p : PosixPath) : p.text = "" ↔ p.IsEmpty := by
  have hslash : ∀ l : List Name, "/".intercalate l = "" ↔ l = [] ∨ l = [""] := by
    intro l
    rw [← String.toList_eq_nil_iff, String.toList_intercalate]
    match l with
    | [] => simp
    | [part] => simp [List.intercalate]
    | part :: part' :: rest => simp [List.intercalate]
  rcases p with ⟨_ | _, parts⟩
  · simp only [text, Bool.false_eq_true, if_false, String.empty_append, hslash, IsEmpty, true_and]
  · have hne : "/" ++ "/".intercalate parts ≠ "" := by simp
    simp [text, hne, IsEmpty]

/-- The parts that stand before a name that is joined. -/
def base (p : PosixPath) : List Name :=
  if p.parts.getLast? = some "" then p.parts.dropLast else p.parts

/-- `posixpath.join` with a name. -/
def join (p : PosixPath) (name : Name) : PosixPath := ⟨p.absolute, p.base ++ [name]⟩

/-- The text with a slash and a name behind it. -/
def slash (p : PosixPath) (name : Name) : PosixPath := ⟨p.absolute, p.parts ++ [name]⟩

/-- The path without slashes at its end. -/
def strip (p : PosixPath) : PosixPath :=
  { p with parts := (p.parts.reverse.dropWhile fun part => part = "").reverse }

end PosixPath

/-! ## Nodes -/

/-- What the owner of a directory may do with it. -/
structure Access where
  readable : Bool
  writable : Bool
  searchable : Bool
  deriving DecidableEq, Repr

/-- The kinds of files that are neither regular nor directories nor links. -/
inductive SpecialKind
  | fifo
  | charDevice
  | blockDevice
  | socket
  deriving DecidableEq, Repr

/-- What a place of the tree holds. A directory tells the order in which `readdir` returns
its entries. -/
inductive Node
  | dir (order : List Name) (access : Access)
  | file (content : Bytes)
  | link (target : PosixPath)
  | special (kind : SpecialKind)
  deriving DecidableEq, Repr

def sIfmt : ℕ := 0o170000
def sIfifo : ℕ := 0o010000
def sIfchr : ℕ := 0o020000
def sIfdir : ℕ := 0o040000
def sIfblk : ℕ := 0o060000
def sIfreg : ℕ := 0o100000
def sIflnk : ℕ := 0o120000
def sIfsock : ℕ := 0o140000

namespace Access

/-- The owner's bits of a mode. -/
def mode (a : Access) : ℕ :=
  (if a.readable then 0o400 else 0) + (if a.writable then 0o200 else 0) +
    if a.searchable then 0o100 else 0

/-- The access that the mode bits of the owner give. -/
def ofMode (mode : ℕ) : Access := ⟨mode.testBit 8, mode.testBit 7, mode.testBit 6⟩

end Access

namespace Node

/-- The type bits of `st_mode`. -/
def typeBits : Node → ℕ
  | dir _ _ => sIfdir
  | file _ => sIfreg
  | link _ => sIflnk
  | special .fifo => sIfifo
  | special .charDevice => sIfchr
  | special .blockDevice => sIfblk
  | special .socket => sIfsock

/-- The permission bits, which vary for directories only. -/
def permissions : Node → ℕ
  | dir _ access => access.mode
  | link _ => 0o777
  | _ => 0o644

/-- `st_mode` -/
def mode (node : Node) : ℕ := node.typeBits + node.permissions

/-- The type bits of a mode. -/
def fileType (mode : ℕ) : ℕ := mode &&& sIfmt

/-- A directory's access is no part of its type. -/
theorem fileType_dir : ∀ access : Access, fileType (sIfdir + access.mode) = sIfdir := by
  rintro ⟨_ | _, _ | _, _ | _⟩ <;> decide

/-- The type bits of the mode of a node tell its kind. -/
theorem fileType_mode (node : Node) : fileType node.mode = node.typeBits := by
  cases node with
  | dir order access => exact fileType_dir access
  | file content => exact (by decide : fileType (sIfreg + 0o644) = sIfreg)
  | link target => exact (by decide : fileType (sIflnk + 0o777) = sIflnk)
  | special kind =>
    cases kind with
    | fifo => exact (by decide : fileType (sIfifo + 0o644) = sIfifo)
    | charDevice => exact (by decide : fileType (sIfchr + 0o644) = sIfchr)
    | blockDevice => exact (by decide : fileType (sIfblk + 0o644) = sIfblk)
    | socket => exact (by decide : fileType (sIfsock + 0o644) = sIfsock)

theorem typeBits_pos (node : Node) : 0 < node.typeBits := by
  cases node with
  | dir order access => exact (by decide : 0 < sIfdir)
  | file content => exact (by decide : 0 < sIfreg)
  | link target => exact (by decide : 0 < sIflnk)
  | special kind => cases kind <;> exact Nat.succ_pos _

theorem mode_ne_zero (node : Node) : node.mode ≠ 0 := fun hzero => by
  have := node.typeBits_pos
  have : node.typeBits ≤ node.mode := Nat.le_add_right _ _
  omega

/-- `d_type`, where the file system reports it. -/
def dType : Node → ℕ
  | dir _ _ => 4
  | file _ => 8
  | link _ => 10
  | special .fifo => 1
  | special .charDevice => 2
  | special .blockDevice => 6
  | special .socket => 12

/-- `S_ISDIR` -/
def isDir : Node → Bool
  | dir _ _ => true
  | _ => false

/-- `S_ISLNK` -/
def isLink : Node → Bool
  | link _ => true
  | _ => false

theorem isDir_eq_true_iff {node : Node} :
    node.isDir = true ↔ ∃ order access, node = dir order access := by
  cases node <;> simp [isDir]

theorem isLink_eq_true_iff {node : Node} : node.isLink = true ↔ ∃ target, node = link target := by
  cases node <;> simp [isLink]

theorem typeBits_eq_sIfdir (node : Node) : (node.typeBits = sIfdir) = (node.isDir = true) := by
  cases node with
  | special kind => cases kind <;> decide
  | dir order access => exact (by decide : (sIfdir = sIfdir) = (true = true))
  | file content => exact (by decide : (sIfreg = sIfdir) = (false = true))
  | link target => exact (by decide : (sIflnk = sIfdir) = (false = true))

theorem typeBits_eq_sIflnk (node : Node) : (node.typeBits = sIflnk) = (node.isLink = true) := by
  cases node with
  | special kind => cases kind <;> decide
  | dir order access => exact (by decide : (sIfdir = sIflnk) = (false = true))
  | file content => exact (by decide : (sIfreg = sIflnk) = (false = true))
  | link target => exact (by decide : (sIflnk = sIflnk) = (true = true))

/-- A node without the entries of a directory. -/
def bare : Node → Node
  | dir _ access => dir [] access
  | node => node

/-- What is left of a node apart from its order is all of it, unless it is a directory. -/
theorem eq_of_bare_eq {node node' : Node} (hdir : node.isDir = false)
    (hbare : node'.bare = node.bare) : node' = node := by
  cases node <;> cases node' <;> simp_all [bare, isDir]

/-- Of a directory it leaves the access. -/
theorem exists_of_bare_eq_dir {node : Node} {order : List Name} {access : Access}
    (hbare : node.bare = (dir order access).bare) : ∃ order', node = dir order' access := by
  cases node <;> simp_all [bare]

end Node

/-! ## File systems -/

/-- The names that lead from the root to a node. -/
abbrev Loc := List Name

/-- A tree of nodes, the root at the empty location. -/
@[ext] structure FileSystem where
  node : Loc → Option Node
  /-- whether `readdir` reports the type of a node -/
  typed : Loc → Bool

/-- The error numbers of the calls. -/
abbrev Errno := ℕ

def enoent : Errno := 2
def eacces : Errno := 13
def ebusy : Errno := 16
def eexist : Errno := 17
def enotdir : Errno := 20
def eisdir : Errno := 21
def einval : Errno := 22
def enotempty : Errno := 39
def eloop : Errno := 40

/-- The most symbolic links that one lookup follows. -/
def maxSymlinks : ℕ := 40

/-- Where a lookup ends: at a node, at a name that its directory lacks, or nowhere. -/
inductive Lookup
  | found (loc : Loc)
  | absent (parent : Loc) (name : Name)
  | failed (errno : Errno)
  deriving DecidableEq, Repr

/-- Where one name leads from a location. -/
inductive Hop
  | arrive (loc : Loc)
  | link (target : PosixPath)
  | missing
  | failed (errno : Errno)
  deriving DecidableEq, Repr

/-- Where following names ends: like a lookup, or at a link that is to be replaced. -/
inductive Descent
  | done (result : Lookup)
  | link (parent : Loc) (target : PosixPath) (rest : List Name)
  deriving DecidableEq, Repr

namespace FileSystem

/-- Follow one name. The root is its own parent. -/
def hop (fs : FileSystem) (loc : Loc) (name : Name) : Hop :=
  match fs.node loc with
  | some (.dir _ access) =>
      -- the kernel asks for the search permission only where a name is looked up in the directory
      if name = "" ∨ name = "." then .arrive loc
      else if access.searchable = false then .failed eacces
      else if name = ".." then .arrive loc.dropLast
      else
        match fs.node (loc ++ [name]) with
        | none => .missing
        | some (.link target) => .link target
        | some _ => .arrive (loc ++ [name])
  | _ => .failed enotdir

/-- Follow names from a location on, up to the first link that is followed. -/
def descend (fs : FileSystem) (follow : Bool) : Loc → List Name → Descent
  | loc, [] => .done (.found loc)
  | loc, name :: rest =>
      match fs.hop loc name with
      | .arrive next => fs.descend follow next rest
      | .link target =>
          -- a link is replaced unless it is the last name of a call that does not follow it
          if follow = true ∨ rest ≠ [] then .link loc target rest
          else .done (.found (loc ++ [name]))
      -- only the last name may be missing, for a call that makes it
      | .missing => .done (if rest = [] then .absent loc name else .failed enoent)
      | .failed errno => .done (.failed errno)

/-- Follow names and up to `budget` links. -/
def resolve (fs : FileSystem) (follow : Bool) : ℕ → Loc → List Name → Lookup
  | budget, loc, names =>
      match fs.descend follow loc names with
      | .done result => result
      | .link parent target rest =>
          match budget with
          | 0 => .failed eloop
          | budget + 1 =>
              fs.resolve follow budget (if target.absolute then [] else parent)
                (target.parts ++ rest)

/-- Look a path up. The empty path names nothing. -/
def lookup (fs : FileSystem) (cwd : Loc) (follow : Bool) (p : PosixPath) : Lookup :=
  if p.IsEmpty then .failed enoent
  else fs.resolve follow maxSymlinks (if p.absolute then [] else cwd) p.parts

/-! ## Calls that read -/

/-- The node at a path. -/
def nodeAt (fs : FileSystem) (cwd : Loc) (follow : Bool) (p : PosixPath) : Except Errno Node :=
  match fs.lookup cwd follow p with
  | .found loc =>
      match fs.node loc with
      | some node => .ok node
      | none => .error enoent
  | .absent _ _ => .error enoent
  | .failed errno => .error errno

/-- `stat` and, without following a link at the end, `lstat`: the mode. -/
def stat (fs : FileSystem) (cwd : Loc) (follow : Bool) (p : PosixPath) : Except Errno ℕ :=
  (fs.nodeAt cwd follow p).map Node.mode

/-- The target of a link, which is not followed. -/
def readlink (fs : FileSystem) (cwd : Loc) (p : PosixPath) : Except Errno PosixPath :=
  match fs.nodeAt cwd false p with
  | .ok (.link target) => .ok target
  | .ok _ => .error einval
  | .error errno => .error errno

/-- `open` for reading, and what the file holds. A special file has its bytes
from elsewhere. -/
def openRead (fs : FileSystem) (cwd : Loc) (p : PosixPath) : Except Errno (Option Bytes) :=
  match fs.nodeAt cwd true p with
  | .ok (.file content) => .ok (some content)
  | .ok (.dir _ _) => .error eisdir
  | .ok _ => .ok none
  | .error errno => .error errno

/-- `access(path, R_OK)` -/
def accessible (fs : FileSystem) (cwd : Loc) (p : PosixPath) : Bool :=
  match fs.nodeAt cwd true p with
  | .ok (.dir _ access) => access.readable
  | .ok _ => true
  | .error _ => false

/-- The names of a directory that opens, in the order of `readdir`. -/
def readdir (fs : FileSystem) (cwd : Loc) (p : PosixPath) : Except Errno (Loc × List Name) :=
  match fs.lookup cwd true p with
  | .found loc =>
      match fs.node loc with
      | some (.dir order access) =>
          if access.readable then .ok (loc, order) else .error eacces
      | some _ => .error enotdir
      | none => .error enoent
  | .absent _ _ => .error enoent
  | .failed errno => .error errno

/-! ## Calls that write -/

/-- A directory with one more entry, at the end of its order. -/
def addName (name : Name) : Node → Node
  | .dir order access => .dir (order ++ [name]) access
  | node => node

/-- A directory with one entry less. -/
def dropName (name : Name) : Node → Node
  | .dir order access => .dir (order.erase name) access
  | node => node

/-- Put a node under a new name of a directory. -/
def insert (fs : FileSystem) (parent : Loc) (name : Name) (node : Node) : FileSystem :=
  { fs with
    node := Function.update
      (Function.update fs.node parent ((fs.node parent).map (addName name)))
      (parent ++ [name]) (some node) }

/-- Take a node away, and its name from its directory. -/
def delete (fs : FileSystem) (loc : Loc) : FileSystem :=
  { fs with
    node := Function.update
      (Function.update fs.node loc.dropLast
        ((fs.node loc.dropLast).map (dropName (loc.getLastD ""))))
      loc none }

/-- What the nodes are after a removal. -/
theorem delete_node (fs : FileSystem) (parent : Loc) (name : Name) (x : Loc) :
    (fs.delete (parent ++ [name])).node x =
      if x = parent ++ [name] then none
      else if x = parent then (fs.node parent).map (dropName name) else fs.node x := by
  simp only [delete, List.dropLast_concat, List.getLastD_concat, Function.update_apply]

theorem insert_node (fs : FileSystem) (parent : Loc) (name : Name) (node : Node) (x : Loc) :
    (fs.insert parent name node).node x =
      if x = parent ++ [name] then some node
      else if x = parent then (fs.node parent).map (addName name) else fs.node x := by
  simp only [insert, Function.update_apply]

/-- Whether entries of a directory may be made and removed. -/
def mayChange (fs : FileSystem) (parent : Loc) : Bool :=
  match fs.node parent with
  | some (.dir _ access) => access.writable && access.searchable
  | _ => false

/-- A node is made in a directory that may be changed. -/
def create (fs : FileSystem) (parent : Loc) (name : Name) (node : Node) :
    Except Errno FileSystem :=
  if fs.mayChange parent then .ok (fs.insert parent name node) else .error eacces

/-- `mkdir`. A slash behind the path makes no difference. -/
def mkdir (fs : FileSystem) (cwd : Loc) (p : PosixPath) (mode : ℕ) : Except Errno FileSystem :=
  match fs.lookup cwd false p.strip with
  | .found _ => .error eexist
  | .absent parent name => fs.create parent name (.dir [".", ".."] (.ofMode mode))
  | .failed errno => .error errno

/-- `chmod`, which changes what may be done with a directory. -/
def chmod (fs : FileSystem) (cwd : Loc) (p : PosixPath) (mode : ℕ) : Except Errno FileSystem :=
  match fs.lookup cwd true p with
  | .found loc =>
      match fs.node loc with
      | some (.dir order _) =>
          .ok { fs with node := Function.update fs.node loc (some (.dir order (.ofMode mode))) }
      | some _ => .ok fs
      | none => .error enoent
  | .absent _ _ => .error enoent
  | .failed errno => .error errno

/-- `symlink` -/
def symlink (fs : FileSystem) (cwd : Loc) (target p : PosixPath) : Except Errno FileSystem :=
  match fs.lookup cwd false p with
  | .found _ => .error eexist
  | .absent parent name => fs.create parent name (.link target)
  | .failed errno => .error errno

/-- `open` with `O_CREAT` and `O_TRUNC`, and where the file is. A dangling link is
followed to the name it lacks. -/
def openWrite (fs : FileSystem) (cwd : Loc) (p : PosixPath) : Except Errno (Loc × FileSystem) :=
  match fs.lookup cwd true p with
  | .found loc =>
      match fs.node loc with
      | some (.file _) =>
          .ok (loc, { fs with node := Function.update fs.node loc (some (.file [])) })
      | some (.dir _ _) => .error eisdir
      | some _ => .ok (loc, fs)
      | none => .error enoent
  | .absent parent name =>
      (fs.create parent name (.file [])).map fun fs' => (parent ++ [name], fs')
  | .failed errno => .error errno

/-- `write` to an open file, at its end. What a special file is given goes elsewhere. -/
def append (fs : FileSystem) (loc : Loc) (bytes : Bytes) : FileSystem :=
  match fs.node loc with
  | some (.file content) =>
      { fs with node := Function.update fs.node loc (some (.file (content ++ bytes))) }
  | _ => fs

/-- The entries of a directory but "." and "..". -/
def children (order : List Name) : List Name := order.filter fun name => ¬ IsDot name

/-- Whether a node is a directory with entries. -/
def hasEntries : Node → Bool
  | .dir order _ => children order ≠ []
  | _ => false

/-- `unlink`, or `rmdir` for a directory, of a node that a path with or without a
slash at its end leads to. -/
def removeAt (fs : FileSystem) (loc : Loc) (node : Node) (slash : Bool) : Except Errno FileSystem :=
  if loc = [] then .error ebusy
  else if node.isDir = false ∧ slash = true then .error enotdir
  else if fs.mayChange loc.dropLast = false then .error eacces
  else if hasEntries node = true then .error enotempty
  else .ok (fs.delete loc)

/-- `remove` -/
def remove (fs : FileSystem) (cwd : Loc) (p : PosixPath) : Except Errno FileSystem :=
  match p.strip.parts.getLast? with
  | none => .error ebusy
  | some last =>
      if IsDot last then .error einval
      else
        match fs.lookup cwd false p.strip with
        | .found loc =>
            match fs.node loc with
            | some node => fs.removeAt loc node (p.strip ≠ p)
            | none => .error enoent
        | .absent _ _ => .error enoent
        | .failed errno => .error errno

variable {fs fs' : FileSystem} {cwd loc : Loc} {node : Node} {slash : Bool} {p : PosixPath}

/-- When the node at a location is removed. -/
theorem removeAt_eq_ok_iff : fs.removeAt loc node slash = .ok fs' ↔
    loc ≠ [] ∧ (node.isDir = true ∨ slash = false) ∧ fs.mayChange loc.dropLast = true ∧
      hasEntries node = false ∧ fs' = fs.delete loc := by
  rw [removeAt]
  by_cases hroot : loc = [] <;> cases hdir : node.isDir <;> cases slash <;>
    cases hchange : fs.mayChange loc.dropLast <;> cases hentries : hasEntries node <;>
    simp [hroot, eq_comm]

/-- When the node that a path leads to is removed. -/
theorem remove_eq_ok_iff : fs.remove cwd p = .ok fs' ↔
    ∃ last loc node, p.strip.parts.getLast? = some last ∧ ¬ IsDot last ∧
      fs.lookup cwd false p.strip = .found loc ∧ fs.node loc = some node ∧
      fs.removeAt loc node (p.strip ≠ p) = .ok fs' := by
  rw [remove]
  cases hlast : p.strip.parts.getLast? with
  | none => simp
  | some last =>
    by_cases hdot : IsDot last
    · simp [hdot]
    · cases hlookup : fs.lookup cwd false p.strip with
      | found loc => cases hnode : fs.node loc <;> simp [hdot, hnode]
      | absent parent name => simp [hdot]
      | failed errno => simp [hdot]

/-! ## Disks -/

/-- A name that leads to an entry of a directory, if it leads anywhere. -/
def Proper (name : Name) : Prop := name ≠ "" ∧ ¬ IsDot name

instance : DecidablePred Proper := fun _ => inferInstanceAs (Decidable (_ ∧ _))

/-- The nodes are those that the directories list, from the root on. -/
structure WellFormed (fs : FileSystem) : Prop where
  root : ∃ order access, fs.node [] = some (.dir order access)
  nodup : ∀ loc order access, fs.node loc = some (.dir order access) → order.Nodup
  named : ∀ loc order access, fs.node loc = some (.dir order access) → "" ∉ order
  listed : ∀ loc name, (fs.node (loc ++ [name])).isSome ↔
    Proper name ∧ ∃ order access, fs.node loc = some (.dir order access) ∧ name ∈ order

namespace WellFormed

variable {order : List Name} {access : Access} {name : Name}

/-- The entries of a directory, apart from the dots, have proper names. -/
theorem proper_of_mem (hfs : fs.WellFormed) (hdir : fs.node loc = some (.dir order access))
    (hname : name ∈ order) (hdot : ¬ IsDot name) : Proper name :=
  ⟨fun h => hfs.named _ _ _ hdir (h ▸ hname), hdot⟩

theorem isSome_of_mem (hfs : fs.WellFormed) (hdir : fs.node loc = some (.dir order access))
    (hname : name ∈ order) (hdot : ¬ IsDot name) : (fs.node (loc ++ [name])).isSome :=
  (hfs.listed loc name).mpr ⟨hfs.proper_of_mem hdir hname hdot, order, access, hdir, hname⟩

theorem exists_child (hfs : fs.WellFormed) (hdir : fs.node loc = some (.dir order access))
    (hname : name ∈ children order) :
    Proper name ∧ ∃ node, fs.node (loc ++ [name]) = some node := by
  obtain ⟨hmem, hdot⟩ := List.mem_filter.mp hname
  exact ⟨hfs.proper_of_mem hdir hmem (of_decide_eq_true hdot),
    Option.isSome_iff_exists.mp (hfs.isSome_of_mem hdir hmem (of_decide_eq_true hdot))⟩

theorem nodup_children (hfs : fs.WellFormed) (hdir : fs.node loc = some (.dir order access)) :
    (children order).Nodup := (hfs.nodup _ _ _ hdir).filter _

/-- A directory lists no name twice. -/
theorem not_mem_before (hfs : fs.WellFormed) (hdir : fs.node loc = some (.dir order access))
    {before after : List Name} (hsplit : children order = before ++ name :: after) :
    name ∉ before :=
  fun hbefore => (List.nodup_append.mp (hsplit ▸ hfs.nodup_children hdir)).2.2 name hbefore name
    List.mem_cons_self rfl

end WellFormed

end FileSystem

/-- A finite file system. -/
structure Disk extends FileSystem where
  wellFormed : toFileSystem.WellFormed
  depth : ℕ
  length_le : ∀ loc, (node loc).isSome → loc.length ≤ depth

/-! ## Disks from tables -/

namespace FileSystem

/-- The file system with the nodes of a table. -/
def ofTable (table : List (Loc × Node)) (typed : Loc → Bool) : FileSystem :=
  ⟨fun loc => table.lookup loc, typed⟩

/-- The entries of a directory in a table. -/
def orderIn (table : List (Loc × Node)) (loc : Loc) : Option (List Name) :=
  match table.lookup loc with
  | some (.dir order _) => some order
  | _ => none

/-- A table has a root, and its nodes are those that its directories list. -/
def Coherent (table : List (Loc × Node)) : Prop :=
  (orderIn table []).isSome ∧ ∀ entry ∈ table,
    (entry.1 ≠ [] → Proper (entry.1.getLastD "") ∧
      ∃ order ∈ orderIn table entry.1.dropLast, entry.1.getLastD "" ∈ order) ∧
    ∀ order ∈ orderIn table entry.1, order.Nodup ∧ "" ∉ order ∧
      ∀ name ∈ order, Proper name → (table.lookup (entry.1 ++ [name])).isSome

instance : DecidablePred Coherent := fun _ => inferInstanceAs (Decidable (_ ∧ _))

variable {table : List (Loc × Node)} {typed : Loc → Bool} {loc : Loc} {node : Node}
  {order : List Name}

/-- A node of the table is listed in it. -/
theorem mem_of_lookup (hlookup : table.lookup loc = some node) : (loc, node) ∈ table := by
  obtain ⟨before, after, rfl, -⟩ := List.lookup_eq_some_iff.mp hlookup
  exact List.mem_append_right _ List.mem_cons_self

/-- No location of a table is longer than all of them together. -/
theorem length_le_of_mem {entry : Loc × Node} (hmem : entry ∈ table) :
    entry.1.length ≤ (table.map fun entry => entry.1.length).sum := by
  induction table with
  | nil => cases hmem
  | cons first table ih =>
    rw [List.map_cons, List.sum_cons]
    rcases List.mem_cons.mp hmem with rfl | hmem
    · exact Nat.le_add_right _ _
    · exact Nat.le_add_left_of_le (ih hmem)

/-- The orders in a table are those of its directories. -/
theorem orderIn_eq_some_iff : orderIn table loc = some order ↔
    ∃ access, (ofTable table typed).node loc = some (.dir order access) := by
  have hnode : (ofTable table typed).node loc = table.lookup loc := rfl
  rw [orderIn, hnode]
  constructor
  · intro horder
    split at horder
    · next order' access hdir =>
      cases horder
      exact ⟨access, hdir⟩
    · cases horder
  · rintro ⟨access, hdir⟩
    rw [hdir]

/-- A coherent table is a well-formed tree. -/
theorem Coherent.wellFormed (hcoherent : Coherent table) : (ofTable table typed).WellFormed := by
  obtain ⟨hroot, hentries⟩ := hcoherent
  have hdirs : ∀ loc order access, (ofTable table typed).node loc = some (.dir order access) →
      order.Nodup ∧ "" ∉ order ∧
        ∀ name ∈ order, Proper name → (table.lookup (loc ++ [name])).isSome :=
    fun loc order access hdir => (hentries (loc, _) (mem_of_lookup hdir)).2 order
      (orderIn_eq_some_iff.mpr ⟨access, hdir⟩)
  refine ⟨?_, fun loc order access hdir => (hdirs loc order access hdir).1,
    fun loc order access hdir => (hdirs loc order access hdir).2.1, fun loc name => ?_⟩
  · obtain ⟨order, horder⟩ := Option.isSome_iff_exists.mp hroot
    exact ⟨order, orderIn_eq_some_iff.mp horder⟩
  · constructor
    · intro hsome
      obtain ⟨node, hnode⟩ := Option.isSome_iff_exists.mp hsome
      obtain ⟨hproper, order, horder, hmem⟩ := (hentries _ (mem_of_lookup hnode)).1 (by simp)
      rw [List.getLastD_concat] at hproper hmem
      rw [List.dropLast_concat] at horder
      obtain ⟨access, hdir⟩ := orderIn_eq_some_iff.mp horder
      exact ⟨hproper, order, access, hdir, hmem⟩
    · rintro ⟨hproper, order, access, hdir, hmem⟩
      exact (hdirs loc order access hdir).2.2 name hmem hproper

end FileSystem

/-- The disk with the nodes of a coherent table. -/
def Disk.ofTable (table : List (Loc × Node)) (typed : Loc → Bool)
    (coherent : FileSystem.Coherent table) : Disk where
  toFileSystem := .ofTable table typed
  wellFormed := coherent.wellFormed
  depth := (table.map fun entry => entry.1.length).sum
  length_le loc hsome := by
    obtain ⟨node, hnode⟩ := Option.isSome_iff_exists.mp hsome
    exact FileSystem.length_le_of_mem (FileSystem.mem_of_lookup hnode)

end RpcProject.Files
