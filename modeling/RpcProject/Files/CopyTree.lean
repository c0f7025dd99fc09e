/-
# What a recursive copy makes

A recursive copy that returns has made, under the destination, an image of the
source: the same relative paths, kinds and contents, with each symbolic link given
the text that the copy writes for it. `push` writes the target in normal form.
`pull` writes it behind the directory of the link, so a relative target comes out
changed.

So the copy is faithful exactly when each link of the source has the text that is
written for it.
-/

import RpcProject.Files.Copy
import RpcProject.Files.Prune

namespace RpcProject.Files

open Foundations Server

/-! ## Trees and their images -/

/-- What of a node a copy is to have. -/
inductive Entry
  | dir
  | file (content : Bytes)
  | link (target : PosixPath)
  | special (kind : SpecialKind)
  deriving DecidableEq, Repr

namespace Node

/-- What a copy is to have of a node. The order of a directory is not among it. -/
def entry : Node → Entry
  | dir _ _ => .dir
  | file content => .file content
  | link target => .link target
  | special kind => .special kind

/-- The entry that is made for a node at a path. -/
def image (copied : PosixPath → PosixPath → PosixPath) (path : PosixPath) : Node → Entry
  | link target => .link (copied path target)
  | node => node.entry

theorem entry_bare (node : Node) : node.bare.entry = node.entry := by cases node <;> rfl

end Node

/-- The trees at two locations have the same relative paths, and entries of the same
kinds, contents and targets there. -/
def SameTree (fs : FileSystem) (loc : Loc) (fs' : FileSystem) (loc' : Loc) : Prop :=
  ∀ rest, (fs'.node (loc' ++ rest)).map Node.entry = (fs.node (loc ++ rest)).map Node.entry

/-- The tree at a location is the image of another one. -/
def IsImage (copied : PosixPath → PosixPath → PosixPath) (path : PosixPath) (fs : FileSystem)
    (loc : Loc) (fs' : FileSystem) (loc' : Loc) : Prop :=
  ∀ rest, (fs'.node (loc' ++ rest)).map Node.entry =
    (fs.node (loc ++ rest)).map (Node.image copied (path.descendant rest))

/-- Each link of a tree has the text that is written for it. -/
def TextsKept (copied : PosixPath → PosixPath → PosixPath) (path : PosixPath) (fs : FileSystem)
    (loc : Loc) : Prop :=
  ∀ rest target, fs.node (loc ++ rest) = some (.link target) →
    copied (path.descendant rest) target = target

/-- An image is the same tree just if its links have the same texts. -/
theorem IsImage.sameTree_iff {copied : PosixPath → PosixPath → PosixPath} {path : PosixPath}
    {fs fs' : FileSystem} {loc loc' : Loc} (h : IsImage copied path fs loc fs' loc') :
    SameTree fs loc fs' loc' ↔ TextsKept copied path fs loc := by
  apply forall_congr'
  intro rest
  rw [h rest]
  cases hnode : fs.node (loc ++ rest) with
  | none => simp
  | some node =>
    cases node with
    | link target => simp [Node.image, Node.entry]
    | dir order access => simp [Node.image, Node.entry]
    | file content => simp [Node.image, Node.entry]
    | special kind => simp [Node.image, Node.entry]

/-! ## What the steps of a copy leave -/

/-- A step of a copy has kept all nodes, left the source, and has changed nothing
outside of a part of the destination but entries of directories. -/
structure Extends (srcSide dstSide : Side) (top part : Loc) (w w' : World) : Prop where
  keeping : Keeping w w'
  source : ∀ x, top <+: x → (w'.fs srcSide).node x = (w.fs srcSide).node x
  frame : ∀ x, ¬ part <+: x →
    ((w'.fs dstSide).node x).map Node.bare = ((w.fs dstSide).node x).map Node.bare

namespace Extends

variable {srcSide dstSide : Side} {top part part' : Loc} {w w' w'' : World}

/-- Nothing has been added when the disks are the same. -/
theorem of_sameDisks (h : SameDisks w w') : Extends srcSide dstSide top part w w' where
  keeping := h.keeping
  source _ _ := by rw [h.fs]
  frame _ _ := by rw [h.fs]

theorem trans (h : Extends srcSide dstSide top part w w')
    (h' : Extends srcSide dstSide top part w' w'') : Extends srcSide dstSide top part w w'' where
  keeping := trans_of Keeping h.keeping h'.keeping
  source x hx := (h'.source x hx).trans (h.source x hx)
  frame x hx := (h'.frame x hx).trans (h.frame x hx)

/-- What is added below a place is added below the places above it. -/
theorem mono (h : Extends srcSide dstSide top part' w w') (hpart : part <+: part') :
    Extends srcSide dstSide top part w w' where
  keeping := h.keeping
  source := h.source
  frame x hx := h.frame x fun hx' => hx (hpart.trans hx')

/-- Putting a node outside of the source. -/
theorem of_puts {parent : Loc} {name : Name} {node : Node} {follow : Bool} {path : PosixPath}
    (habsent : (w.fs dstSide).lookup dstSide.cwd follow path = .absent parent name)
    (hdisk : w'.disk =
      Function.update w.disk dstSide.host ((w.fs dstSide).insert parent name node))
    (hapart : srcSide.host = dstSide.host → ¬ top <+: parent ++ [name]) :
    Extends srcSide dstSide top (parent ++ [name]) w w' where
  keeping := keeping_insert habsent hdisk
  source x hx := by
    rw [World.fs, World.fs, hdisk]
    -- only on the machine of the source could the new node be one of its nodes
    by_cases hhost : srcSide.host = dstSide.host
    · have hnew : x ≠ parent ++ [name] := fun h => hapart hhost (h ▸ hx)
      have hup : x ≠ parent := fun h => hapart hhost ((h ▸ hx).trans (List.prefix_append _ _))
      rw [hhost, Function.update_self, FileSystem.insert_node, if_neg hnew, if_neg hup]
      rfl
    · rw [Function.update_of_ne hhost]
  frame x hx := by
    have hnew : x ≠ parent ++ [name] := fun h => hx (h ▸ List.prefix_rfl)
    rw [fs_of_update hdisk, FileSystem.insert_node, if_neg hnew]
    split
    · next hup =>
      rw [hup]
      cases (w.fs dstSide).node parent with
      | none => rfl
      | some original => cases original <;> rfl
    · rfl

end Extends

/-! ## Copying the entries of a directory -/

section Steps

variable {src dst : PathOps} {srcSide dstSide : Side}
  {srcAddress dstAddress : PosixPath → PosixPath}
  {srcCopied dstCopied : PosixPath → PosixPath → PosixPath}
  {srcLists dstLists : PosixPath → List Name → Prop} {fs : FileSystem} {top loc place : Loc}
  {source dest : PosixPath} {order : List Name} {access : Access} {name : Name} {node : Node}
  {w w' : World} {force : Bool} {fuel : ℕ}

/-- A directory of the source, as a path leads to it during the copy. -/
structure Reads (srcSide : Side) (srcAddress : PosixPath → PosixPath) (fs : FileSystem) (top : Loc)
    (w : World) (path : PosixPath) (loc : Loc) : Prop where
  lookup : (w.fs srcSide).lookup srcSide.cwd true (srcAddress path) = .found loc
  kept : ∀ x, top <+: x → (w.fs srcSide).node x = fs.node x
  below : top <+: loc

theorem Reads.extends {part : Loc} (h : Reads srcSide srcAddress fs top w source loc)
    (hextends : Extends srcSide dstSide top part w w') :
    Reads srcSide srcAddress fs top w' source loc where
  lookup := (hextends.keeping srcSide.host).lookup h.lookup
  kept x hx := (hextends.source x hx).trans (h.kept x hx)
  below := h.below

/-- A tree without special files whose directories are listed right. -/
structure Plain (lists : PosixPath → List Name → Prop) (fs : FileSystem) (path : PosixPath)
    (loc : Loc) : Prop where
  lists : ∀ rest order access, fs.node (loc ++ rest) = some (.dir order access) →
    lists (path.descendant rest) order
  plain : ∀ rest kind, fs.node (loc ++ rest) ≠ some (.special kind)

/-- What is below a plain source is plain. -/
theorem Plain.child (h : Plain srcLists fs source loc) (name : Name) :
    Plain srcLists fs (source.child name) (loc ++ [name]) where
  lists rest order access hdir := h.lists (name :: rest) order access (by simpa using hdir)
  plain rest kind hspecial := h.plain (name :: rest) kind (by simpa using hspecial)

/-- The place of a copy lies apart from the source, and nothing is below it. -/
structure Free (srcSide dstSide : Side) (top place : Loc) (w : World) : Prop where
  apart : srcSide.host = dstSide.host → ∀ x, place <+: x → ¬ top <+: x
  empty : ∀ x ∈ FileSystem.below place, (w.fs dstSide).node x = none

/-- A directory that is copied into. -/
structure Open (dstSide : Side) (dstAddress : PosixPath → PosixPath) (w : World) (path : PosixPath)
    (place : Loc) : Prop where
  lookup : (w.fs dstSide).lookup dstSide.cwd true (dstAddress path) = .found place
  dir : ∃ order access, (w.fs dstSide).node place = some (.dir order access)

/-- A path to a name that is missing, if the path leads anywhere. -/
structure Missing (dstSide : Side) (dstAddress : PosixPath → PosixPath) (w : World)
    (path : PosixPath) (place : Loc) : Prop where
  none : (w.fs dstSide).node place = none
  lookup : ∀ loc, (w.fs dstSide).lookup dstSide.cwd true (dstAddress path) ≠ .found loc
  absent : ∀ follow parent name,
    (w.fs dstSide).lookup dstSide.cwd follow (dstAddress path) = .absent parent name →
      parent ++ [name] = place
  strip : (dstAddress path).strip = dstAddress path

theorem Open.extends {part : Loc} (h : Open dstSide dstAddress w dest place)
    (hextends : Extends srcSide dstSide top part w w') : Open dstSide dstAddress w' dest place where
  lookup := (hextends.keeping dstSide.host).lookup h.lookup
  dir := by
    obtain ⟨order, access, hdir⟩ := h.dir
    obtain ⟨order', hdir'⟩ := (hextends.keeping dstSide.host).dir hdir
    exact ⟨order', access, hdir'⟩

theorem Free.child (h : Free srcSide dstSide top place w) (name : Name) :
    Free srcSide dstSide top (place ++ [name]) w where
  apart hhost x hx := h.apart hhost x ((List.prefix_append _ _).trans hx)
  empty x hx := h.empty x ⟨(List.prefix_append _ _).trans hx.1, by
    rintro rfl
    simpa using hx.1.length_le⟩

/-- A name that a directory lacks. -/
theorem Open.missing (hdst : dst.Serves dstSide dstAddress dstCopied dstLists)
    (h : Open dstSide dstAddress w dest place) (hname : FileSystem.Proper name)
    (hnone : (w.fs dstSide).node (place ++ [name]) = none) :
    Missing dstSide dstAddress w (dest.child name) (place ++ [name]) := by
  obtain ⟨order, access, hdir⟩ := h.dir
  obtain ⟨hstrip, left, hlookup⟩ := hdst.lookup_child h.lookup hname
  have hends : ∀ follow, (w.fs dstSide).lookup dstSide.cwd follow (dstAddress (dest.child name)) =
      if access.searchable = false then .failed eacces else .absent place name := by
    intro follow
    rw [hlookup, FileSystem.resolve_proper hname hdir, hnone]
  refine ⟨hnone, fun loc hfound => ?_, fun follow parent name' habsent => ?_, hstrip⟩
  · rw [hends] at hfound
    split at hfound <;> cases hfound
  · rw [hends] at habsent
    split at habsent <;> cases habsent
    rfl

theorem Missing.not_sees (h : Missing dstSide dstAddress w dest place) :
    ¬ ∃ loc node, Sees dstSide true w (dstAddress dest) loc node :=
  fun ⟨loc, _, hsees, _⟩ => h.lookup loc hsees

/-- The path of an entry of the source leads to the entry. -/
theorem Reads.entry (hsrc : src.Serves srcSide srcAddress srcCopied srcLists)
    (h : Reads srcSide srcAddress fs top w source loc)
    (hdir : fs.node loc = some (.dir order access)) (hname : FileSystem.Proper name)
    (hnode : fs.node (loc ++ [name]) = some node) {follow : Bool}
    (hfollow : follow = true → ∀ target, node ≠ .link target) {loc' : Loc} {node' : Node}
    (hsees : Sees srcSide follow w (srcAddress (source.child name)) loc' node') :
    loc' = loc ++ [name] ∧ node' = node ∧
      (w.fs srcSide).lookup srcSide.cwd follow (srcAddress (source.child name)) =
        .found (loc ++ [name]) := by
  have hdir' : (w.fs srcSide).node loc = some (.dir order access) := (h.kept loc h.below).trans hdir
  have hnode' : (w.fs srcSide).node (loc ++ [name]) = some node :=
    (h.kept _ (h.below.trans (List.prefix_append _ _))).trans hnode
  obtain ⟨-, left, hlookup⟩ := hsrc.lookup_child h.lookup hname
  have hends := (hlookup follow).trans (FileSystem.resolve_entry hname hdir' hnode' hfollow)
  obtain ⟨hfound, hthere⟩ := hsees
  have hsearch : access.searchable ≠ false := by
    intro hsearch
    rw [hends, if_pos hsearch] at hfound
    cases hfound
  rw [if_neg hsearch] at hends
  cases hends.symm.trans hfound
  cases hnode'.symm.trans hthere
  exact ⟨rfl, rfl, hends⟩

/-- A place is still missing when the disks are the same. -/
theorem Missing.of_sameDisks (h : Missing dstSide dstAddress w dest place)
    (hsame : SameDisks w w') :
    Missing dstSide dstAddress w' dest place := by
  have hfs := hsame.fs dstSide
  exact ⟨hfs ▸ h.none, hfs ▸ h.lookup, hfs ▸ h.absent, h.strip⟩

theorem Free.of_sameDisks (h : Free srcSide dstSide top place w) (hsame : SameDisks w w') :
    Free srcSide dstSide top place w' :=
  ⟨h.apart, hsame.fs dstSide ▸ h.empty⟩

theorem Reads.of_sameDisks (h : Reads srcSide srcAddress fs top w source loc)
    (hsame : SameDisks w w') : Reads srcSide srcAddress fs top w' source loc := by
  have hfs := hsame.fs srcSide
  exact ⟨hfs ▸ h.lookup, hfs ▸ h.kept, h.below⟩

/-- A file or a link that is put where nothing was. -/
theorem image_of_insert (hfs : fs.WellFormed) (hnode : fs.node loc = some node)
    (hleaf : FileSystem.hasEntries node = false)
    (hempty : ∀ x ∈ FileSystem.below (place ++ [name]), (w.fs dstSide).node x = none) {made : Node}
    (hdisk : w'.disk = Function.update w.disk dstSide.host ((w.fs dstSide).insert place name made))
    (hentry : made.entry = node.image srcCopied source) :
    IsImage srcCopied source fs loc (w'.fs dstSide) (place ++ [name]) := by
  intro rest
  rw [fs_of_update hdisk, FileSystem.insert_node]
  by_cases hrest : rest = []
  · subst hrest
    rw [List.append_nil, List.append_nil, if_pos rfl, hnode]
    exact congrArg some hentry
  · have hbelow : loc ++ rest ∈ FileSystem.below loc :=
      ⟨List.prefix_append _ _, by simpa using hrest⟩
    have hbelow' : place ++ [name] ++ rest ∈ FileSystem.below (place ++ [name]) :=
      ⟨List.prefix_append _ _, by simpa using hrest⟩
    have hup : place ++ [name] ++ rest ≠ place := by simp
    rw [if_neg hbelow'.2, if_neg hup, hempty _ hbelow',
      FileSystem.node_of_below_leaf hfs hnode hleaf hbelow]
    rfl

/-- A leaf that is put into its place is copied. -/
theorem put_copies (hfs : fs.WellFormed) (hnode : fs.node loc = some node)
    (hleaf : FileSystem.hasEntries node = false)
    (hfree : Free srcSide dstSide top (place ++ [name]) w)
    (hmissing : Missing dstSide dstAddress w dest (place ++ [name])) {follow : Bool}
    {isNew : Node → Prop}
    (hputs : Puts dstSide w w' ((w.fs dstSide).lookup dstSide.cwd follow (dstAddress dest)) isNew)
    (hentry : ∀ made, isNew made → made.entry = node.image srcCopied source) :
    Extends srcSide dstSide top (place ++ [name]) w w' ∧
      IsImage srcCopied source fs loc (w'.fs dstSide) (place ++ [name]) := by
  obtain ⟨parent, name', made, habsent, hnew, hdisk⟩ := hputs
  obtain ⟨rfl, hname⟩ := List.append_inj' (hmissing.absent follow parent name' habsent) rfl
  cases hname
  exact ⟨Extends.of_puts habsent hdisk fun hhost => hfree.apart hhost _ List.prefix_rfl,
    image_of_insert hfs hnode hleaf hfree.empty hdisk (hentry made hnew)⟩

theorem puts_of_ok {run : Except Fault Unit × World} {result : Lookup} {isNew : Node → Prop}
    (h : PutsOrFails dstSide w run result isNew) (hrun : run = (.ok (), w')) :
    Puts dstSide w w' result isNew := by
  subst hrun
  exact h.resolve_left fun hfails => hfails.2 rfl

theorem link_copies (hsrc : src.Serves srcSide srcAddress srcCopied srcLists)
    (hdst : dst.Serves dstSide dstAddress dstCopied dstLists) (hfs : fs.WellFormed)
    {target : PosixPath} (hnode : fs.node loc = some (.link target))
    (hsees : ∀ loc' node', Sees srcSide false w (srcAddress source) loc' node' →
      node' = .link target)
    (hfree : Free srcSide dstSide top (place ++ [name]) w)
    (hmissing : Missing dstSide dstAddress w dest (place ++ [name]))
    (hrun : (src.readlink source >>= fun text => dst.symlinkTo dest text) w = (.ok (), w')) :
    Extends srcSide dstSide top (place ++ [name]) w w' ∧
      IsImage srcCopied source fs loc (w'.fs dstSide) (place ++ [name]) := by
  obtain ⟨text, w₁, hread, hrun⟩ := Effect.bind_eq_ok_iff.mp hrun
  have hsame : SameDisks w w₁ := (hsrc.readlink source).of_run hread
  obtain ⟨_, _, hlink, htext⟩ := hsrc.readlink_ok hread
  cases hsees _ _ hlink
  obtain ⟨hextends, himage⟩ := put_copies hfs hnode rfl (hfree.of_sameDisks hsame)
    (hmissing.of_sameDisks hsame) (puts_of_ok (hdst.symlinkTo dest text w₁) hrun)
    fun made hmade => by rw [hmade, htext]; rfl
  exact ⟨(Extends.of_sameDisks hsame).trans hextends, himage⟩

theorem file_copies (hsrc : src.Serves srcSide srcAddress srcCopied srcLists)
    (hdst : dst.Serves dstSide dstAddress dstCopied dstLists) (hfs : fs.WellFormed)
    {content : Bytes} (hnode : fs.node loc = some (.file content))
    (hsees : ∀ loc' node', Sees srcSide true w (srcAddress source) loc' node' →
      node' = .file content)
    (hfree : Free srcSide dstSide top (place ++ [name]) w)
    (hmissing : Missing dstSide dstAddress w dest (place ++ [name]))
    (hrun : (src.readBytes source >>= fun data => dst.writeBytes dest data) w = (.ok (), w')) :
    Extends srcSide dstSide top (place ++ [name]) w w' ∧
      IsImage srcCopied source fs loc (w'.fs dstSide) (place ++ [name]) := by
  obtain ⟨data, w₁, hread, hrun⟩ := Effect.bind_eq_ok_iff.mp hrun
  have hsame : SameDisks w w₁ := (hsrc.readBytes source).of_run hread
  obtain ⟨_, _, hfile, -, hdata⟩ := hsrc.readBytes_ok hread
  cases hsees _ _ hfile
  have hmissing₁ := hmissing.of_sameDisks hsame
  obtain ⟨hextends, himage⟩ := put_copies hfs hnode rfl (hfree.of_sameDisks hsame) hmissing₁
    (puts_of_ok (hdst.writeBytes dest data w₁ hmissing₁.not_sees) hrun) fun made hmade => by
      obtain ⟨content', rfl, hwhole⟩ := hmade
      rw [hwhole (congrArg Prod.fst hrun), hdata content rfl]
      rfl
  exact ⟨(Extends.of_sameDisks hsame).trans hextends, himage⟩

/-- What the copy of one entry makes, given what the copy of a directory makes. -/
theorem cpEntry_copies (hsrc : src.Serves srcSide srcAddress srcCopied srcLists)
    (hdst : dst.Serves dstSide dstAddress dstCopied dstLists) (hfs : fs.WellFormed)
    (hreads : Reads srcSide srcAddress fs top w source loc)
    (hdir : fs.node loc = some (.dir order access)) (hplain : Plain srcLists fs source loc)
    (hopen : Open dstSide dstAddress w dest place)
    (hfree : Free srcSide dstSide top (place ++ [name]) w)
    (hnone : (w.fs dstSide).node (place ++ [name]) = none)
    (hname : name ∈ FileSystem.children order) {recur : PosixPath → PosixPath → Call Unit}
    (hrecur : ∀ order access w w', fs.node (loc ++ [name]) = some (.dir order access) →
      Reads srcSide srcAddress fs top w (source.child name) (loc ++ [name]) →
      Free srcSide dstSide top (place ++ [name]) w →
      Missing dstSide dstAddress w (dest.child name) (place ++ [name]) →
      recur (source.child name) (dest.child name) w = (.ok (), w') →
      Extends srcSide dstSide top (place ++ [name]) w w' ∧
        IsImage srcCopied (source.child name) fs (loc ++ [name]) (w'.fs dstSide) (place ++ [name]))
    (hrun : cpEntry src dst force recur dest (source.child name) w = (.ok (), w')) :
    Extends srcSide dstSide top (place ++ [name]) w w' ∧
      IsImage srcCopied (source.child name) fs (loc ++ [name]) (w'.fs dstSide)
        (place ++ [name]) := by
  obtain ⟨hproper, node, hnode⟩ := hfs.exists_child hdir hname
  rw [cpEntry, PosixPath.name_child _ hproper, Effect.bind_eq_ok_iff] at hrun
  obtain ⟨mode, w₁, hlstat, hrun⟩ := hrun
  have hsame : SameDisks w w₁ := (hsrc.lstat (source.child name)).of_run hlstat
  obtain ⟨_, _, hsees, hmode⟩ := hsrc.lstat_ok hlstat
  obtain ⟨-, hthere, hlookup⟩ := hreads.entry hsrc hdir hproper hnode (by simp) hsees
  rw [hthere] at hmode
  have hreads₁ := hreads.of_sameDisks hsame
  have hfree₁ := hfree.of_sameDisks hsame
  have hmissing₁ := (hopen.missing hdst hproper hnone).of_sameDisks hsame
  have hentry : ∀ follow, (follow = true → ∀ target, node ≠ .link target) → ∀ loc' node',
      Sees srcSide follow w₁ (srcAddress (source.child name)) loc' node' → node' = node :=
    fun follow hfollow _ _ hsees => (hreads₁.entry hsrc hdir hproper hnode hfollow hsees).2.1
  suffices hcopied : Extends srcSide dstSide top (place ++ [name]) w₁ w' ∧
      IsImage srcCopied (source.child name) fs (loc ++ [name]) (w'.fs dstSide)
        (place ++ [name]) from
    ⟨(Extends.of_sameDisks hsame).trans hcopied.1, hcopied.2⟩
  rw [hmode, Node.fileType_mode] at hrun
  cases node with
  | dir childOrder childAccess =>
    have htype : (Node.dir childOrder childAccess).typeBits = sIfdir := rfl
    rw [if_pos htype] at hrun
    have hkept := hreads₁.kept _ (hreads.below.trans (List.prefix_append loc [name]))
    have hfound : (w₁.fs srcSide).lookup srcSide.cwd true (srcAddress (source.child name)) =
        .found (loc ++ [name]) := by
      rw [← hsame.fs srcSide] at hlookup
      apply FileSystem.lookup_follow hlookup
      intro target hlink
      rw [hkept, hnode] at hlink
      cases hlink
    exact hrecur childOrder childAccess w₁ w' hnode
      ⟨hfound, hreads₁.kept, hreads.below.trans (List.prefix_append _ _)⟩ hfree₁ hmissing₁ hrun
  | link target =>
    have htype : (Node.link target).typeBits = sIflnk := rfl
    rw [htype, if_neg (by decide), if_pos rfl] at hrun
    exact link_copies hsrc hdst hfs hnode (hentry false (by simp)) hfree₁ hmissing₁ hrun
  | file content =>
    have htype : (Node.file content).typeBits = sIfreg := rfl
    rw [htype, if_neg (by decide), if_neg (by decide)] at hrun
    obtain ⟨there, w₂, hexists, hrun⟩ := Effect.bind_eq_ok_iff.mp hrun
    have hsame₂ : SameDisks w₁ w₂ := (hdst.pathExists (dest.child name)).of_run hexists
    have hthere : ¬ (there = true ∧ force = false) := fun h =>
      hmissing₁.not_sees ((hdst.pathExists_ok hexists).mp h.1)
    rw [if_neg hthere] at hrun
    obtain ⟨hextends, himage⟩ := file_copies hsrc hdst hfs hnode
      (fun loc' node' hsees =>
        hentry true (by simp) loc' node' (by rwa [Sees, ← hsame₂.fs srcSide]))
      (hfree₁.of_sameDisks hsame₂) (hmissing₁.of_sameDisks hsame₂) hrun
    exact ⟨(Extends.of_sameDisks hsame₂).trans hextends, himage⟩
  | special kind => exact absurd hnode (hplain.plain [name] kind)

/-- Outside of the part nothing is changed. -/
theorem Extends.entry_eq {part x : Loc} (h : Extends srcSide dstSide top part w w')
    (hx : ¬ part <+: x) :
    ((w'.fs dstSide).node x).map Node.entry = ((w.fs dstSide).node x).map Node.entry := by
  have hbare := congrArg (Option.map Node.entry) (h.frame x hx)
  have hentry : Node.entry ∘ Node.bare = Node.entry := funext Node.entry_bare
  rwa [Option.map_map, Option.map_map, hentry] at hbare

/-- What was missing there is still missing. -/
theorem Extends.none {part x : Loc} (h : Extends srcSide dstSide top part w w')
    (hx : ¬ part <+: x) (hnone : (w.fs dstSide).node x = none) : (w'.fs dstSide).node x = none := by
  have hentry := h.entry_eq hx
  rw [hnone] at hentry
  exact Option.map_eq_none_iff.mp hentry

theorem not_prefix_of_ne {other : Name} (hne : other ≠ name) (place rest : Loc) :
    ¬ place ++ [name] <+: place ++ [other] ++ rest := by
  intro hprefixed
  rw [List.append_assoc, List.prefix_append_right_inj] at hprefixed
  exact hne (List.cons_prefix_cons.mp hprefixed).1.symm

/-- Some entries of a directory have been copied, and nothing is where the others go. -/
structure CopiedUpTo (srcSide dstSide : Side) (srcCopied : PosixPath → PosixPath → PosixPath)
    (fs : FileSystem) (top loc place : Loc) (source : PosixPath) (w : World) (before : List Name)
    (t : World) : Prop where
  extended : Extends srcSide dstSide top place w t
  done : ∀ name ∈ before, IsImage srcCopied (source.child name) fs (loc ++ [name]) (t.fs dstSide)
    (place ++ [name])
  left : ∀ name ∉ before, ∀ rest, (t.fs dstSide).node (place ++ [name] ++ rest) = none

theorem CopiedUpTo.start (hfree : Free srcSide dstSide top place w) :
    CopiedUpTo srcSide dstSide srcCopied fs top loc place source w [] w where
  extended := Extends.of_sameDisks rfl
  done _ hname := by cases hname
  left name _ rest :=
    hfree.empty _ ⟨by rw [List.append_assoc]; exact List.prefix_append _ _, by simp⟩

theorem CopiedUpTo.next {before : List Name} {s t : World}
    (h : CopiedUpTo srcSide dstSide srcCopied fs top loc place source w before s)
    (hstep : Extends srcSide dstSide top (place ++ [name]) s t)
    (himage : IsImage srcCopied (source.child name) fs (loc ++ [name]) (t.fs dstSide)
      (place ++ [name])) :
    CopiedUpTo srcSide dstSide srcCopied fs top loc place source w (before ++ [name]) t where
  extended := h.extended.trans (hstep.mono (List.prefix_append _ _))
  done other hother rest := by
    -- the entries before this one lie apart from its copy
    by_cases hsame : other = name
    · subst hsame
      exact himage rest
    · have hbefore : other ∈ before := by simpa [hsame] using hother
      rw [hstep.entry_eq (not_prefix_of_ne hsame place rest)]
      exact h.done other hbefore rest
  left other hother rest := by
    rw [List.mem_append, List.mem_singleton, not_or] at hother
    exact hstep.none (not_prefix_of_ne hother.2 place rest) (h.left other hother.1 rest)

/-- The place of an entry that is left is free. -/
theorem CopiedUpTo.free {before : List Name} {s : World}
    (h : CopiedUpTo srcSide dstSide srcCopied fs top loc place source w before s)
    (hfree : Free srcSide dstSide top place w) (hname : name ∉ before) :
    Free srcSide dstSide top (place ++ [name]) s ∧
      (s.fs dstSide).node (place ++ [name]) = none := by
  refine ⟨⟨(hfree.child name).apart, fun x hx => ?_⟩, ?_⟩
  · obtain ⟨rest, rfl⟩ := hx.1
    exact h.left name hname rest
  · have hnone := h.left name hname []
    rwa [List.append_nil] at hnone

/-- When all entries have been copied, the directory has. -/
theorem CopiedUpTo.image (hfs : fs.WellFormed) (hdir : fs.node loc = some (.dir order access))
    (hopen : Open dstSide dstAddress w' dest place)
    (h : CopiedUpTo srcSide dstSide srcCopied fs top loc place source w (FileSystem.children order)
      w') :
    IsImage srcCopied source fs loc (w'.fs dstSide) place := by
  intro rest
  cases rest with
  | nil =>
    obtain ⟨order', access', hplace⟩ := hopen.dir
    rw [List.append_nil, List.append_nil, hplace, hdir]
    rfl
  | cons name rest =>
    have hsplit : ∀ start : Loc, start ++ name :: rest = start ++ [name] ++ rest := by simp
    rw [hsplit, hsplit]
    by_cases hname : name ∈ FileSystem.children order
    · exact h.done name hname rest
    · -- the source has no such entry either
      have hnone : fs.node (loc ++ [name] ++ rest) = none := by
        by_contra hsome
        obtain ⟨hproper, order', access', hdir', hmem⟩ := (hfs.listed loc name).mp
          (FileSystem.isSome_of_append hfs (Option.isSome_iff_ne_none.mpr hsome))
        cases hdir.symm.trans hdir'
        exact hname (List.mem_filter.mpr ⟨hmem, by simpa using hproper.2⟩)
      rw [h.left name hname rest, hnone]
      rfl

section Entries

variable {body : PosixPath → Call Unit} (hfs : fs.WellFormed)
  (hreads : Reads srcSide srcAddress fs top w source loc)
  (hdir : fs.node loc = some (.dir order access))
  (hopen : Open dstSide dstAddress w dest place) (hfree : Free srcSide dstSide top place w)
  (hentry : ∀ name w w', name ∈ FileSystem.children order →
    Reads srcSide srcAddress fs top w source loc → Open dstSide dstAddress w dest place →
    Free srcSide dstSide top (place ++ [name]) w → (w.fs dstSide).node (place ++ [name]) = none →
    body (source.child name) w = (.ok (), w') →
    Extends srcSide dstSide top (place ++ [name]) w w' ∧
      IsImage srcCopied (source.child name) fs (loc ++ [name]) (w'.fs dstSide) (place ++ [name]))

include hfs hreads hdir hopen hfree hentry

/-- What the copy of the first entries makes, given what the copy of each one makes. -/
theorem entries_copiedUpTo {first rest : List Name}
    (hsplit : FileSystem.children order = first ++ rest)
    (hrun : Effect.forEach body (first.map source.child) w = (.ok (), w')) :
    CopiedUpTo srcSide dstSide srcCopied fs top loc place source w first w' := by
  have hstep : ∀ before name after s t, first = before ++ name :: after →
      CopiedUpTo srcSide dstSide srcCopied fs top loc place source w before s →
      body (source.child name) s = (.ok (), t) →
      CopiedUpTo srcSide dstSide srcCopied fs top loc place source w (before ++ [name]) t := by
    intro before name after s t hfirst hbefore hbody
    have hall : FileSystem.children order = before ++ name :: (after ++ rest) := by
      rw [hsplit, hfirst, List.append_assoc, List.cons_append]
    have hname : name ∈ FileSystem.children order :=
      hall ▸ List.mem_append_right _ List.mem_cons_self
    obtain ⟨hfree', hnone⟩ := hbefore.free hfree (hfs.not_mem_before hdir hall)
    obtain ⟨hextends, himage⟩ := hentry name s t hname (hreads.extends hbefore.extended)
      (hopen.extends hbefore.extended) hfree' hnone hbody
    exact hbefore.next hextends himage
  rw [Effect.forEach_map] at hrun
  exact Effect.forEach_induction
    (CopiedUpTo srcSide dstSide srcCopied fs top loc place source w) (.start hfree) hstep hrun

/-- What the copy of all entries makes. -/
theorem entries_copy
    (hrun : Effect.forEach body ((FileSystem.children order).map source.child) w = (.ok (), w')) :
    Extends srcSide dstSide top place w w' ∧
      IsImage srcCopied source fs loc (w'.fs dstSide) place := by
  have hall := entries_copiedUpTo hfs hreads hdir hopen hfree hentry (List.append_nil _).symm hrun
  exact ⟨hall.extended, hall.image hfs hdir (hopen.extends hall.extended)⟩

end Entries

/-- A directory that is made where a name was missing. -/
theorem opens_of_puts (hfree : Free srcSide dstSide top place w)
    (hputs : Puts dstSide w w' ((w.fs dstSide).lookup dstSide.cwd false (dstAddress dest).strip)
      fun node => ∃ access, node = .dir [".", ".."] access)
    (habsent : ∀ parent name, (w.fs dstSide).lookup dstSide.cwd false (dstAddress dest).strip =
      .absent parent name → parent ++ [name] = place) :
    Extends srcSide dstSide top place w w' ∧ Open dstSide dstAddress w' dest place ∧
      Free srcSide dstSide top place w' := by
  obtain ⟨parent, name, _, hlookup, ⟨access, rfl⟩, hdisk⟩ := hputs
  obtain rfl := habsent parent name hlookup
  have hnode : (w'.fs dstSide).node (parent ++ [name]) = some (.dir [".", ".."] access) := by
    rw [fs_of_update hdisk, FileSystem.insert_node, if_pos rfl]
  have hfound : (w'.fs dstSide).lookup dstSide.cwd true (dstAddress dest) =
      .found (parent ++ [name]) := by
    rw [fs_of_update hdisk]
    exact FileSystem.lookup_insert_dir hlookup
  refine ⟨Extends.of_puts hlookup hdisk fun hhost => hfree.apart hhost _ List.prefix_rfl,
    ⟨hfound, _, _, hnode⟩, hfree.apart, fun x hx => ?_⟩
  have hup : x ≠ parent := by
    rintro rfl
    simpa using hx.1.length_le
  rw [fs_of_update hdisk, FileSystem.insert_node, if_neg hx.2, if_neg hup]
  exact hfree.empty x hx

/-- A directory that is made where nothing is yet, unless an empty one is there. -/
theorem opens_unless (hdst : dst.Serves dstSide dstAddress dstCopied dstLists)
    (hfree : Free srcSide dstSide top place w)
    (hplace : Open dstSide dstAddress w dest place ∨ Missing dstSide dstAddress w dest place)
    {make : Call Unit} (hmake : ∀ s, make s = (.ok (), w') →
      ∃ t mode, SameDisks s t ∧ dst.mkdir dest mode t = (.ok (), w'))
    {there : Bool} {w₁ : World} (hexists : dst.pathExists dest w = (.ok there, w₁))
    (hrun : (if there = true then pure () else make) w₁ = (.ok (), w')) :
    Extends srcSide dstSide top place w w' ∧ Open dstSide dstAddress w' dest place ∧
      Free srcSide dstSide top place w' := by
  have hsame : SameDisks w w₁ := (hdst.pathExists dest).of_run hexists
  rcases hplace with hopen | hmissing
  · obtain ⟨order, access, hdir⟩ := hopen.dir
    rw [if_pos ((hdst.pathExists_ok hexists).mpr ⟨place, _, hopen.lookup, hdir⟩)] at hrun
    obtain ⟨-, rfl⟩ := Effect.pure_eq_ok_iff.mp hrun
    have hextends : Extends srcSide dstSide top place w w₁ := Extends.of_sameDisks hsame
    exact ⟨hextends, hopen.extends hextends, hfree.of_sameDisks hsame⟩
  · rw [if_neg fun h => hmissing.not_sees ((hdst.pathExists_ok hexists).mp h)] at hrun
    obtain ⟨w₂, mode, hsame₂, hmkdir⟩ := hmake w₁ hrun
    have hsame' : SameDisks w w₂ := trans_of SameDisks hsame hsame₂
    have hmissing₂ := hmissing.of_sameDisks hsame'
    obtain ⟨hextends, hopened⟩ := opens_of_puts (hfree.of_sameDisks hsame')
      (puts_of_ok (hdst.mkdir dest mode w₂) hmkdir) fun parent name habsent =>
        hmissing₂.absent false parent name (hmissing₂.strip ▸ habsent)
    exact ⟨(Extends.of_sameDisks hsame').trans hextends, hopened⟩

/-- The start of the copy of a directory. -/
theorem makeMissing_opens (hsrc : src.Serves srcSide srcAddress srcCopied srcLists)
    (hdst : dst.Serves dstSide dstAddress dstCopied dstLists)
    (hfree : Free srcSide dstSide top place w)
    (hplace : Open dstSide dstAddress w dest place ∨ Missing dstSide dstAddress w dest place)
    (hrun : makeMissing src dst source dest w = (.ok (), w')) :
    Extends srcSide dstSide top place w w' ∧ Open dstSide dstAddress w' dest place ∧
      Free srcSide dstSide top place w' := by
  obtain ⟨there, w₁, hexists, hrun⟩ := Effect.bind_eq_ok_iff.mp hrun
  refine opens_unless hdst hfree hplace (fun s hmake => ?_) hexists hrun
  obtain ⟨mode, t, hlstat, hmkdir⟩ := Effect.bind_eq_ok_iff.mp hmake
  have hkept := (hsrc.lstat source).of_run hlstat
  exact ⟨t, mode, hkept, hmkdir⟩

/-- A copy of a directory that returns has made an image of it. -/
theorem cpDir_copies (hsrc : src.Serves srcSide srcAddress srcCopied srcLists)
    (hdst : dst.Serves dstSide dstAddress dstCopied dstLists) (hfs : fs.WellFormed)
    (hreads : Reads srcSide srcAddress fs top w source loc)
    (hdir : fs.node loc = some (.dir order access)) (hplain : Plain srcLists fs source loc)
    (hfree : Free srcSide dstSide top place w)
    (hplace : Open dstSide dstAddress w dest place ∨ Missing dstSide dstAddress w dest place)
    (hrun : cpDir src dst force fuel source dest w = (.ok (), w')) :
    Extends srcSide dstSide top place w w' ∧
      IsImage srcCopied source fs loc (w'.fs dstSide) place := by
  induction fuel generalizing source dest loc place order access w w' with
  | zero => cases hrun
  | succ fuel ih =>
    rw [cpDir, Effect.bind_eq_ok_iff] at hrun
    obtain ⟨⟨⟩, w₁, hmake, hrun⟩ := hrun
    obtain ⟨hextends, hopen, hfree₁⟩ := makeMissing_opens hsrc hdst hfree hplace hmake
    obtain ⟨files, w₂, hiterdir, hrun⟩ := Effect.bind_eq_ok_iff.mp hrun
    have hsame : SameDisks w₁ w₂ := (hsrc.iterdir source).of_run hiterdir
    have hreads₁ := hreads.extends hextends
    have hlists : srcLists source order := by
      have hlists := hplain.lists [] order access
      rw [List.append_nil] at hlists
      exact hlists hdir
    have hfiles := hsrc.iterdir_ok hiterdir
      ⟨hreads₁.lookup, (hreads₁.kept loc hreads₁.below).trans hdir⟩ hlists
    subst hfiles
    have hsame' : Extends srcSide dstSide top place w₁ w₂ := Extends.of_sameDisks hsame
    suffices hloop : Extends srcSide dstSide top place w₂ w' ∧
        IsImage srcCopied source fs loc (w'.fs dstSide) place from
      ⟨(hextends.trans hsame').trans hloop.1, hloop.2⟩
    -- the induction is on the depth that is left, so it covers the directories among the entries
    refine entries_copy hfs (hreads₁.of_sameDisks hsame) hdir (hopen.extends hsame')
      (hfree₁.of_sameDisks hsame) ?_ hrun
    intro name s t hname hreads hopen hfree hnone hbody
    refine cpEntry_copies hsrc hdst hfs hreads hdir hplain hopen hfree hnone hname ?_ hbody
    intro childOrder childAccess s t hchild hreads hfree hmissing hrun
    exact ih hreads hchild (hplain.child name) hfree (Or.inr hmissing) hrun

/-! ## The whole copy -/

/-- Where the copy of a source of this name is, under the place of the destination. -/
def copyPlace (root : Loc) (name : Name) : Loc := if name = "" then root else root ++ [name]

/-- A destination that is missing is made. -/
theorem makeDest_puts (hdst : dst.Serves dstSide dstAddress dstCopied dstLists)
    (hnone : ¬ ∃ loc node, Sees dstSide true w (dstAddress dest) loc node)
    (hrun : makeDest dst dest w = (.ok (), w')) :
    Puts dstSide w w' ((w.fs dstSide).lookup dstSide.cwd false (dstAddress dest).strip)
      fun node => ∃ access, node = .dir [".", ".."] access := by
  have hmkdir := hdst.mkdir dest 0o777 w
  rw [makeDest, Effect.handle] at hrun
  rcases hfirst : dst.mkdir dest 0o777 w with ⟨e | ⟨⟩, w₁⟩
  · rw [hfirst] at hrun hmkdir
    obtain ⟨there, w₂, hexists, hrun⟩ := Effect.bind_eq_ok_iff.mp hrun
    have hsame : SameDisks w₁ w₂ := (hdst.pathExists dest).of_run hexists
    -- the handler swallows the error if the destination exists after all
    cases there with
    | false => cases hrun
    | true =>
      obtain ⟨-, rfl⟩ := Effect.pure_eq_ok_iff.mp hrun
      -- a `mkdir` that raises may have made the directory before its reply was lost
      rcases hmkdir with ⟨hunchanged, -⟩ | ⟨parent, name, node, habsent, hnew, hdisk⟩
      · -- nothing has been made, so the destination still does not exist
        obtain ⟨loc, node, hsees⟩ := (hdst.pathExists_ok hexists).mp rfl
        rw [Sees, hunchanged.fs dstSide] at hsees
        exact absurd ⟨loc, node, hsees⟩ hnone
      · exact ⟨parent, name, node, habsent, hnew, hsame.trans hdisk⟩
  · rw [hfirst] at hrun hmkdir
    exact puts_of_ok hmkdir hrun

/-- A place that is missing on a machine is free, if the source is not around it. -/
theorem free_of_missing (hwf : ∀ host, (w.disk host).WellFormed)
    (hsome : ((w.fs srcSide).node top).isSome)
    (hnone : (w.fs dstSide).node place = none)
    (hapart : srcSide.host = dstSide.host → ¬ top <+: place) :
    Free srcSide dstSide top place w := by
  refine ⟨fun hhost x hplace htop => ?_, fun x hx => ?_⟩
  · -- a node below both lies on one branch: the source is around the place, or below it
    rcases List.prefix_or_prefix_of_prefix htop hplace with h | ⟨rest, rfl⟩
    · exact hapart hhost h
    · have hsame : w.fs srcSide = w.fs dstSide := congrArg w.disk hhost
      rw [hsame] at hsome
      have hplaced := FileSystem.isSome_of_append (hwf dstSide.host) hsome
      rw [World.fs] at hnone
      rw [hnone] at hplaced
      cases hplaced
  · obtain ⟨⟨rest, rfl⟩, -⟩ := hx
    by_contra hbelow
    have hplaced := FileSystem.isSome_of_append (hwf dstSide.host)
      (Option.isSome_iff_ne_none.mpr hbelow)
    rw [World.fs] at hnone
    rw [hnone] at hplaced
    cases hplaced

theorem proper_name {path : PosixPath} (hne : path.name ≠ "") (hup : path.name ≠ "..") :
    FileSystem.Proper path.name := by
  refine ⟨hne, fun hdot => hdot.elim (fun hstay => ?_) hup⟩
  have hmem : path.name ∈ path.named := by
    rw [PosixPath.name, List.getLastD_eq_getLast?] at hne ⊢
    cases hlast : path.named.getLast? with
    | none => simp [hlast] at hne
    | some last => simpa using List.mem_of_getLast? hlast
  rw [hstay] at hmem
  simp [PosixPath.named] at hmem

/-- The path of the copy, before the copy is made. -/
theorem open_or_missing (hdst : dst.Serves dstSide dstAddress dstCopied dstLists)
    (hopen : Open dstSide dstAddress w dest place) (hfree : Free srcSide dstSide top place w)
    (hup : source.name ≠ "..") :
    Open dstSide dstAddress w (dest.child source.name) (copyPlace place source.name) ∨
      Missing dstSide dstAddress w (dest.child source.name) (copyPlace place source.name) := by
  rw [copyPlace]
  -- the child of that name is the destination itself
  by_cases hname : source.name = ""
  · obtain ⟨order, access, hdir⟩ := hopen.dir
    rw [if_pos hname, hname]
    exact Or.inl ⟨hdst.lookup_child_empty hopen.lookup hdir, order, access, hdir⟩
  · rw [if_neg hname]
    exact Or.inr (hopen.missing hdst (proper_name hname hup)
      (hfree.empty _ ⟨List.prefix_append _ _, by simp⟩))

/-- The place of a source in the destination is free. -/
theorem Free.copyPlace (hfree : Free srcSide dstSide top place w) (name : Name) :
    Free srcSide dstSide top (copyPlace place name) w := by
  rw [RpcProject.Files.copyPlace]
  split
  · exact hfree
  · exact hfree.child name

theorem prefix_copyPlace (place : Loc) (name : Name) : place <+: copyPlace place name := by
  rw [copyPlace]
  split
  · exact List.prefix_rfl
  · exact List.prefix_append _ _

/-- The directory that is made as the place of the copy, unless that is the destination. -/
theorem makePlace_opens (hsrc : src.Serves srcSide srcAddress srcCopied srcLists)
    (hdst : dst.Serves dstSide dstAddress dstCopied dstLists)
    (hup : source.name ≠ "..") (hopen : Open dstSide dstAddress w dest place)
    (hfree : Free srcSide dstSide top place w)
    (hrun : makePlace src dst source (dest.child source.name) w = (.ok (), w')) :
    Extends srcSide dstSide top (copyPlace place source.name) w w' ∧
      Open dstSide dstAddress w' (dest.child source.name) (copyPlace place source.name) ∧
      Free srcSide dstSide top (copyPlace place source.name) w' := by
  obtain ⟨mode, w₁, hstat, hrun⟩ := Effect.bind_eq_ok_iff.mp hrun
  have hsame : SameDisks w w₁ := (hsrc.stat source).of_run hstat
  obtain ⟨there, w₂, hexists, hrun⟩ := Effect.bind_eq_ok_iff.mp hrun
  have hsame' : Extends srcSide dstSide top (copyPlace place source.name) w w₁ :=
    Extends.of_sameDisks hsame
  have hopen₁ := hopen.extends hsame'
  have hfree₁ := hfree.of_sameDisks hsame
  obtain ⟨hextends, hopened⟩ := opens_unless hdst (hfree₁.copyPlace source.name)
    (open_or_missing hdst hopen₁ hfree₁ hup) (fun s hmkdir => ⟨s, mode, rfl, hmkdir⟩) hexists hrun
  exact ⟨hsame'.trans hextends, hopened⟩

/-- A source that is a directory is copied. -/
theorem cpSourceDir_copies (hsrc : src.Serves srcSide srcAddress srcCopied srcLists)
    (hdst : dst.Serves dstSide dstAddress dstCopied dstLists) (hfs : fs.WellFormed)
    (hreads : Reads srcSide srcAddress fs top w source loc)
    (hdir : fs.node loc = some (.dir order access)) (hplain : Plain srcLists fs source loc)
    (hup : source.name ≠ "..") (hopen : Open dstSide dstAddress w dest place)
    (hfree : Free srcSide dstSide top place w)
    (hrun : cpSourceDir src dst force fuel source dest w = (.ok (), w')) :
    Extends srcSide dstSide top place w w' ∧
      IsImage srcCopied source fs loc (w'.fs dstSide) (copyPlace place source.name) := by
  rw [cpSourceDir_eq, Effect.bind_eq_ok_iff] at hrun
  obtain ⟨⟨⟩, w₁, hmake, hrun⟩ := hrun
  obtain ⟨hextends, hopen₁, hfree₁⟩ := makePlace_opens hsrc hdst hup hopen hfree hmake
  obtain ⟨hcopied, himage⟩ :=
      cpDir_copies hsrc hdst hfs (hreads.extends hextends) hdir hplain hfree₁
    (Or.inl hopen₁) hrun
  exact ⟨(hextends.trans hcopied).mono (prefix_copyPlace _ _), himage⟩

/-- A file is copied into a directory that exists. -/
theorem fileDest_ok (hdst : dst.Serves dstSide dstAddress dstCopied dstLists)
    (hopen : Open dstSide dstAddress w dest place) {curDest : PosixPath}
    (hrun : fileDest dst source dest w = (.ok curDest, w')) :
    curDest = dest.child source.name := by
  obtain ⟨order, access, hdir⟩ := hopen.dir
  obtain ⟨there, w₁, hexists, hrun⟩ := Effect.bind_eq_ok_iff.mp hrun
  rw [if_pos ((hdst.pathExists_ok hexists).mpr ⟨place, _, hopen.lookup, hdir⟩)] at hrun
  have hsame : SameDisks w w₁ := (hdst.pathExists dest).of_run hexists
  have hextends : Extends dstSide dstSide [] [] w w₁ := Extends.of_sameDisks hsame
  have hopen₁ := hopen.extends hextends
  obtain ⟨order₁, access₁, hdir₁⟩ := hopen₁.dir
  obtain ⟨isDir, w₂, hisDir, hrun⟩ := Effect.bind_eq_ok_iff.mp hrun
  have hdirectory : isDir = true :=
    hdst.isDir_ok hisDir ⟨hopen₁.lookup, hdir₁⟩ fun kind hkind => (by cases hkind)
  rw [if_pos hdirectory] at hrun
  exact (Effect.pure_eq_ok_iff.mp hrun).1.symm

theorem cpSourceFile_copies (hsrc : src.Serves srcSide srcAddress srcCopied srcLists)
    (hdst : dst.Serves dstSide dstAddress dstCopied dstLists) (hfs : fs.WellFormed)
    (hreads : Reads srcSide srcAddress fs top w source loc) {content : Bytes}
    (hfile : fs.node loc = some (.file content)) (hproper : FileSystem.Proper source.name)
    (hopen : Open dstSide dstAddress w dest place) (hfree : Free srcSide dstSide top place w)
    (hrun : cpSourceFile src dst force source dest w = (.ok (), w')) :
    Extends srcSide dstSide top place w w' ∧
      IsImage srcCopied source fs loc (w'.fs dstSide) (place ++ [source.name]) := by
  obtain ⟨curDest, w₁, hdest, hrun⟩ := Effect.bind_eq_ok_iff.mp hrun
  obtain rfl := fileDest_ok hdst hopen hdest
  have hsame : SameDisks w w₁ := (sameDisks_fileDest hdst source dest).of_run hdest
  obtain ⟨there, w₂, hexists, hrun⟩ := Effect.bind_eq_ok_iff.mp hrun
  have hsame₂ : SameDisks w w₂ := by
    have hkept := (hdst.pathExists (dest.child source.name)).of_run hexists
    exact trans_of SameDisks hsame hkept
  have hnone : (w.fs dstSide).node (place ++ [source.name]) = none :=
    hfree.empty _ ⟨List.prefix_append _ _, by simp⟩
  have hmissing := hopen.missing hdst hproper hnone
  have hthere : there = false := Bool.eq_false_iff.mpr fun h =>
    (hmissing.of_sameDisks hsame).not_sees ((hdst.pathExists_ok hexists).mp h)
  rw [if_pos (Or.inl hthere)] at hrun
  obtain ⟨hextends, himage⟩ := file_copies hsrc hdst hfs hfile
    (fun loc' node' hsees => by
      have hreads₂ := hreads.of_sameDisks hsame₂
      cases hreads₂.lookup.symm.trans hsees.1
      have hkept := (hreads₂.kept loc hreads₂.below).trans hfile
      exact Option.some.inj (hsees.2.symm.trans hkept))
    ((hfree.child source.name).of_sameDisks hsame₂) (hmissing.of_sameDisks hsame₂) hrun
  exact ⟨(Extends.of_sameDisks hsame₂).trans (hextends.mono (List.prefix_append _ _)), himage⟩

/-- What the copy of a source makes in a directory that is empty. -/
theorem cpSource_copies (hsrc : src.Serves srcSide srcAddress srcCopied srcLists)
    (hdst : dst.Serves dstSide dstAddress dstCopied dstLists) (hfs : fs.WellFormed)
    (hreads : Reads srcSide srcAddress fs loc w source loc) (hsource : fs.node loc = some node)
    (hlink : fs.NotLink loc) (hplain : Plain srcLists fs source loc)
    (hunnamed : source.name = "" → ∃ order access, fs.node loc = some (.dir order access))
    (hup : source.name ≠ "..") (hopen : Open dstSide dstAddress w dest place)
    (hfree : Free srcSide dstSide loc place w)
    (hrun : cpSource src dst force fuel true dest source w = (.ok (), w')) :
    Extends srcSide dstSide loc place w w' ∧
      IsImage srcCopied source fs loc (w'.fs dstSide) (copyPlace place source.name) := by
  have hsees : ∀ {t : World}, SameDisks w t → Sees srcSide true t (srcAddress source) loc node :=
    fun hsame => by
      have hreads' := hreads.of_sameDisks hsame
      exact ⟨hreads'.lookup, (hreads'.kept loc hreads'.below).trans hsource⟩
  obtain ⟨there, w₁, hexists, hrun⟩ := Effect.bind_eq_ok_iff.mp hrun
  have hsame₁ : SameDisks w w₁ := (hsrc.pathExists source).of_run hexists
  rw [if_pos ((hsrc.pathExists_ok hexists).mpr ⟨loc, node, hsees rfl⟩)] at hrun
  obtain ⟨isDir, w₂, hisDir, hrun⟩ := Effect.bind_eq_ok_iff.mp hrun
  have hsame₂ : SameDisks w w₂ := by
    have hkept := (hsrc.isDir source).of_run hisDir
    exact trans_of SameDisks hsame₁ hkept
  have hspecial : ∀ kind, node ≠ .special kind := fun kind hkind =>
    hplain.plain [] kind (by rw [List.append_nil, hsource, hkind])
  have hdirectory := hsrc.isDir_ok hisDir (hsees hsame₁) hspecial
  have hsame' : Extends srcSide dstSide loc place w w₂ := Extends.of_sameDisks hsame₂
  have hreads₂ := hreads.of_sameDisks hsame₂
  have hopen₂ := hopen.extends hsame'
  have hfree₂ := hfree.of_sameDisks hsame₂
  suffices hcopied : Extends srcSide dstSide loc place w₂ w' ∧
      IsImage srcCopied source fs loc (w'.fs dstSide) (copyPlace place source.name) from
    ⟨hsame'.trans hcopied.1, hcopied.2⟩
  cases node with
  | dir order access =>
    have hisTrue : isDir = true := hdirectory
    rw [if_pos hisTrue, if_pos rfl] at hrun
    exact cpSourceDir_copies hsrc hdst hfs hreads₂ hsource hplain hup hopen₂ hfree₂ hrun
  | file content =>
    rw [if_neg (by rw [hdirectory]; exact Bool.false_ne_true)] at hrun
    have hname : source.name ≠ "" := fun hname => by
      obtain ⟨order, access, hdir⟩ := hunnamed hname
      cases hsource.symm.trans hdir
    rw [copyPlace, if_neg hname]
    exact cpSourceFile_copies hsrc hdst hfs hreads₂ hsource
      (proper_name hname hup) hopen₂ hfree₂ hrun
  | link target => exact absurd hsource (hlink target)
  | special kind => exact absurd rfl (hspecial kind)

/-- The directory that is made as the destination. -/
theorem makeDest_opens (hdst : dst.Serves dstSide dstAddress dstCopied dstLists)
    (hwf : ∀ host, (w.disk host).WellFormed) (hsource : ((w.fs srcSide).node top).isSome)
    (hnone : ¬ ∃ loc node, Sees dstSide true w (dstAddress dest) loc node)
    (hapart : srcSide.host = dstSide.host → ∀ parent name,
      (w.fs dstSide).lookup dstSide.cwd false (dstAddress dest).strip = .absent parent name →
      ¬ top <+: parent ++ [name])
    (hrun : makeDest dst dest w = (.ok (), w')) :
    ∃ place, Extends srcSide dstSide top place w w' ∧ Open dstSide dstAddress w' dest place ∧
      Free srcSide dstSide top place w' := by
  have hputs := makeDest_puts hdst hnone hrun
  obtain ⟨parent, name, -, habsent, -⟩ := id hputs
  refine ⟨parent ++ [name], opens_of_puts ?_ hputs fun parent' name' habsent' => ?_⟩
  · exact free_of_missing hwf hsource (FileSystem.lookup_absent habsent).2.1
      fun hhost => hapart hhost parent name habsent
  · cases habsent.symm.trans habsent'
    rfl

/-- A copy to a destination that does not exist starts with making it. -/
theorem cpReady_opens (hdst : dst.Serves dstSide dstAddress dstCopied dstLists)
    (hwf : ∀ host, (w.disk host).WellFormed) (hsource : ((w.fs srcSide).node top).isSome)
    (hnone : ¬ ∃ loc node, Sees dstSide true w (dstAddress dest) loc node)
    (hapart : srcSide.host = dstSide.host → ∀ parent name,
      (w.fs dstSide).lookup dstSide.cwd false (dstAddress dest).strip = .absent parent name →
      ¬ top <+: parent ++ [name])
    (hrun : cpReady dst [source] dest w = (.ok (), w')) :
    ∃ place, Extends srcSide dstSide top place w w' ∧ Open dstSide dstAddress w' dest place ∧
      Free srcSide dstSide top place w' := by
  obtain ⟨there, w₁, hexists, hrun⟩ := Effect.bind_eq_ok_iff.mp hrun
  have hsame : SameDisks w w₁ := (hdst.pathExists dest).of_run hexists
  have hthere : there = false :=
    Bool.eq_false_iff.mpr fun h => hnone ((hdst.pathExists_ok hexists).mp h)
  subst hthere
  obtain ⟨directory, w₂, hisDir, hrun⟩ := Effect.bind_eq_ok_iff.mp hrun
  obtain ⟨-, rfl⟩ := Effect.pure_eq_ok_iff.mp hisDir
  rw [if_neg fun h => absurd h.2 (by simp), if_pos rfl] at hrun
  have hwf₁ : ∀ host, (w₁.disk host).WellFormed := fun host => by
    rw [SameDisks] at hsame
    rw [hsame]
    exact hwf host
  have hdstFs := hsame.fs dstSide
  obtain ⟨place, hextends, hopened⟩ := makeDest_opens hdst hwf₁ (by rwa [hsame.fs srcSide])
    (by simpa only [Sees, hdstFs] using hnone) (by simpa only [hdstFs] using hapart) hrun
  exact ⟨place, (Extends.of_sameDisks hsame).trans hextends, hopened⟩

/-- The source is read from its own place. -/
theorem reads_top (hfound : (w.fs srcSide).lookup srcSide.cwd true (srcAddress source) =
    .found loc) :
    Reads srcSide srcAddress (w.fs srcSide) loc w source loc :=
  ⟨hfound, fun _ _ => rfl, List.prefix_rfl⟩

/-- A copy to a destination that does not exist, if it returns, has made an image of
the source. -/
theorem cp_copies (hsrc : src.Serves srcSide srcAddress srcCopied srcLists)
    (hdst : dst.Serves dstSide dstAddress dstCopied dstLists)
    (hwf : ∀ host, (w.disk host).WellFormed)
    (hfound : (w.fs srcSide).lookup srcSide.cwd true (srcAddress source) = .found loc)
    (hsource : (w.fs srcSide).node loc = some node)
    (hplain : Plain srcLists (w.fs srcSide) source loc) (hup : source.name ≠ "..")
    (hnone : ¬ ∃ loc node, Sees dstSide true w (dstAddress dest) loc node)
    (hapart : srcSide.host = dstSide.host → ∀ parent name,
      (w.fs dstSide).lookup dstSide.cwd false (dstAddress dest).strip = .absent parent name →
      ¬ loc <+: parent ++ [name])
    (hrun : cp src dst force fuel [source] dest true w = (.ok (), w')) :
    ∃ place, (w'.fs dstSide).lookup dstSide.cwd true (dstAddress dest) = .found place ∧
      IsImage srcCopied source (w.fs srcSide) loc (w'.fs dstSide)
        (copyPlace place source.name) := by
  have hfs : (w.fs srcSide).WellFormed := hwf srcSide.host
  rw [cp_eq, Effect.bind_eq_ok_iff] at hrun
  obtain ⟨⟨⟩, w₁, hready, hrun⟩ := hrun
  obtain ⟨w₂, hcopy, hrest⟩ := Effect.forEach_cons_eq_ok_iff.mp hrun
  obtain ⟨-, rfl⟩ := Effect.pure_eq_ok_iff.mp hrest
  obtain ⟨place, hextends, hopen, hfree⟩ :=
    cpReady_opens hdst hwf (Option.isSome_of_eq_some hsource) hnone hapart hready
  obtain ⟨hcopied, himage⟩ :=
      cpSource_copies hsrc hdst hfs ((reads_top hfound).extends hextends) hsource
    (hfs.notLink_of_lookup hfound) hplain
    (fun hname => hfs.dir_of_lookup_stay hfound (hsrc.stay_of_unnamed hname)) hup hopen hfree hcopy
  exact ⟨place, (hopen.extends hcopied).lookup, himage⟩

end Steps

/-! ## Push and pull -/

/-- The path that a call on the source is made with. -/
def Direction.sourceAddress : Direction → PosixPath → PosixPath
  | .push => PosixPath.normalise
  | .pull => id

/-- The path that a call on the destination is made with. -/
def Direction.destAddress : Direction → PosixPath → PosixPath
  | .push => id
  | .pull => PosixPath.normalise

namespace Environment

variable (env : Environment)

/-- The text that the copy of a link has. -/
def copiedText : Direction → PosixPath → PosixPath → PosixPath
  | .push => fun _ target => target.normalise
  | .pull => fun path target => (path.parent.joinPath (peeked env target)).normalise.normalise

/-- A directory of the source of which all entries are found. -/
def ListsAll : Direction → PosixPath → List Name → Prop
  | .push => fun _ _ => True
  | .pull => fun path order =>
      DotsFirst order ∧ ∀ name ∈ order, PathFits env.platform path.text name

/-- A tree of files, directories and links at the end of a path, and a destination
that does not exist and does not lie in the tree. -/
structure Copyable (direction : Direction) (source dest : PosixPath) (w : World) (loc : Loc) :
    Prop where
  wellFormed : ∀ host, (w.disk host).WellFormed
  sees : ∃ node, Sees (env.sourceSide direction) true w (direction.sourceAddress source) loc node
  plain : ∀ rest kind, (w.fs (env.sourceSide direction)).node (loc ++ rest) ≠ some (.special kind)
  missing : ¬ ∃ place node,
    Sees (env.destSide direction) true w (direction.destAddress dest) place node
  apart : (env.sourceSide direction).host = (env.destSide direction).host → ∀ parent name,
    (w.fs (env.destSide direction)).lookup (env.destSide direction).cwd false
      (direction.destAddress dest).strip = .absent parent name → ¬ loc <+: parent ++ [name]

/-- Under the destination is the tree that was at a location of the source. -/
def CopiedUnder (direction : Direction) (source dest : PosixPath) (w : World) (loc : Loc)
    (w' : World) : Prop :=
  ∃ place, (w'.fs (env.destSide direction)).lookup (env.destSide direction).cwd true
      (direction.destAddress dest) = .found place ∧
    SameTree (w.fs (env.sourceSide direction)) loc (w'.fs (env.destSide direction))
      (copyPlace place source.name)

end Environment

section Directions

variable {env : Environment} {direction : Direction} {fuel : ℕ} {source dest : PosixPath}
  {force : Bool} {w w' : World} {loc : Loc}

/-- A copy that returns has made an image. -/
theorem copy_copies (hcopyable : env.Copyable direction source dest w loc)
    (hup : source.name ≠ "..")
    (hlists : ∀ rest order access,
      (w.fs (env.sourceSide direction)).node (loc ++ rest) = some (.dir order access) →
      env.ListsAll direction (source.descendant rest) order)
    (hrun : env.copy direction fuel [source] dest true force w = (.ok (), w')) :
    ∃ place, (w'.fs (env.destSide direction)).lookup (env.destSide direction).cwd true
        (direction.destAddress dest) = .found place ∧
      IsImage (env.copiedText direction) source (w.fs (env.sourceSide direction)) loc
        (w'.fs (env.destSide direction)) (copyPlace place source.name) := by
  obtain ⟨node, hfound, hsource⟩ := hcopyable.sees
  cases direction with
  | push =>
    exact cp_copies (localPath_serves env) (remotePath_serves env) hcopyable.wellFormed hfound
      hsource ⟨hlists, hcopyable.plain⟩ hup hcopyable.missing hcopyable.apart hrun
  | pull =>
    exact cp_copies (remotePath_serves env) (localPath_serves env) hcopyable.wellFormed hfound
      hsource ⟨hlists, hcopyable.plain⟩ hup hcopyable.missing hcopyable.apart hrun

/-- A copy that returns is faithful just when the source is not itself a link and each
link in it has the text that is written for it. -/
theorem copiedUnder_iff_textsKept (env : Environment) (direction : Direction) (fuel : ℕ)
    (source dest : PosixPath) (force : Bool) (w w' : World) (itself loc : Loc)
    (hitself : (w.fs (env.sourceSide direction)).lookup (env.sourceSide direction).cwd false
      (direction.sourceAddress source) = .found itself)
    (hcopyable : env.Copyable direction source dest w loc) (hup : source.name ≠ "..")
    (hlists : ∀ rest order access,
      (w.fs (env.sourceSide direction)).node (loc ++ rest) = some (.dir order access) →
      env.ListsAll direction (source.descendant rest) order)
    (hrun : env.copy direction fuel [source] dest true force w = (.ok (), w')) :
    env.CopiedUnder direction source dest w itself w' ↔
      (w.fs (env.sourceSide direction)).NotLink itself ∧
        TextsKept (env.copiedText direction) source (w.fs (env.sourceSide direction)) itself := by
  obtain ⟨place, hplace, himage⟩ := copy_copies hcopyable hup hlists hrun
  obtain ⟨node, hfound, hsource⟩ := hcopyable.sees
  have hfs := hcopyable.wellFormed (env.sourceSide direction).host
  have hsame : (w.fs (env.sourceSide direction)).NotLink itself → itself = loc := by
    intro hlink
    cases (FileSystem.lookup_follow hitself hlink).symm.trans hfound
    rfl
  constructor
  · rintro ⟨place', hplace', htree⟩
    cases hplace.symm.trans hplace'
    have hlink : (w.fs (env.sourceSide direction)).NotLink itself := by
      intro target htarget
      -- the copy of what a link leads to is not a link
      have htop := (htree []).symm.trans (himage [])
      rw [List.append_nil, List.append_nil, htarget, hsource] at htop
      cases node with
      | link other => exact hfs.notLink_of_lookup hfound other hsource
      | dir order access => cases htop
      | file content => cases htop
      | special kind => cases htop
    obtain rfl := hsame hlink
    exact ⟨hlink, himage.sameTree_iff.mp htree⟩
  · rintro ⟨hlink, htexts⟩
    obtain rfl := hsame hlink
    exact ⟨place, hplace, himage.sameTree_iff.mpr htexts⟩

end Directions

/-! ## A tree with a link -/

/-- A client and a server on two machines, where no call raises an exception of its own. -/
def calmEnvironment : Environment where
  client := ⟨0, [], 0o022⟩
  server := ⟨1, [], 0o022⟩
  platform := .linux
  ignored errno := errno = enoent
  fault _ := none
  pieces _ bytes := .whole bytes
  device _ := []
  overread := id

/-- An empty disk. -/
def blankDisk : Disk :=
  .ofTable [([], .dir [".", ".."] ⟨true, true, true⟩)] (fun _ => true) (by decide)

/-- A tree with a file, a link and a directory without entries. -/
def linkDisk (target : PosixPath) : Disk :=
  .ofTable
    [([], .dir [".", "..", "t"] ⟨true, true, true⟩),
      (["t"], .dir [".", "..", "f", "l", "s"] ⟨true, true, true⟩),
      (["t", "f"], .file [1, 2]),
      (["t", "l"], .link target),
      (["t", "s"], .dir [".", ".."] ⟨true, true, true⟩)]
    (fun _ => true) (of_decide_eq_true rfl)

/-- The tree is on the server, and the client has no files. -/
def linkWorld (target : PosixPath) : World :=
  ⟨fun host => if host = 1 then (linkDisk target).toFileSystem else blankDisk.toFileSystem, 0⟩

/-- A tree with a link is pulled. -/
def pullTree (target : PosixPath) : Except Fault Unit × World :=
  calmEnvironment.copy .pull 3 [⟨true, ["t"]⟩] ⟨true, ["d"]⟩ true false (linkWorld target)

theorem copyable_linkWorld (target : PosixPath) :
    calmEnvironment.Copyable .pull ⟨true, ["t"]⟩ ⟨true, ["d"]⟩ (linkWorld target) ["t"] where
  wellFormed host := by
    simp only [linkWorld]
    split
    · exact (linkDisk target).wellFormed
    · exact blankDisk.wellFormed
  sees := ⟨_, rfl, rfl⟩
  plain rest kind hspecial := by simpa using FileSystem.mem_of_lookup hspecial
  missing := by
    rintro ⟨place, node, hfound, -⟩
    have habsent : blankDisk.lookup [] true ⟨true, ["d"]⟩ = .absent [] "d" := rfl
    cases habsent.symm.trans hfound
  apart hhost := by cases hhost

theorem listsAll_linkWorld (target : PosixPath) (rest : Loc) (order : List Name) (access : Access)
    (hdir : (linkDisk target).node (["t"] ++ rest) = some (.dir order access)) :
    calmEnvironment.ListsAll .pull (PosixPath.descendant ⟨true, ["t"]⟩ rest) order := by
  have hplaces : rest = [] ∧ order = [".", "..", "f", "l", "s"] ∧ access = ⟨true, true, true⟩ ∨
      rest = ["s"] ∧ order = [".", ".."] ∧ access = ⟨true, true, true⟩ := by
    simpa using FileSystem.mem_of_lookup hdir
  rcases hplaces with ⟨rfl, rfl, rfl⟩ | ⟨rfl, rfl, rfl⟩
  · exact ⟨dotsFirst_of_forall (by decide), by decide⟩
  · exact ⟨dotsFirst_of_forall (by decide), by decide⟩

/-- With an absolute target, the tree is copied as it is. -/
theorem copiedUnder_pullTree :
    calmEnvironment.CopiedUnder .pull ⟨true, ["t"]⟩ ⟨true, ["d"]⟩
      (linkWorld ⟨true, ["t", "f"]⟩) ["t"] (pullTree ⟨true, ["t", "f"]⟩).2 := by
  refine (copiedUnder_iff_textsKept calmEnvironment .pull 3 ⟨true, ["t"]⟩ ⟨true, ["d"]⟩ false
    (linkWorld ⟨true, ["t", "f"]⟩) (pullTree ⟨true, ["t", "f"]⟩).2 ["t"] ["t"] rfl
    (copyable_linkWorld _) (by decide) (listsAll_linkWorld _) rfl).mpr ⟨?_, ?_⟩
  · have hdir : (linkDisk ⟨true, ["t", "f"]⟩).node ["t"] =
        some (.dir [".", "..", "f", "l", "s"] ⟨true, true, true⟩) := rfl
    exact FileSystem.notLink_of_dir hdir
  · intro rest target hlink
    have hplace : rest = ["l"] ∧ target = ⟨true, ["t", "f"]⟩ := by
      simpa using FileSystem.mem_of_lookup hlink
    obtain ⟨rfl, rfl⟩ := hplace
    rfl

/-- A relative target comes out behind the directory of the link. -/
theorem not_copiedUnder_pullTree :
    (pullTree ⟨false, ["f"]⟩).1 = .ok () ∧
      calmEnvironment.Copyable .pull ⟨true, ["t"]⟩ ⟨true, ["d"]⟩ (linkWorld ⟨false, ["f"]⟩) ["t"] ∧
      (linkDisk ⟨false, ["f"]⟩).node ["t", "l"] = some (.link ⟨false, ["f"]⟩) ∧
      ((pullTree ⟨false, ["f"]⟩).2.disk 0).node ["d", "t", "l"] = some (.link ⟨true, ["t", "f"]⟩) ∧
      ¬ calmEnvironment.CopiedUnder .pull ⟨true, ["t"]⟩ ⟨true, ["d"]⟩
        (linkWorld ⟨false, ["f"]⟩) ["t"] (pullTree ⟨false, ["f"]⟩).2 := by
  refine ⟨rfl, copyable_linkWorld _, rfl, rfl, ?_⟩
  rintro ⟨place, hplace, htree⟩
  have hfound : ((pullTree ⟨false, ["f"]⟩).2.disk 0).lookup [] true ⟨true, ["d"]⟩ =
    .found ["d"] := rfl
  cases hfound.symm.trans hplace
  exact absurd (htree ["l"]) (by decide)

end RpcProject.Files
