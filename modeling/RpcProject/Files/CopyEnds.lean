/-
# When a copy ends

A copy reads directories that it may itself be extending. What a call of `_cp_dir`
may do is judged by the state in which it starts.

A call on a `pathlib.Path` strays when it is to make a directory below the source
and deeper than the one that it copies, so that the source gets deeper while it is
read. Without such calls the directories below the source stay within a depth, and
each call reads one name deeper. For a `RemotePath` the recursion is bounded by the
length of the path that the server lists, unless a directory is listed as an entry
of its own.

A directory that is pushed into itself on one machine is copied without an end.
-/

import Mathlib.Logic.Relation
import RpcProject.Files.CopyCalls
import RpcProject.Files.CopyTree

namespace RpcProject.Files

open Foundations Server

/-! ## Copies of a local directory -/

/-- The directories below a location are less than a number of names below it. -/
def Shallow (fs : FileSystem) (top : Loc) (limit : ℕ) : Prop :=
  ∀ rest order access, fs.node (top ++ rest) = some (.dir order access) → rest.length < limit

/-- A call is to make a directory below a location, deeper than the one that it copies. -/
def Strays (srcSide dstSide : Side) (srcAddress dstAddress : PosixPath → PosixPath) (top : Loc)
    (c : CopyCall) : Prop :=
  srcSide.host = dstSide.host ∧
    (¬ ∃ loc node, Sees dstSide true c.world (dstAddress c.dest) loc node) ∧ ∃ loc parent name,
    (c.world.fs srcSide).lookup srcSide.cwd true (srcAddress c.source) = .found loc ∧
    (c.world.fs dstSide).lookup dstSide.cwd false (dstAddress c.dest).strip = .absent parent name ∧
    top <+: parent ∧ loc.length ≤ parent.length

/-- A path leads below a location, where the directories are not too deep. -/
structure ReadsBelow (srcSide : Side) (srcAddress : PosixPath → PosixPath) (top : Loc) (limit : ℕ)
    (w : World) (source : PosixPath) (rest : Loc) : Prop where
  lookup : (w.fs srcSide).lookup srcSide.cwd true (srcAddress source) = .found (top ++ rest)
  less : rest.length < limit
  shallow : Shallow (w.fs srcSide) top limit
  wellFormed : (w.fs srcSide).WellFormed

theorem FileSystem.eq_of_resolve_entry {fs : FileSystem} {loc dest : Loc} {name : Name} {budget : ℕ}
    {order : List Name} {access : Access} (hname : FileSystem.Proper name)
    (hdir : fs.node loc = some (.dir order access))
    (hfound : fs.resolve false budget loc [name] = .found dest) : dest = loc ++ [name] := by
  rw [FileSystem.resolve_proper hname hdir] at hfound
  split at hfound
  · cases hfound
  · split at hfound
    · cases hfound
    · rw [if_pos rfl] at hfound
      exact (Lookup.found.inj hfound).symm
    · exact (Lookup.found.inj hfound).symm

section Depth

variable {src dst : PathOps} {srcSide dstSide : Side}
  {srcAddress dstAddress : PosixPath → PosixPath}
  {srcCopied dstCopied : PosixPath → PosixPath → PosixPath}
  {srcLists dstLists : PosixPath → List Name → Prop} {force : Bool} {w w₁ w₂ w' : World}
  {c c' : CopyCall}
  {fs : FileSystem} {top rest parent : Loc} {limit fuel : ℕ} {source : PosixPath} {name : Name}
  {order : List Name} {access : Access}

/-- A directory that is made no deeper than another one keeps the bound. -/
theorem Shallow.insert (h : Shallow fs top limit) (hmissing : fs.hop parent name = .missing)
    (hless : rest.length < limit)
    (hdeep : top <+: parent → parent.length < top.length + rest.length)
    (node : Node) : Shallow (fs.insert parent name node) top limit := by
  intro rest' order access hdir
  rw [FileSystem.insert_node] at hdir
  split at hdir
  · next hnew =>
    -- the new directory is one name deeper than its parent
    rcases List.eq_nil_or_concat' rest' with rfl | ⟨up, last, rfl⟩
    · exact Nat.zero_lt_of_lt hless
    · rw [← List.append_assoc] at hnew
      obtain ⟨hparent, -⟩ := List.append_inj' hnew rfl
      have hlength := hdeep ⟨up, hparent⟩
      rw [← hparent, List.length_append] at hlength
      rw [List.length_append, List.length_singleton]
      omega
  · split at hdir
    · next hparent =>
      -- the parent was a directory before
      obtain ⟨-, -, order', access', hnode, -⟩ := FileSystem.hop_missing hmissing
      exact h rest' order' access' (hparent ▸ hnode)
    · exact h rest' order access hdir

/-- What makes no directory keeps the depth. -/
theorem ReadsBelow.growing (h : ReadsBelow srcSide srcAddress top limit w source rest)
    (hgrowing : Growing (fun node => node.isDir = false) w w') :
    ReadsBelow srcSide srcAddress top limit w' source rest where
  lookup := (hgrowing srcSide.host).lookup h.lookup
  less := h.less
  shallow rest' order access hdir := by
    obtain ⟨order', hdir'⟩ := (hgrowing srcSide.host).dir_before (fun _ hnew => hnew) hdir
    exact h.shallow rest' order' access hdir'
  wellFormed := (hgrowing srcSide.host).wellFormed h.wellFormed

theorem ReadsBelow.copying (h : ReadsBelow srcSide srcAddress top limit w source rest)
    (hcopying : Copying w w') (hshallow : Shallow (w'.fs srcSide) top limit) :
    ReadsBelow srcSide srcAddress top limit w' source rest where
  lookup := (hcopying srcSide.host).lookup h.lookup
  less := h.less
  shallow := hshallow
  wellFormed := (hcopying srcSide.host).wellFormed h.wellFormed

/-- The directory of a call that does not stray. -/
theorem makeMissing_readsBelow (hsrc : src.Serves srcSide srcAddress srcCopied srcLists)
    (hdst : dst.Serves dstSide dstAddress dstCopied dstLists)
    (hreads : ReadsBelow srcSide srcAddress top limit c.world c.source rest)
    (hstrays : ¬ Strays srcSide dstSide srcAddress dstAddress top c)
    (hrun : makeMissing src dst c.source c.dest c.world = (.ok (), w')) :
    ReadsBelow srcSide srcAddress top limit w' c.source rest := by
  obtain ⟨there, w₁, hexists, hrest⟩ := Effect.bind_eq_ok_iff.mp hrun
  have hsame₁ := (hdst.pathExists c.dest).of_run hexists
  cases there with
  | true =>
    obtain ⟨-, rfl⟩ := Effect.pure_eq_ok_iff.mp hrest
    exact hreads.growing hsame₁.growing
  | false =>
    have hnone := (hdst.pathExists_ok hexists).not.mp Bool.false_ne_true
    obtain ⟨mode, w₂, hmode, hmkdir⟩ := Effect.bind_eq_ok_iff.mp hrest
    have hsame₂ := (hsrc.lstat c.source).of_run hmode
    have hsame := trans_of SameDisks hsame₁ hsame₂
    have hputs := hdst.mkdir c.dest mode w₂
    rw [hmkdir] at hputs
    rcases hputs with ⟨-, hfails⟩ | ⟨parent, name, node, habsent, -, hdisk⟩
    · exact absurd rfl hfails
    · have hcopying :=
          ((copying_keptByMaking hdst).makeMissing hsrc hdst c.source c.dest).of_run hrun
      apply hreads.copying hcopying
      -- on one machine the new directory may lie below the source, on two it cannot
      by_cases hhost : srcSide.host = dstSide.host
      · have hfs : w'.fs srcSide = (c.world.fs srcSide).insert parent name node := by
          rw [World.fs, hdisk, hhost, Function.update_self, hsame.fs dstSide, World.fs, World.fs,
            hhost]
        rw [hsame.fs dstSide] at habsent
        have hmissing := FileSystem.hop_of_lookup_absent habsent
        rw [World.fs, ← hhost] at hmissing
        rw [hfs]
        refine hreads.shallow.insert hmissing hreads.less (fun hbelow => ?_) node
        -- a call that does not stray makes none below the directory that it copies
        by_contra hdeep
        refine hstrays ⟨hhost, hnone, _, parent, name, hreads.lookup, habsent, hbelow, ?_⟩
        rw [List.length_append]
        exact Nat.le_of_not_lt hdeep
      · have hfs : w'.fs srcSide = c.world.fs srcSide := by
          rw [World.fs, hdisk, Function.update_of_ne hhost]
          exact hsame.fs srcSide
        rw [hfs]
        exact hreads.shallow

/-- A directory that is found in another one. -/
theorem ReadsBelow.child (hsrc : src.Serves srcSide srcAddress srcCopied srcLists) {mode : ℕ}
    (h : ReadsBelow srcSide srcAddress top limit w source rest)
    (hdir : (w.fs srcSide).node (top ++ rest) = some (.dir order access))
    (hname : FileSystem.Proper name) (hmode : src.lstat (source.child name) w = (.ok mode, w'))
    (hdirectory : Node.fileType mode = sIfdir) :
    ReadsBelow srcSide srcAddress top limit w' (source.child name) (rest ++ [name]) := by
  obtain ⟨loc, node, ⟨hlookup, hnode⟩, rfl⟩ := hsrc.lstat_ok hmode
  obtain ⟨-, left, hchild⟩ := hsrc.lookup_child h.lookup hname
  have hisDir : node.isDir = true := by
    rwa [Node.fileType_mode, Node.typeBits_eq_sIfdir] at hdirectory
  obtain ⟨order', access', rfl⟩ := Node.isDir_eq_true_iff.mp hisDir
  have hfollow := FileSystem.lookup_follow hlookup (FileSystem.notLink_of_dir hnode)
  rw [hchild false] at hlookup
  -- `lstat` has followed no link, so the entry is where its name says
  obtain rfl := FileSystem.eq_of_resolve_entry hname hdir hlookup
  have hsame := (hsrc.lstat (source.child name)).of_run hmode
  rw [List.append_assoc] at hnode hfollow
  have hbelow : ReadsBelow srcSide srcAddress top limit w (source.child name) (rest ++ [name]) :=
    ⟨hfollow, h.shallow _ order' access' hnode, h.shallow, h.wellFormed⟩
  exact hbelow.growing hsame.growing

/-- Directories are listed with entries other than "." and "..". -/
def ListsEntries (src : PathOps) (srcSide : Side) (srcAddress : PosixPath → PosixPath) : Prop :=
  ∀ path w w' files, src.iterdir path w = (.ok files, w') → ∃ loc order access,
    Sees srcSide true w (srcAddress path) loc (.dir order access) ∧
      ∀ file ∈ files, ∃ name ∈ order, ¬ IsDot name ∧ file = path.child name

variable (hsrc : src.Serves srcSide srcAddress srcCopied srcLists)
  (hdst : dst.Serves dstSide dstAddress dstCopied dstLists)
  (hwrite : ∀ path data, Effect.Keeps (Growing fun node => node.isDir = false)
    (dst.writeBytes path data))
  (hlists : ListsEntries src srcSide srcAddress)

include hsrc hlists in
/-- The directory that a list is of, and the names in it. -/
theorem ReadsBelow.listed (h : ReadsBelow srcSide srcAddress top limit w source rest)
    {files : List PosixPath} (hlisted : src.iterdir source w = (.ok files, w')) :
    ReadsBelow srcSide srcAddress top limit w' source rest ∧
      (∃ order access, (w'.fs srcSide).node (top ++ rest) = some (.dir order access)) ∧
      ∀ file ∈ files, ∃ name, FileSystem.Proper name ∧ file = source.child name := by
  have hsame := (hsrc.iterdir source).of_run hlisted
  obtain ⟨loc, order, access, ⟨hlookup, hdir⟩, hfiles⟩ := hlists _ _ _ _ hlisted
  obtain rfl := Lookup.found.inj (h.lookup.symm.trans hlookup)
  refine ⟨h.growing hsame.growing, ⟨order, access, by rw [hsame.fs srcSide, hdir]⟩,
    fun file hmem => ?_⟩
  obtain ⟨name, hname, hdot, rfl⟩ := hfiles file hmem
  exact ⟨name, h.wellFormed.proper_of_mem hdir hname hdot, rfl⟩

/-- No call that a call leads to strays. -/
def Steady (src dst : PathOps) (force : Bool) (srcSide dstSide : Side)
    (srcAddress dstAddress : PosixPath → PosixPath) (top : Loc) (c : CopyCall) : Prop :=
  ∀ c', Relation.ReflTransGen (Enters src dst force) c c' →
    ¬ Strays srcSide dstSide srcAddress dstAddress top c'

theorem Steady.enters
    (h : Steady src dst force srcSide dstSide srcAddress dstAddress top c)
    (henters : Enters src dst force c c') :
    Steady src dst force srcSide dstSide srcAddress dstAddress top c' :=
  fun c'' hreaches => h c'' (.head henters hreaches)

/-- The calls of a depth keep the bound. -/
def KeepsShallow (src dst : PathOps) (force : Bool) (srcSide dstSide : Side)
    (srcAddress dstAddress : PosixPath → PosixPath) (top : Loc) (limit fuel : ℕ) : Prop :=
  ∀ c rest w', ReadsBelow srcSide srcAddress top limit c.world c.source rest →
    Steady src dst force srcSide dstSide srcAddress dstAddress top c →
    cpDir src dst force fuel c.source c.dest c.world = (.ok (), w') →
      Shallow (w'.fs srcSide) top limit

include hsrc hdst hwrite hlists in
/-- During the loop the source is read where it was. -/
theorem readsBelow_loop
    (hkeeps : KeepsShallow src dst force srcSide dstSide srcAddress dstAddress top limit fuel)
    (hreads : ReadsBelow srcSide srcAddress top limit c.world c.source rest)
    (hsteady : Steady src dst force srcSide dstSide srcAddress dstAddress top c)
    {files before after : List PosixPath}
    (hmade : makeMissing src dst c.source c.dest c.world = (.ok (), w₁))
    (hlisted : src.iterdir c.source w₁ = (.ok files, w₂)) (hsplit : files = before ++ after)
    (hrun : Effect.forEach (cpEntry src dst force (cpDir src dst force fuel) c.dest) before w₂ =
      (.ok (), w')) :
    ReadsBelow srcSide srcAddress top limit w' c.source rest ∧
      ∃ order access, (w'.fs srcSide).node (top ++ rest) = some (.dir order access) := by
  have hreads₁ := makeMissing_readsBelow hsrc hdst hreads (hsteady c .refl) hmade
  obtain ⟨hreads₂, hdir₂, hnames⟩ := hreads₁.listed hsrc hlists hlisted
  -- the invariant carries the run so far along, which names the call of the next entry
  refine (Effect.forEach_induction (fun done t =>
    Effect.forEach (cpEntry src dst force (cpDir src dst force fuel) c.dest) done w₂ = (.ok (), t) ∧
      ReadsBelow srcSide srcAddress top limit t c.source rest ∧
      ∃ order access, (t.fs srcSide).node (top ++ rest) = some (.dir order access))
    ⟨rfl, hreads₂, hdir₂⟩ ?_ hrun).2
  rintro done srcFile later t t' rfl ⟨hdone, hreads, order, access, hdir⟩ hentry
  obtain ⟨name, hname, rfl⟩ := hnames srcFile (by simp [hsplit])
  have hsplit' : files = done ++ c.source.child name :: (later ++ after) := by simp [hsplit]
  have hkept : KeptByCopy src dst force Copying := copying_keptByCopy hsrc hdst hwrite
  have hcopying := (hkept.cpEntry hsrc hdst (hkept.cpDir hsrc hdst fuel) c.dest _).of_run hentry
  obtain ⟨more, hdir', -⟩ := (hcopying srcSide.host).dir hdir
  refine ⟨?_, hreads.copying hcopying ?_, _, access, hdir'⟩
  · rw [Effect.forEach_append, Effect.bind_of_ok hdone, Effect.forEach, Effect.bind_of_ok hentry]
    rfl
  · obtain ⟨mode, t₁, hmode, hrest⟩ := Effect.bind_eq_ok_iff.mp hentry
    -- a directory is copied by a call of less fuel, anything else makes none
    by_cases hdirectory : Node.fileType mode = sIfdir
    · rw [if_pos hdirectory] at hrest
      have henters : Enters src dst force c ⟨c.source.child name, c.dest.child _, t₁⟩ :=
        .entry hmade hlisted hsplit' hdone hmode hdirectory
      exact hkeeps _ _ _ (hreads.child hsrc hdir hname hmode hdirectory)
        (hsteady.enters henters) hrest
    · have hgrowing : Growing (fun node => node.isDir = false) t
          (cpEntry src dst force (cpDir src dst force fuel) c.dest (c.source.child name) t).2 :=
        growing_cpEntry hsrc hdst hwrite c.dest hmode hdirectory
      rw [hentry] at hgrowing
      exact (hreads.growing hgrowing).shallow

include hsrc hdst hwrite hlists in
theorem keepsShallow (fuel : ℕ) :
    KeepsShallow src dst force srcSide dstSide srcAddress dstAddress top limit fuel := by
  induction fuel with
  | zero =>
    intro c rest w' _ _ hrun
    cases hrun
  | succ fuel ih =>
    intro c rest w' hreads hsteady hrun
    obtain ⟨⟨⟩, w₁, hmade, hrun⟩ := Effect.bind_eq_ok_iff.mp hrun
    obtain ⟨files, w₂, hlisted, hrun⟩ := Effect.bind_eq_ok_iff.mp hrun
    exact (readsBelow_loop hsrc hdst hwrite hlists ih hreads hsteady hmade hlisted
      (List.append_nil files).symm hrun).1.shallow

include hsrc hdst hwrite hlists in
/-- A call that is made reads one directory deeper. -/
theorem ReadsBelow.enters (hreads : ReadsBelow srcSide srcAddress top limit c.world c.source rest)
    (hsteady : Steady src dst force srcSide dstSide srcAddress dstAddress top c)
    (henters : Enters src dst force c c') :
    ∃ name, ReadsBelow srcSide srcAddress top limit c'.world c'.source (rest ++ [name]) := by
  obtain @⟨files, before, after, srcFile, fuel, mode, w₁, w₂, w₃, w₄, hmade, hlisted, hsplit,
    hcopied, hmode, hdirectory⟩ := henters
  have hreads₁ := makeMissing_readsBelow hsrc hdst hreads (hsteady c .refl) hmade
  obtain ⟨-, -, hnames⟩ := hreads₁.listed hsrc hlists hlisted
  obtain ⟨name, hname, rfl⟩ := hnames srcFile (by simp [hsplit])
  obtain ⟨hreads₃, order, access, hdir⟩ := readsBelow_loop hsrc hdst hwrite hlists
    (keepsShallow hsrc hdst hwrite hlists fuel) hreads hsteady hmade hlisted hsplit hcopied
  exact ⟨name, hreads₃.child hsrc hdir hname hmode hdirectory⟩

include hsrc hdst hwrite hlists in
/-- A call of which no call strays ends: with each call there is less left below. -/
theorem ReadsBelow.ends (hreads : ReadsBelow srcSide srcAddress top limit c.world c.source rest)
    (hsteady : Steady src dst force srcSide dstSide srcAddress dstAddress top c) :
    c.Ends src dst force := by
  -- induction on how many names the path may still gain
  obtain ⟨left, hleft⟩ : ∃ left, limit - rest.length = left := ⟨_, rfl⟩
  induction left generalizing c rest with
  | zero =>
    have := hreads.less
    omega
  | succ left ih =>
    apply CopyCall.ends_of_enters
    intro c' henters
    obtain ⟨name, hreads'⟩ := hreads.enters hsrc hdst hwrite hlists hsteady henters
    apply ih hreads' (hsteady.enters henters)
    rw [List.length_append, List.length_singleton]
    omega

end Depth

/-! ## Copies of a remote directory -/

/-- No entry after the first two of a directory that a path leads to is "." or "..". -/
def DotsDropped (side : Side) (w : World) (path : PosixPath) : Prop :=
  ∀ loc order access, Sees side true w path loc (.dir order access) →
    ∀ name ∈ order.drop 2, ¬ IsDot name

section Remote

variable {env : Environment} {dst : PathOps} {dstSide : Side} {dstAddress : PosixPath → PosixPath}
  {dstCopied : PosixPath → PosixPath → PosixPath} {dstLists : PosixPath → List Name → Prop}
  {force : Bool} {w w' : World} {c c' : CopyCall} {path : PosixPath} {files : List PosixPath}
  (hdst : dst.Serves dstSide dstAddress dstCopied dstLists)
  (hwrite : ∀ path data, Effect.Keeps (Growing fun node => node.isDir = false)
    (dst.writeBytes path data))

/-- What a directory of the server is listed with. -/
theorem remotePath_listed (hlisted : (remotePath env).iterdir path w = (.ok files, w')) :
    ∃ loc order access, Sees env.server true w path loc (.dir order access) ∧
      ∀ file ∈ files, ∃ name ∈ order.drop 2,
        PathFits env.platform path.text name ∧ file = path.child name := by
  simp only [remotePath] at hlisted
  obtain ⟨entries, hscan, rfl⟩ := map_eq_ok (look_eq_ok hlisted)
  cases hentries : (w.fs env.server).entries env.server.cwd path with
  | error errno =>
    obtain ⟨e, herror⟩ := FileSystem.scandir_of_error env.platform hentries
    cases herror.symm.trans hscan
  | ok all =>
    obtain ⟨loc, order, access, hlookup, hdir, -, rfl⟩ := FileSystem.entries_eq_ok_iff.mp hentries
    rw [FileSystem.scandir_of_entries env.platform hentries] at hscan
    -- the server lists no directory in which a path does not fit its buffer
    split at hscan
    · next hfits =>
      cases hscan
      refine ⟨loc, order, access, ⟨hlookup, hdir⟩, fun file hmem => ?_⟩
      rw [← List.map_drop, List.map_map, List.mem_map] at hmem
      obtain ⟨name, hname, rfl⟩ := hmem
      exact ⟨name, hname, hfits _ (List.mem_map_of_mem (List.mem_of_mem_drop hname)), rfl⟩
    · cases hscan

/-- The state in which a call on the server's files starts. -/
structure ReadsRemote (env : Environment) (c : CopyCall) : Prop where
  sees : ∃ loc node, Sees env.server true c.world c.source loc node
  wellFormed : (c.world.fs env.server).WellFormed

include hdst hwrite in
/-- A call that is made has a longer path, and the path that it is made from fits the
buffer of the server. -/
theorem ReadsRemote.enters (h : ReadsRemote env c) (hdots : DotsDropped env.server c.world c.source)
    (henters : Enters (remotePath env) dst force c c') :
    ReadsRemote env c' ∧ c'.source.named.length = c.source.named.length + 1 ∧
      c.source.named.length ≤ filenameMax env.platform := by
  have hcopying := henters.copying (remotePath_serves env) hdst hwrite
  obtain @⟨files, before, after, srcFile, fuel, mode, w₁, w₂, w₃, w₄, hmade, hlisted, hsplit,
    hcopied, hmode, hdirectory⟩ := henters
  have hsrc := remotePath_serves env
  obtain ⟨loc, node, hlookup, hnode⟩ := h.sees
  have hcopying₁ := ((copying_keptByMaking hdst).makeMissing hsrc hdst c.source c.dest).of_run hmade
  obtain ⟨loc', order, access, ⟨hlookup', hdir⟩, hfiles⟩ := remotePath_listed hlisted
  obtain ⟨name, hname, hfits, rfl⟩ := hfiles srcFile (by simp [hsplit])
  obtain rfl := Lookup.found.inj (((hcopying₁ env.server.host).lookup hlookup).symm.trans hlookup')
  obtain ⟨order', more, rfl, rfl, hmore⟩ := (hcopying₁ env.server.host).dir_of_dir hnode hdir
  have hproper : FileSystem.Proper name := by
    rw [List.drop_append] at hname
    rcases List.mem_append.mp hname with hname | hname
    · -- an entry that the directory had when the call started
      exact h.wellFormed.proper_of_mem hnode (List.mem_of_mem_drop hname)
        (hdots _ _ _ ⟨hlookup, hnode⟩ name hname)
    · -- an entry that the copy has made
      exact hmore name (List.mem_of_mem_drop hname)
  have hsame₄ := (hsrc.lstat (c.source.child name)).of_run hmode
  refine ⟨⟨?_, (hcopying env.server.host).wellFormed h.wellFormed⟩, ?_, ?_⟩
  · obtain ⟨loc, node, ⟨hfound, hthere⟩, rfl⟩ := hsrc.lstat_ok hmode
    have hisDir : node.isDir = true := by
      rwa [Node.fileType_mode, Node.typeBits_eq_sIfdir] at hdirectory
    refine ⟨loc, node, ?_⟩
    rw [Sees, hsame₄.fs env.server]
    refine ⟨FileSystem.lookup_follow hfound fun target hlink => ?_, hthere⟩
    cases hthere.symm.trans hlink
    cases hisDir
  · rw [PosixPath.named_child c.source hproper, List.length_append, List.length_singleton]
  · have hparts := c.source.length_named_le
    rw [PathFits] at hfits
    omega

include hdst hwrite in
/-- A call on the server's files ends if no call lists a directory as its own entry. -/
theorem ReadsRemote.ends (h : ReadsRemote env c)
    (hdots : ∀ c', Relation.ReflTransGen (Enters (remotePath env) dst force) c c' →
      DotsDropped env.server c'.world c'.source) :
    c.Ends (remotePath env) dst force := by
  -- induction on how many names fit the buffer of the server
  obtain ⟨left, hleft⟩ : ∃ left, filenameMax env.platform + 1 ≤ c.source.named.length + left :=
    ⟨_, Nat.le_add_left _ _⟩
  induction left generalizing c with
  | zero =>
    apply CopyCall.ends_of_enters
    intro c' henters
    have := (h.enters hdst hwrite (hdots c .refl) henters).2.2
    omega
  | succ left ih =>
    apply CopyCall.ends_of_enters
    intro c' henters
    obtain ⟨h', hlength, -⟩ := h.enters hdst hwrite (hdots c .refl) henters
    exact ih h' (fun c'' hreaches => hdots c'' (.head henters hreaches)) (by omega)

end Remote

/-! ## Copies of all kinds -/

namespace Environment

variable (env : Environment) (sourceKind destKind : PathKind)

theorem exists_serves (kind : PathKind) :
    ∃ copied lists, (env.ops kind).Serves (env.side kind) kind.address copied lists := by
  cases kind with
  | path => exact ⟨_, _, localPath_serves env⟩
  | remotePath => exact ⟨_, _, remotePath_serves env⟩

theorem ops_writeBytes (kind : PathKind) (path : PosixPath) (data : Bytes) :
    Effect.Keeps (Growing fun node => node.isDir = false)
      ((env.ops kind).writeBytes path data) := by
  cases kind with
  | path => exact growing_writeBytes env env.client path.normalise data
  | remotePath => exact growing_writeBytes env env.server path data

/-- What the recursion relies on in the state in which a call starts, the first call of
the source being given: from a local directory the call does not stray below the
source, and from a remote one it lists no directory as an entry. -/
def Contained (first c : CopyCall) : Prop :=
  match sourceKind with
  | .path => ∀ top,
      (first.world.fs env.client).lookup env.client.cwd true first.source.normalise = .found top →
      ¬ Strays env.client (env.side destKind) PosixPath.normalise destKind.address top c
  | .remotePath => DotsDropped env.server c.world c.source

end Environment

section Kinds

variable {env : Environment} {destKind : PathKind} {force : Bool} {sources : List PosixPath}
  {dest : PosixPath} {w : World} {first : CopyCall}

/-- File systems that are well formed and finite. -/
def AllDisks (w : World) : Prop := ∀ host, (w.disk host).WellFormed ∧ (w.disk host).Bounded

theorem AllDisks.copying {w' : World} (h : AllDisks w) (hcopying : Copying w w') : AllDisks w' :=
  fun host => ⟨(hcopying host).wellFormed (h host).1, (hcopying host).bounded (h host).2⟩

theorem FileSystem.readdir_eq_ok {fs : FileSystem} {cwd loc : Loc} {path : PosixPath}
    {order : List Name} (hread : fs.readdir cwd path = .ok (loc, order)) :
    ∃ access, fs.lookup cwd true path = .found loc ∧ fs.node loc = some (.dir order access) := by
  rw [FileSystem.readdir] at hread
  split at hread
  · next found hlookup =>
    split at hread
    · next access hdir =>
      split at hread
      · cases hread
        exact ⟨_, hlookup, hdir⟩
      · cases hread
    · cases hread
    · cases hread
  · cases hread
  · cases hread

theorem localPath_lists (env : Environment) :
    ListsEntries (localPath env) env.client PosixPath.normalise := by
  intro path w w' files hlisted
  simp only [localPath] at hlisted
  obtain ⟨⟨loc, order⟩, hread, rfl⟩ := map_eq_ok (failing_eq_ok_iff.mp (look_eq_ok hlisted))
  obtain ⟨access, hlookup, hdir⟩ := FileSystem.readdir_eq_ok hread
  refine ⟨loc, order, access, ⟨hlookup, hdir⟩, fun file hmem => ?_⟩
  obtain ⟨name, hname, rfl⟩ := List.mem_map.mp hmem
  obtain ⟨hname, hdot⟩ := List.mem_filter.mp hname
  exact ⟨name, hname, of_decide_eq_true hdot, rfl⟩

theorem AllDisks.ofDisks (disks : ℕ → Disk) (clock : ℕ) :
    AllDisks ⟨fun host => (disks host).toFileSystem, clock⟩ :=
  fun host => ⟨(disks host).wellFormed, (disks host).depth, (disks host).length_le⟩

/-- A copy in which each call is contained ends. -/
theorem AllDisks.ends {sourceKind : PathKind} (hdisks : AllDisks w)
    (hcalls : ∀ first c,
      Starts (env.ops sourceKind) (env.ops destKind) force sources dest w first →
      Relation.ReflTransGen (Enters (env.ops sourceKind) (env.ops destKind) force) first c →
      env.Contained sourceKind destKind first c) :
    Effect.Ends (fun fuel =>
        cp (env.ops sourceKind) (env.ops destKind) force fuel sources dest true)
      w := by
  obtain ⟨_, _, hsrc⟩ := env.exists_serves sourceKind
  obtain ⟨_, _, hdst⟩ := env.exists_serves destKind
  have hwrite := env.ops_writeBytes destKind
  apply ends_cp
  intro first hfirst
  obtain ⟨hcopying, loc, node, hsees⟩ := hfirst.copying hsrc hdst hwrite
  have hdisks' := hdisks.copying hcopying
  cases sourceKind with
  | path =>
    -- when the call starts, nothing below the source lies deeper than the file system is
    obtain ⟨depth, hdepth⟩ := (hdisks' env.client.host).2
    have hshallow : Shallow (first.world.fs env.client) loc (depth + 1) := by
      intro rest order access hdir
      have hlength := hdepth _ (Option.isSome_of_eq_some hdir)
      rw [List.length_append] at hlength
      omega
    have hreads : ReadsBelow env.client PosixPath.normalise loc (depth + 1) first.world first.source
        [] :=
      ⟨(List.append_nil loc).symm ▸ hsees.1, Nat.succ_pos depth, hshallow,
        (hdisks' env.client.host).1⟩
    exact hreads.ends (localPath_serves env) hdst hwrite (localPath_lists env)
      fun c hreaches => hcalls first c hfirst hreaches loc hsees.1
  | remotePath =>
    have hreads : ReadsRemote env first := ⟨⟨loc, node, hsees⟩, (hdisks' env.server.host).1⟩
    exact hreads.ends hdst hwrite fun c hreaches => hcalls first c hfirst hreaches

end Kinds

/-! ## Copies to a destination that does not exist -/

/-- A call copies a directory of a source to an empty directory apart from it, or to
where nothing is yet. -/
structure FreshCall (srcSide dstSide : Side) (srcAddress dstAddress : PosixPath → PosixPath)
    (srcLists : PosixPath → List Name → Prop) (fs : FileSystem) (top loc place : Loc)
    (c : CopyCall) :
    Prop where
  reads : Reads srcSide srcAddress fs top c.world c.source loc
  dir : ∃ order access, fs.node loc = some (.dir order access)
  plain : Plain srcLists fs c.source loc
  free : Free srcSide dstSide top place c.world
  place : Open dstSide dstAddress c.world c.dest place ∨
    Missing dstSide dstAddress c.world c.dest place

section Fresh

variable {src dst : PathOps} {srcSide dstSide : Side}
  {srcAddress dstAddress : PosixPath → PosixPath}
  {srcCopied dstCopied : PosixPath → PosixPath → PosixPath}
  {srcLists dstLists : PosixPath → List Name → Prop} {force : Bool} {fs : FileSystem}
  {top loc place : Loc} {source dest : PosixPath} {node : Node} {w : World} {c c' : CopyCall}

theorem FreshCall.not_strays
    (h : FreshCall srcSide dstSide srcAddress dstAddress srcLists fs top loc place c) :
    ¬ Strays srcSide dstSide srcAddress dstAddress top c := by
  rintro ⟨hhost, hnone, loc', parent, name, -, habsent, hbelow, -⟩
  rcases h.place with hopen | hmissing
  · obtain ⟨order, access, hdir⟩ := hopen.dir
    exact hnone ⟨_, _, hopen.lookup, hdir⟩
  · rw [hmissing.strip] at habsent
    have hplace := hmissing.absent false parent name habsent
    exact h.free.apart hhost place List.prefix_rfl
      (hplace ▸ hbelow.trans (List.prefix_append _ _))

/-- A call that is made copies an entry, and nothing is yet at the entry's place. -/
theorem FreshCall.enters (hsrc : src.Serves srcSide srcAddress srcCopied srcLists)
    (hdst : dst.Serves dstSide dstAddress dstCopied dstLists) (hfs : fs.WellFormed)
    (h : FreshCall srcSide dstSide srcAddress dstAddress srcLists fs top loc place c)
    (henters : Enters src dst force c c') : ∃ name,
      FreshCall srcSide dstSide srcAddress dstAddress srcLists fs top (loc ++ [name])
        (place ++ [name]) c' := by
  obtain @⟨files, before, after, srcFile, fuel, mode, w₁, w₂, w₃, w₄, hmade, hlisted, hsplit,
    hcopied, hmode, hdirectory⟩ := henters
  obtain ⟨order, access, hdir⟩ := h.dir
  obtain ⟨hextends₁, hopen₁, hfree₁⟩ := makeMissing_opens hsrc hdst h.free h.place hmade
  have hsame₂ := (hsrc.iterdir c.source).of_run hlisted
  have hreads₁ := h.reads.extends hextends₁
  have hlists := h.plain.lists [] order access ((List.append_nil loc).symm ▸ hdir)
  have hfiles := hsrc.iterdir_ok hlisted
    ⟨hreads₁.lookup, (hreads₁.kept loc hreads₁.below).trans hdir⟩ hlists
  rw [hsplit] at hfiles
  obtain ⟨first, rest, hchildren, rfl, hrest⟩ := List.append_eq_map_iff.mp hfiles
  obtain ⟨name, rest, rfl, rfl, rfl⟩ := List.map_eq_cons_iff.mp hrest
  have hsame₂' : Extends srcSide dstSide top place w₁ w₂ := Extends.of_sameDisks hsame₂
  -- the entries before this one have been copied, each to its own name
  have hcopiedUpTo := entries_copiedUpTo hfs (hreads₁.of_sameDisks hsame₂) hdir
    (hopen₁.extends hsame₂') (hfree₁.of_sameDisks hsame₂)
    (fun name s t hname hreads hopen hfree hnone hbody =>
      cpEntry_copies hsrc hdst hfs hreads hdir h.plain hopen hfree hnone hname
        (fun _ _ _ _ hchild hreads hfree hmissing hrun =>
          cpDir_copies hsrc hdst hfs hreads hchild (h.plain.child name) hfree
            (Or.inr hmissing) hrun)
        hbody)
    hchildren hcopied
  have hmem : name ∈ FileSystem.children order :=
    hchildren ▸ List.mem_append_right _ List.mem_cons_self
  obtain ⟨hproper, node, hnode⟩ := hfs.exists_child hdir hmem
  have hreads₃ := (hreads₁.of_sameDisks hsame₂).extends hcopiedUpTo.extended
  have hopen₃ := (hopen₁.extends hsame₂').extends hcopiedUpTo.extended
  obtain ⟨hfree₃, hnone₃⟩ := hcopiedUpTo.free (hfree₁.of_sameDisks hsame₂)
    (hfs.not_mem_before hdir hchildren)
  obtain ⟨loc', node', hsees, rfl⟩ := hsrc.lstat_ok hmode
  obtain ⟨-, rfl, hlookup⟩ := hreads₃.entry hsrc hdir hproper hnode (by simp) hsees
  rw [Node.fileType_mode, Node.typeBits_eq_sIfdir] at hdirectory
  obtain ⟨childOrder, childAccess, rfl⟩ := Node.isDir_eq_true_iff.mp hdirectory
  have hbelow := hreads₃.below.trans (List.prefix_append loc [name])
  -- a directory is no link, so the path leads there with links followed as well
  have hfound := FileSystem.lookup_follow hlookup
    (FileSystem.notLink_of_dir ((hreads₃.kept _ hbelow).trans hnode))
  have hsame₄ := (hsrc.lstat (c.source.child name)).of_run hmode
  have hreadsChild : Reads srcSide srcAddress fs top w₃ (c.source.child name) (loc ++ [name]) :=
    ⟨hfound, hreads₃.kept, hbelow⟩
  refine ⟨name, hreadsChild.of_sameDisks hsame₄, ⟨_, _, hnode⟩, h.plain.child name,
    hfree₃.of_sameDisks hsame₄, Or.inr ?_⟩
  rw [PosixPath.name_child _ hproper]
  exact (hopen₃.missing hdst hproper hnone₃).of_sameDisks hsame₄

/-- No call of a copy of this kind strays. -/
theorem FreshCall.steady (hsrc : src.Serves srcSide srcAddress srcCopied srcLists)
    (hdst : dst.Serves dstSide dstAddress dstCopied dstLists) (hfs : fs.WellFormed)
    (h : FreshCall srcSide dstSide srcAddress dstAddress srcLists fs top loc place c) :
    Steady src dst force srcSide dstSide srcAddress dstAddress top c := by
  intro c' hreaches
  have hfresh : ∃ loc place,
      FreshCall srcSide dstSide srcAddress dstAddress srcLists fs top loc place c' := by
    induction hreaches with
    | refl => exact ⟨loc, place, h⟩
    | tail _ henters ih =>
      obtain ⟨loc, place, hfresh⟩ := ih
      obtain ⟨name, hfresh'⟩ := hfresh.enters hsrc hdst hfs henters
      exact ⟨_, _, hfresh'⟩
  obtain ⟨loc, place, hfresh⟩ := hfresh
  exact hfresh.not_strays

/-- The call of `_cp_dir` in a copy to a destination that does not exist. -/
theorem freshCall_of_starts (hsrc : src.Serves srcSide srcAddress srcCopied srcLists)
    (hdst : dst.Serves dstSide dstAddress dstCopied dstLists)
    (hwf : ∀ host, (w.disk host).WellFormed)
    (hfound : (w.fs srcSide).lookup srcSide.cwd true (srcAddress source) = .found loc)
    (hsource : (w.fs srcSide).node loc = some node)
    (hplain : Plain srcLists (w.fs srcSide) source loc) (hup : source.name ≠ "..")
    (hnone : ¬ ∃ loc node, Sees dstSide true w (dstAddress dest) loc node)
    (hapart : srcSide.host = dstSide.host → ∀ parent name,
      (w.fs dstSide).lookup dstSide.cwd false (dstAddress dest).strip = .absent parent name →
      ¬ loc <+: parent ++ [name])
    (h : Starts src dst force [source] dest w c) : c.source = source ∧ ∃ place,
      FreshCall srcSide dstSide srcAddress dstAddress srcLists (w.fs srcSide) loc loc place c := by
  obtain @⟨before, after, source', fuel, w₁, w₂, w₃, w₄, w₅, hready, hsplit, hcopied, hthere,
    hdirectory, hplaced⟩ := h
  obtain ⟨rfl, rfl⟩ : before = [] ∧ source = source' := by
    cases before with
    | nil => exact ⟨rfl, (List.cons.inj hsplit).1⟩
    | cons first before => cases before <;> cases hsplit
  obtain ⟨-, rfl⟩ := Effect.pure_eq_ok_iff.mp hcopied
  refine ⟨rfl, ?_⟩
  obtain ⟨place, hextends, hopen, hfree⟩ :=
    cpReady_opens hdst hwf (Option.isSome_of_eq_some hsource) hnone hapart hready
  have hreads := (reads_top hfound).extends hextends
  -- `is_dir` tells directories from the other nodes of the source
  have hsame₃ := (hsrc.pathExists source).of_run hthere
  have hreads₃ := hreads.of_sameDisks hsame₃
  have hspecial : ∀ kind, node ≠ .special kind := fun kind hkind =>
    hplain.plain [] kind (by rw [List.append_nil, hsource, hkind])
  have hisDir := hsrc.isDir_ok hdirectory
    ⟨hreads₃.lookup, (hreads₃.kept loc List.prefix_rfl).trans hsource⟩ hspecial
  obtain ⟨order, access, rfl⟩ := Node.isDir_eq_true_iff.mp hisDir.symm
  have hsame := trans_of SameDisks hsame₃ ((hsrc.isDir source).of_run hdirectory)
  have hsame' : Extends srcSide dstSide loc place w₁ w₄ := Extends.of_sameDisks hsame
  obtain ⟨hextends', hopen', hfree'⟩ := makePlace_opens hsrc hdst hup (hopen.extends hsame')
    (hfree.of_sameDisks hsame) hplaced
  exact ⟨_, (hreads.of_sameDisks hsame).extends hextends', ⟨order, access, hsource⟩, hplain, hfree',
    Or.inl hopen'⟩

end Fresh

/-! ## Copies in which each call is contained -/

/-- No directory has "." or ".." after its first two entries. -/
def FileSystem.DotsEarly (fs : FileSystem) : Prop :=
  ∀ loc order access, fs.node loc = some (.dir order access) → ∀ name ∈ order.drop 2, ¬ IsDot name

theorem FileSystem.Written.dotsEarly {fs fs' : FileSystem} {isNew : Node → Prop}
    (h : FileSystem.Written isNew fs fs') (hdots : fs.DotsEarly) : fs'.DotsEarly := by
  intro loc order access hdir name hname
  cases hnode : fs.node loc with
  | some node =>
    obtain ⟨order', more, rfl, rfl, hmore⟩ :=
      FileSystem.Grows.dir_of_dir (.single h) hnode hdir
    rw [List.drop_append] at hname
    rcases List.mem_append.mp hname with hname | hname
    · exact hdots loc order' access hnode name hname
    · exact (hmore name (List.mem_of_mem_drop hname)).2
  | none =>
    -- a directory that was not there is new, and has no entries yet
    have hleaf : FileSystem.IsLeaf (.dir order access) := by
      have hleaves : FileSystem.Written FileSystem.IsLeaf fs fs' := by
        cases h with
        | made missing leaf _ => exact .made missing leaf leaf
        | filled file content' => exact .filled file content'
      rcases hleaves.dir_before hdir with ⟨order', hdir'⟩ | hleaf
      · cases hnode.symm.trans hdir'
      · exact hleaf
    have horder : order = [".", ".."] := hleaf
    rw [horder] at hname
    cases hname

theorem FileSystem.Grows.dotsEarly {fs fs' : FileSystem} {isNew : Node → Prop}
    (h : FileSystem.Grows isNew fs fs') (hdots : fs.DotsEarly) : fs'.DotsEarly := by
  induction h with
  | refl => exact hdots
  | tail _ hstep ih => exact hstep.dotsEarly ih

section Contained

variable {env : Environment} {destKind : PathKind} {direction : Direction} {force : Bool}
  {sources : List PosixPath} {source dest : PosixPath} {w : World} {loc : Loc} {first c : CopyCall}

/-- A local directory is not extended by a copy to another machine. -/
theorem contained_of_hosts_ne (hhosts : env.client.host ≠ (env.side destKind).host) :
    env.Contained .path destKind first c := fun _ _ hstrays => hhosts hstrays.1

theorem contained_of_dotsEarly (hdots : (w.fs env.server).DotsEarly)
    (hfirst : Starts (env.ops .remotePath) (env.ops destKind) force sources dest w first)
    (hreaches : Relation.ReflTransGen
    (Enters (env.ops .remotePath) (env.ops destKind) force) first c) :
    env.Contained .remotePath destKind first c := by
  obtain ⟨_, _, hdst⟩ := env.exists_serves destKind
  have hsrc := remotePath_serves env
  have hwrite := env.ops_writeBytes destKind
  have hcopying : Copying w c.world := by
    induction hreaches with
    | refl => exact (hfirst.copying hsrc hdst hwrite).1
    | tail _ henters ih => exact trans_of Copying ih (henters.copying hsrc hdst hwrite)
  intro loc order access hsees
  exact (hcopying env.server.host).dotsEarly hdots loc order access hsees.2

/-- The copy of a tree to a destination that does not exist and is not in the tree. -/
theorem contained_of_copyable (hcopyable : env.Copyable .push source dest w loc)
    (hup : source.name ≠ "..")
    (hfirst : Starts (env.ops .path) (env.ops .remotePath) force [source] dest w first)
    (hreaches : Relation.ReflTransGen
    (Enters (env.ops .path) (env.ops .remotePath) force) first c) :
    env.Contained .path .remotePath first c := by
  have hsrc := localPath_serves env
  have hdst := remotePath_serves env
  obtain ⟨node, hfound, hsource⟩ := hcopyable.sees
  obtain ⟨hsame, place, hfresh⟩ := freshCall_of_starts hsrc hdst hcopyable.wellFormed hfound hsource
    ⟨fun _ _ _ _ => trivial, hcopyable.plain⟩ hup hcopyable.missing hcopyable.apart hfirst
  intro top htop
  cases hfresh.reads.lookup.symm.trans htop
  exact hfresh.steady hsrc hdst (hcopyable.wellFormed env.client.host) c hreaches

/-- A push to another machine ends. -/
theorem push_ends_of_hosts_ne (hdisks : AllDisks w) (hhosts : env.client.host ≠ env.server.host) :
    Effect.Ends (fun fuel => env.copy .push fuel sources dest true force) w :=
  have hends : Effect.Ends
      (fun fuel => cp (env.ops .path) (env.ops .remotePath) force fuel sources dest true) w :=
    hdisks.ends fun _ _ _ _ => contained_of_hosts_ne hhosts
  hends

/-- A push to a destination that does not exist and is not in the source ends, on one
machine too. -/
theorem push_ends_of_copyable (hdisks : AllDisks w)
    (hcopyable : env.Copyable .push source dest w loc)
    (hup : source.name ≠ "..") :
    Effect.Ends (fun fuel => env.copy .push fuel [source] dest true force) w :=
  have hends : Effect.Ends
      (fun fuel => cp (env.ops .path) (env.ops .remotePath) force fuel [source] dest true) w :=
    hdisks.ends fun _ _ hfirst hreaches => contained_of_copyable hcopyable hup hfirst hreaches
  hends

/-- A pull ends if the server's directories have "." and ".." first. -/
theorem pull_ends_of_dotsEarly (hdisks : AllDisks w) (hdots : (w.fs env.server).DotsEarly) :
    Effect.Ends (fun fuel => env.copy .pull fuel sources dest true force) w :=
  have hends : Effect.Ends
      (fun fuel => cp (env.ops .remotePath) (env.ops .path) force fuel sources dest true) w :=
    hdisks.ends fun _ _ hfirst hreaches => contained_of_dotsEarly hdots hfirst hreaches
  hends

end Contained

/-! ## A directory that is copied into itself -/

/-- Directories in each other, all with one name. -/
def chain (n : ℕ) : FileSystem where
  node loc :=
    if loc = List.replicate loc.length "a" ∧ loc.length ≤ n then
      some (.dir (if loc.length < n then [".", "..", "a"] else [".", ".."]) ⟨true, true, true⟩)
    else none
  typed _ := true

/-- The path of a directory of a chain. -/
def chainPath (k : ℕ) : PosixPath := ⟨true, List.replicate k "a"⟩

section Chain

variable {n k : ℕ} {follow : Bool}

theorem chain_node (n k : ℕ) : (chain n).node (List.replicate k "a") =
    if k ≤ n then
      some (.dir (if k < n then [".", "..", "a"] else [".", ".."]) ⟨true, true, true⟩)
    else none := by
  simp [chain]

theorem proper_a : FileSystem.Proper "a" := by decide

theorem chain_hop (hk : k ≤ n) : (chain n).hop (List.replicate k "a") "a" =
    if k < n then .arrive (List.replicate (k + 1) "a") else .missing := by
  have hdir := (chain_node n k).trans (if_pos hk)
  rw [FileSystem.hop_proper proper_a hdir, if_neg Bool.noConfusion, ← List.replicate_succ',
    chain_node]
  by_cases hlt : k < n
  · rw [if_pos hlt, if_pos (Nat.succ_le_of_lt hlt)]
  · rw [if_neg hlt, if_neg fun hle => hlt (Nat.lt_of_succ_le hle)]

theorem chain_descend (j : ℕ) (hk : k + j ≤ n) :
    (chain n).descend follow (List.replicate k "a") (List.replicate j "a") =
      .done (.found (List.replicate (k + j) "a")) := by
  induction j generalizing k with
  | zero => rfl
  | succ j ih =>
    rw [List.replicate_succ, FileSystem.descend, chain_hop (by omega), if_pos (by omega)]
    simp only [ih (show k + 1 + j ≤ n by omega), show k + 1 + j = k + (j + 1) by omega]

theorem chain_descend_absent (j : ℕ) (hk : k + j = n) :
    (chain n).descend follow (List.replicate k "a") (List.replicate (j + 1) "a") =
      .done (.absent (List.replicate n "a") "a") := by
  induction j generalizing k with
  | zero =>
    obtain rfl : k = n := hk
    rw [List.replicate_succ, FileSystem.descend, chain_hop (Nat.le_refl k),
      if_neg (Nat.lt_irrefl k)]
    rfl
  | succ j ih =>
    rw [List.replicate_succ, FileSystem.descend, chain_hop (by omega), if_pos (by omega)]
    exact ih (by omega)

theorem chain_lookup_of_descend {result : Lookup}
    (hdescend : (chain n).descend follow [] (List.replicate k "a") = .done result) :
    (chain n).lookup [] follow (chainPath k) = result := by
  have hnonempty : ¬ (chainPath k).IsEmpty := fun hempty => by cases hempty.1
  rw [FileSystem.lookup, if_neg hnonempty, FileSystem.resolve]
  simp only [chainPath, if_true, hdescend]

theorem chain_lookup (hk : k ≤ n) :
    (chain n).lookup [] follow (chainPath k) = .found (List.replicate k "a") := by
  refine chain_lookup_of_descend ((chain_descend k (k := 0) (by omega)).trans ?_)
  rw [Nat.zero_add]

theorem chain_lookup_absent :
    (chain n).lookup [] follow (chainPath (n + 1)) = .absent (List.replicate n "a") "a" :=
  chain_lookup_of_descend (chain_descend_absent n (k := 0) (Nat.zero_add n))

theorem chain_none {loc : Loc} (hloc : ∀ k, loc ≠ List.replicate k "a") :
    (chain n).node loc = none :=
  if_neg fun h => hloc _ h.1

theorem chain_insert (n : ℕ) :
    (chain n).insert (List.replicate n "a") "a" (.dir [".", ".."] ⟨true, true, true⟩) =
      chain (n + 1) := by
  refine FileSystem.ext (funext fun loc => ?_) rfl
  rw [FileSystem.insert_node, ← List.replicate_succ']
  by_cases hchain : ∃ k, loc = List.replicate k "a"
  · obtain ⟨k, rfl⟩ := hchain
    have hsame : ∀ m, List.replicate k "a" = List.replicate m "a" ↔ k = m := fun m =>
      ⟨fun h => by simpa using congrArg List.length h, fun h => h ▸ rfl⟩
    simp only [chain_node, hsame]
    -- the last directory of the chain gets an entry, and the one below it is new
    rcases Nat.lt_trichotomy k n with hlt | rfl | hgt
    · simp [show k ≠ n + 1 by omega, show k ≠ n by omega, show k ≤ n by omega, hlt,
        show k ≤ n + 1 by omega, show k < n + 1 by omega]
    · simp [FileSystem.addName]
    · by_cases hnew : k = n + 1
      · simp [hnew]
      · simp [hnew, show k ≠ n by omega, show ¬ k ≤ n by omega, show ¬ k ≤ n + 1 by omega]
  · rw [not_exists] at hchain
    rw [if_neg (hchain _), if_neg (hchain _), chain_none hchain, chain_none hchain]

theorem normalise_chainPath (k : ℕ) : (chainPath k).normalise = chainPath k := by
  have hnamed : (chainPath k).named = List.replicate k "a" :=
    List.filter_eq_self.mpr fun part hpart => by
      rw [List.eq_of_mem_replicate hpart]
      decide
  have hroot : PosixPath.doubleRoot (chainPath k).parts ≠ true := by
    cases k <;> exact Bool.noConfusion
  have habsolute : (chainPath k).absolute = true := rfl
  rw [PosixPath.normalise, PosixPath.withNamed, hnamed, if_pos habsolute, if_neg hroot]
  rfl

theorem child_chainPath (k : ℕ) : (chainPath k).child "a" = chainPath (k + 1) := by
  have hbase : (chainPath k).base = List.replicate k "a" := by
    apply if_neg
    intro hlast
    have hmem := List.mem_of_getLast? hlast
    exact absurd (List.eq_of_mem_replicate hmem) (by decide)
  rw [PosixPath.child, normalise_chainPath, PosixPath.join, hbase, ← List.replicate_succ']
  rfl

theorem name_chainPath (k : ℕ) : (chainPath (k + 1)).name = "a" := by
  rw [← child_chainPath, PosixPath.name_child _ proper_a]

/-- A client and a server on one machine. -/
def sharedEnvironment : Environment where
  client := ⟨0, [], 0o022⟩
  server := ⟨0, [], 0o022⟩
  platform := .linux
  ignored errno := errno = enoent
  fault _ := none
  pieces _ bytes := .whole bytes
  device _ := []
  overread := id

/-- The machine has a chain of directories. -/
def Chained (n : ℕ) (w : World) : Prop := w.disk 0 = chain n

variable {w w' : World}

theorem chained_fs (h : Chained n w) {side : Side} (hhost : side.host = 0) :
    w.fs side = chain n := by
  rw [World.fs, hhost, h]

theorem chain_nodeAt (hk : k ≤ n) : (chain n).nodeAt [] follow (chainPath k) =
    .ok (.dir (if k < n then [".", "..", "a"] else [".", ".."]) ⟨true, true, true⟩) := by
  rw [FileSystem.nodeAt, chain_lookup hk]
  simp only [chain_node, if_pos hk]

theorem chain_stat (hk : k ≤ n) : (chain n).stat [] follow (chainPath k) = .ok 0o40700 := by
  rw [FileSystem.stat, chain_nodeAt hk]
  rfl

theorem chain_stat_absent : (chain n).stat [] follow (chainPath (n + 1)) = .error enoent := by
  rw [FileSystem.stat, FileSystem.nodeAt, chain_lookup_absent]
  rfl

theorem Chained.status (h : Chained n w) (path : PosixPath) {side : Side} (hhost : side.host = 0)
    (hcwd : side.cwd = []) :
    status side path w = (.ok ((chain n).stat [] true path), w.tick) := by
  rw [Files.status, chained_fs h hhost, hcwd]

theorem Chained.tick (h : Chained n w) : Chained n w.tick := h

theorem Chained.pathExists (h : Chained n w) (hk : k ≤ n) (kind : PathKind) :
    (sharedEnvironment.ops kind).pathExists (chainPath k) w = (.ok true, w.tick) := by
  cases kind with
  | path =>
    simp only [Environment.ops, localPath, normalise_chainPath]
    rw [Effect.bind_of_ok (h.status (chainPath k) rfl rfl), chain_stat hk]
    rfl
  | remotePath =>
    simp only [Environment.ops, remotePath]
    rw [Effect.bind_of_ok (h.status (chainPath k) rfl rfl), chain_stat hk]
    rfl

theorem Chained.isDir (h : Chained n w) (hk : k ≤ n) (kind : PathKind) :
    (sharedEnvironment.ops kind).isDir (chainPath k) w = (.ok true, w.tick) := by
  cases kind with
  | path =>
    simp only [Environment.ops, localPath, normalise_chainPath]
    rw [Effect.bind_of_ok (h.status (chainPath k) rfl rfl), chain_stat hk]
    rfl
  | remotePath =>
    simp only [Environment.ops, remotePath]
    rw [Effect.bind_of_ok (h.status (chainPath k) rfl rfl), chain_stat hk]
    rfl

theorem Chained.not_pathExists (h : Chained n w) :
    (sharedEnvironment.ops .remotePath).pathExists (chainPath (n + 1)) w = (.ok false, w.tick) := by
  simp only [Environment.ops, remotePath]
  rw [Effect.bind_of_ok (h.status (chainPath (n + 1)) rfl rfl), chain_stat_absent]
  rfl

theorem look_shared {α : Type} (side : Side) (f : FileSystem → Except Fault α) (w : World) :
    look sharedEnvironment side f w = (f (w.fs side), w.tick) := rfl

theorem act_shared {α : Type} {side : Side} {message : String} {a : α} {fs : FileSystem}
    {f : FileSystem → Except Errno (α × FileSystem)} (hf : f (w.fs side) = .ok (a, fs)) :
    act sharedEnvironment side message f w = (.ok a, w.put side fs) := by
  rw [act, hf]
  rfl

theorem Chained.lstat (h : Chained n w) (hk : k ≤ n) :
    (sharedEnvironment.ops .path).lstat (chainPath k) w = (.ok 0o40700, w.tick) := by
  simp only [Environment.ops, localPath, statCall, look_shared, normalise_chainPath]
  rw [chained_fs h rfl]
  exact congrArg (fun result => (failing _ result, w.tick)) (chain_stat hk)

theorem Chained.put (w : World) {side : Side} (hhost : side.host = 0) :
    Chained n (w.put side (chain n)) := by
  rw [Chained, World.put, hhost]
  exact Function.update_self 0 (chain n) w.disk

theorem chain_mkdir (n : ℕ) :
    (chain n).mkdir [] (chainPath (n + 1)) 0o40700 = .ok (chain (n + 1)) := by
  have hstrip : (chainPath (n + 1)).strip = chainPath (n + 1) :=
    FileSystem.strip_of_proper
      (by rw [chainPath, List.replicate_succ', List.getLast?_concat]) proper_a.1
  have hchange : (chain n).mayChange (List.replicate n "a") = true := by
    rw [FileSystem.mayChange, chain_node, if_pos (Nat.le_refl n)]
    rfl
  rw [FileSystem.mkdir, hstrip, chain_lookup_absent]
  simp only [FileSystem.create, if_pos hchange]
  exact congrArg Except.ok (chain_insert n)

theorem chain_chmod (n : ℕ) : (chain n).chmod [] (chainPath n) 0o40700 = .ok (chain n) := by
  have hnode := (chain_node n n).trans (if_pos (Nat.le_refl n))
  rw [FileSystem.chmod, chain_lookup (Nat.le_refl n)]
  simp only [hnode]
  refine congrArg Except.ok (FileSystem.ext ?_ rfl)
  exact Function.update_eq_self_iff.mpr hnode.symm

theorem Chained.mkdir (h : Chained n w) : ∃ w', Chained (n + 1) w' ∧
    (sharedEnvironment.ops .remotePath).mkdir (chainPath (n + 1)) 0o40700 w = (.ok (), w') := by
  have hside : sharedEnvironment.server.host = 0 := rfl
  have hmade : mkdirCall sharedEnvironment sharedEnvironment.server (chainPath (n + 1)) 0o40700 w =
      (.ok (), w.put sharedEnvironment.server (chain (n + 1))) := by
    apply act_shared
    rw [chained_fs h hside]
    exact congrArg (Except.map fun fs' => ((), fs')) (chain_mkdir n)
  have hmoded : chmodCall sharedEnvironment sharedEnvironment.server (chainPath (n + 1)) 0o40700
      (w.put sharedEnvironment.server (chain (n + 1))) =
      (.ok (), (w.put sharedEnvironment.server (chain (n + 1))).put sharedEnvironment.server
        (chain (n + 1))) := by
    apply act_shared
    rw [chained_fs (Chained.put w hside) hside]
    exact congrArg (Except.map fun fs' => ((), fs')) (chain_chmod (n + 1))
  refine ⟨(w.put sharedEnvironment.server (chain (n + 1))).put sharedEnvironment.server
    (chain (n + 1)), Chained.put _ hside, ?_⟩
  simp only [Environment.ops, remotePath, fsMkdir]
  rw [Effect.bind_of_ok hmade, hmoded]

theorem Chained.iterdir (h : Chained n w) (hk : k < n) :
    (sharedEnvironment.ops .path).iterdir (chainPath k) w = (.ok [chainPath (k + 1)], w.tick) := by
  have hnode := (chain_node n k).trans (if_pos (Nat.le_of_lt hk))
  rw [if_pos hk] at hnode
  have hread : (chain n).readdir [] (chainPath k) =
      .ok (List.replicate k "a", [".", "..", "a"]) := by
    rw [FileSystem.readdir, chain_lookup (Nat.le_of_lt hk)]
    simp only [hnode, if_true]
  simp only [Environment.ops, localPath, look_shared, normalise_chainPath]
  rw [chained_fs h rfl, ← child_chainPath]
  exact congrArg (fun result => (failing _ (Except.map _ result), w.tick)) hread

theorem Chained.makeMissing (h : Chained n w) : ∃ w', Chained (n + 1) w' ∧
    Files.makeMissing (sharedEnvironment.ops .path) (sharedEnvironment.ops .remotePath)
      (chainPath n) (chainPath (n + 1)) w = (.ok (), w') := by
  have hlstat := h.tick.lstat (Nat.le_refl n)
  obtain ⟨w', hchained, hmkdir⟩ := h.tick.tick.mkdir
  refine ⟨w', hchained, ?_⟩
  rw [Files.makeMissing, Effect.bind_of_ok h.not_pathExists, if_neg Bool.false_ne_true,
    Effect.bind_of_ok hlstat, hmkdir]

/-- The directory that is listed holds the one that has just been made. -/
theorem Chained.cpDir (h : Chained (n + 1) w) (fuel : ℕ) : ∃ w', Chained (n + 1 + fuel) w' ∧
    Files.cpDir (sharedEnvironment.ops .path) (sharedEnvironment.ops .remotePath) false fuel
      (chainPath (n + 1)) (chainPath (n + 2)) w = (.error .outOfFuel, w') := by
  induction fuel generalizing n w with
  | zero => exact ⟨w, h, rfl⟩
  | succ fuel ih =>
    obtain ⟨w₁, h₁, hmade⟩ := h.makeMissing
    have hlisted := h₁.iterdir (Nat.lt_succ_self (n + 1))
    have hlstat := h₁.tick.lstat (Nat.le_refl (n + 2))
    obtain ⟨w', hchained, hcopied⟩ := ih h₁.tick.tick
    refine ⟨w', by rwa [Nat.add_right_comm] at hchained, ?_⟩
    -- the loop stops at its first entry, whose copy runs out of fuel
    rw [Files.cpDir, Effect.bind_of_ok hmade, Effect.bind_of_ok hlisted, Effect.forEach]
    apply Effect.bind_of_error
    rw [cpEntry, Effect.bind_of_ok hlstat, if_pos (by decide), name_chainPath, child_chainPath,
      hcopied]

/-- The machine of a chain of one directory, which is pushed into itself. -/
def chainDisk : Disk :=
  .ofTable
    [([], .dir [".", "..", "a"] ⟨true, true, true⟩), (["a"], .dir [".", ".."] ⟨true, true, true⟩)]
    (fun _ => true) (by decide)

theorem chainDisk_eq : chainDisk.toFileSystem = chain 1 := by
  refine FileSystem.ext (funext fun loc => ?_) rfl
  match loc with
  | [] => rfl
  | [name] =>
    by_cases hname : name = "a"
    · rw [hname]
      rfl
    · have hnone : (chain 1).node [name] = none := if_neg (by simp [hname])
      have hother : (name == "a") = false := beq_eq_false_iff_ne.mpr hname
      rw [hnone]
      simp [chainDisk, Disk.ofTable, FileSystem.ofTable, List.lookup_cons, hother]
  | name :: name' :: rest =>
    have hnone : (chain 1).node (name :: name' :: rest) = none := if_neg (by simp)
    rw [hnone]
    simp [chainDisk, Disk.ofTable, FileSystem.ofTable, List.lookup_cons]

/-- The copy of a directory into itself. -/
def pushIntoItself (fuel : ℕ) : Call Unit :=
  cp (sharedEnvironment.ops .path) (sharedEnvironment.ops .remotePath) false fuel [⟨true, ["a"]⟩]
    ⟨true, ["a"]⟩ true

theorem Chained.stat (h : Chained n w) (hk : k ≤ n) :
    (sharedEnvironment.ops .path).stat (chainPath k) w = (.ok 0o40700, w.tick) := by
  simp only [Environment.ops, localPath, statCall, look_shared, normalise_chainPath]
  rw [chained_fs h rfl]
  exact congrArg (fun result => (failing _ result, w.tick)) (chain_stat hk)

theorem chained_pushIntoItself (h : Chained 1 w) (fuel : ℕ) :
    ∃ w', Chained (fuel + 2) w' ∧ pushIntoItself (fuel + 1) w = (.error .outOfFuel, w') := by
  have hready : cpReady (sharedEnvironment.ops .remotePath) [chainPath 1] (chainPath 1) w =
      (.ok (), w.tick.tick) := by
    rw [cpReady, Effect.bind_of_ok (h.pathExists (Nat.le_refl 1) .remotePath)]
    exact Effect.bind_of_ok (h.tick.isDir (Nat.le_refl 1) .remotePath)
  obtain ⟨w₁, h₁, hmkdir⟩ := h.tick.tick.tick.tick.tick.tick.mkdir
  have hplace : makePlace (sharedEnvironment.ops .path) (sharedEnvironment.ops .remotePath)
      (chainPath 1)
      (chainPath 2) w.tick.tick.tick.tick = (.ok (), w₁) := by
    rw [makePlace, Effect.bind_of_ok (h.tick.tick.tick.tick.stat (Nat.le_refl 1)),
      Effect.bind_of_ok h.tick.tick.tick.tick.tick.not_pathExists, if_neg Bool.false_ne_true,
        hmkdir]
  have hmade : makeMissing (sharedEnvironment.ops .path) (sharedEnvironment.ops .remotePath)
      (chainPath 1) (chainPath 2) w₁ = (.ok (), w₁.tick) := by
    rw [makeMissing, Effect.bind_of_ok (h₁.pathExists (Nat.le_refl 2) .remotePath), if_pos rfl]
    rfl
  have hlisted := h₁.tick.iterdir (Nat.lt_succ_self 1)
  have hlstat := h₁.tick.tick.lstat (Nat.le_refl 2)
  obtain ⟨w', h', hcopied⟩ := h₁.tick.tick.tick.cpDir fuel
  have hdir : cpDir (sharedEnvironment.ops .path) (sharedEnvironment.ops .remotePath) false
      (fuel + 1)
      (chainPath 1) (chainPath 2) w₁ = (.error .outOfFuel, w') := by
    rw [cpDir, Effect.bind_of_ok hmade, Effect.bind_of_ok hlisted, Effect.forEach]
    apply Effect.bind_of_error
    rw [cpEntry, Effect.bind_of_ok hlstat, if_pos (by decide), name_chainPath, child_chainPath,
      hcopied]
  refine ⟨w', by rwa [Nat.add_comm] at h', ?_⟩
  have hpush : pushIntoItself (fuel + 1) = cp (sharedEnvironment.ops .path)
      (sharedEnvironment.ops .remotePath) false (fuel + 1) [chainPath 1] (chainPath 1) true := rfl
  rw [hpush, cp_eq, Effect.bind_of_ok hready, Effect.forEach]
  apply Effect.bind_of_error
  rw [cpSource, Effect.bind_of_ok (h.tick.tick.pathExists (Nat.le_refl 1) .path), if_pos rfl,
    Effect.bind_of_ok (h.tick.tick.tick.isDir (Nat.le_refl 1) .path), if_pos rfl, if_pos rfl,
    cpSourceDir_eq, name_chainPath, child_chainPath, Effect.bind_of_ok hplace, hdir]

end Chain

/-! ## What ends and what does not -/

/-- **Ending.** A recursive copy of finite trees ends if each call of `_cp_dir` in it
is contained in the state in which it starts. -/
theorem cp_ends_of_contained (env : Environment) (sourceKind destKind : PathKind) (force : Bool)
    (sources : List PosixPath) (dest : PosixPath) (disks : ℕ → Disk) (clock : ℕ)
    (hcalls : ∀ first c,
      Starts (env.ops sourceKind) (env.ops destKind) force sources dest
        ⟨fun host => (disks host).toFileSystem, clock⟩ first →
      Relation.ReflTransGen (Enters (env.ops sourceKind) (env.ops destKind) force) first c →
      env.Contained sourceKind destKind first c) :
    Effect.Ends (fun fuel =>
        cp (env.ops sourceKind) (env.ops destKind) force fuel sources dest true)
      ⟨fun host => (disks host).toFileSystem, clock⟩ :=
  (AllDisks.ofDisks disks clock).ends hcalls

theorem copyable_chain : sharedEnvironment.Copyable .push ⟨true, ["a"]⟩ ⟨true, ["d"]⟩
    ⟨fun _ => chainDisk.toFileSystem, 0⟩ ["a"] where
  wellFormed _ := chainDisk.wellFormed
  sees := ⟨_, rfl, rfl⟩
  plain rest kind hspecial := by simpa using FileSystem.mem_of_lookup hspecial
  missing := by
    rintro ⟨place, node, hfound, -⟩
    have habsent : chainDisk.lookup [] true ⟨true, ["d"]⟩ = .absent [] "d" := rfl
    cases habsent.symm.trans hfound
  apart _ parent name habsent := by
    have hmissing : chainDisk.lookup [] false ⟨true, ["d"]⟩ = .absent [] "d" := rfl
    cases hmissing.symm.trans habsent
    decide

/-- A directory is pushed beside itself. -/
theorem cp_ends_of_contained_beside :
    Effect.Ends (fun fuel =>
        cp (sharedEnvironment.ops .path) (sharedEnvironment.ops .remotePath) false
      fuel [⟨true, ["a"]⟩] ⟨true, ["d"]⟩ true) ⟨fun _ => chainDisk.toFileSystem, 0⟩ :=
  cp_ends_of_contained sharedEnvironment .path .remotePath false [⟨true, ["a"]⟩] ⟨true, ["d"]⟩
    (fun _ => chainDisk) 0 fun _ _ hfirst hreaches =>
      contained_of_copyable copyable_chain (by decide) hfirst hreaches

/-- A directory that is pushed into itself on one machine is copied without an end. -/
theorem not_ends_pushIntoItself :
    ¬ Effect.Ends pushIntoItself ⟨fun _ => chainDisk.toFileSystem, 0⟩ := by
  rintro ⟨enough, hsame⟩
  have hstart : Chained 1 ⟨fun _ => chainDisk.toFileSystem, 0⟩ := chainDisk_eq
  obtain ⟨w₁, h₁, hrun₁⟩ := chained_pushIntoItself hstart enough
  obtain ⟨w₂, h₂, hrun₂⟩ := chained_pushIntoItself hstart (enough + 1)
  have hrun := (hsame (enough + 1) (Nat.le_succ _)).trans (hsame (enough + 2) (by omega)).symm
  rw [hrun₁, hrun₂] at hrun
  obtain ⟨-, rfl⟩ := Prod.mk.inj hrun
  -- with more fuel the run leaves a longer chain
  have hnode := congrArg (fun fs => fs.node (List.replicate (enough + 3) "a")) (h₁.symm.trans h₂)
  simp only [chain_node] at hnode
  rw [if_neg (by omega), if_pos (by omega)] at hnode
  cases hnode

end RpcProject.Files
