/-
# File systems that are written to

What a copy does to a file system is done in steps: a node that has no entries is
made under a missing name, or the content of a file is replaced. A file system
*grows* through such steps.

Every step leaves the directories and links that there are, so a path that led to
a node leads there after any number of steps. A well-formed and finite file system
stays one, and where the steps make no directory the directories stay the same.
-/

import Mathlib.Logic.Relation
import RpcProject.Files.PathOps

namespace RpcProject.Files

open Foundations Server

namespace FileSystem

/-- A node as it is made. -/
def IsLeaf : Node → Prop
  | .dir order _ => order = [".", ".."]
  | _ => True

/-- A file system with other bytes in a file. -/
def refill (fs : FileSystem) (loc : Loc) (content : Bytes) : FileSystem :=
  { fs with node := Function.update fs.node loc (some (.file content)) }

/-- One step of writing, which makes only nodes of some kind. -/
inductive Written (isNew : Node → Prop) (fs : FileSystem) : FileSystem → Prop
  | made {parent : Loc} {name : Name} {node : Node} (missing : fs.hop parent name = .missing)
      (leaf : IsLeaf node) (new : isNew node) : Written isNew fs (fs.insert parent name node)
  | filled {loc : Loc} {content : Bytes} (file : fs.node loc = some (.file content))
      (content' : Bytes) : Written isNew fs (fs.refill loc content')

/-- Any number of steps. -/
def Grows (isNew : Node → Prop) : FileSystem → FileSystem → Prop :=
  Relation.ReflTransGen (Written isNew)

variable {isNew isNew' : Node → Prop} {fs fs' : FileSystem} {cwd loc parent : Loc} {follow : Bool}
  {path : PosixPath} {name : Name} {node : Node} {order : List Name} {access : Access}
  {content content' : Bytes}

theorem Written.mono (himp : ∀ node, isNew node → isNew' node) (h : Written isNew fs fs') :
    Written isNew' fs fs' := by
  cases h with
  | made missing leaf new => exact .made missing leaf (himp _ new)
  | filled file content' => exact .filled file content'

theorem Grows.mono (himp : ∀ node, isNew node → isNew' node) (h : Grows isNew fs fs') :
    Grows isNew' fs fs' :=
  Relation.ReflTransGen.mono (fun _ _ => Written.mono himp) _ _ h

theorem refill_node (fs : FileSystem) (loc : Loc) (content : Bytes) (x : Loc) :
    (fs.refill loc content).node x = if x = loc then some (.file content) else fs.node x := by
  simp only [refill, Function.update_apply]

/-! ## Lookups -/

theorem hop_refill (hfile : fs.node loc = some (.file content)) (content' : Bytes) :
    (fs.refill loc content').hop = fs.hop := by
  funext x name
  rw [hop, hop, refill_node, refill_node]
  by_cases hx : x = loc
  · rw [if_pos hx, hx, hfile]
  · rw [if_neg hx]
    -- a file is hopped to whatever it holds
    by_cases hchild : x ++ [name] = loc
    · rw [if_pos hchild, hchild, hfile]
    · rw [if_neg hchild]

theorem descend_congr (hhop : fs'.hop = fs.hop) : fs'.descend = fs.descend := by
  funext follow loc names
  induction names generalizing loc with
  | nil => rfl
  | cons name names ih =>
    rw [descend, descend, hhop]
    cases fs.hop loc name with
    | arrive next => exact ih next
    | link target => rfl
    | missing => rfl
    | failed errno => rfl

theorem lookup_congr (hhop : fs'.hop = fs.hop) : fs'.lookup = fs.lookup := by
  have hresolve : ∀ follow budget loc names,
      fs'.resolve follow budget loc names = fs.resolve follow budget loc names := by
    intro follow budget
    induction budget with
    | zero =>
      intro loc names
      rw [resolve, resolve, descend_congr hhop]
    | succ budget ih =>
      intro loc names
      rw [resolve, resolve, descend_congr hhop]
      cases fs.descend follow loc names with
      | done result => rfl
      | link parent target rest => exact ih _ _
  funext cwd follow path
  rw [lookup, lookup, hresolve]

theorem Written.lookup (h : Written isNew fs fs')
    (hfound : fs.lookup cwd follow path = .found loc) :
    fs'.lookup cwd follow path = .found loc := by
  cases h with
  | made missing => exact (persists_insert (hop_missing missing).2.1).lookup hfound
  | filled file content' => rwa [lookup_congr (hop_refill file content')]

/-- What a path leads to stays there. -/
theorem Grows.lookup (h : Grows isNew fs fs') (hfound : fs.lookup cwd follow path = .found loc) :
    fs'.lookup cwd follow path = .found loc := by
  induction h with
  | refl => exact hfound
  | tail _ hstep ih => exact hstep.lookup ih

/-! ## Nodes -/

theorem Written.node_after (h : Written isNew fs fs') (hnode : fs.node loc = some node) :
    (∀ order access, node = .dir order access → ∃ more,
        fs'.node loc = some (.dir (order ++ more) access) ∧ ∀ name ∈ more, Proper name) ∧
      (node.isDir = false → ∃ node', fs'.node loc = some node' ∧ node'.isDir = false) := by
  cases h with
  | @made parent name new missing leaf hnew =>
    obtain ⟨hproper, hnone, -⟩ := hop_missing missing
    have hne : loc ≠ parent ++ [name] := by
      rintro rfl
      cases hnone.symm.trans hnode
    rw [insert_node, if_neg hne]
    -- a node is changed only if it is the parent, which gets one more name
    by_cases hparent : loc = parent
    · rw [if_pos hparent, ← hparent, hnode, Option.map_some]
      refine ⟨?_, fun hdir => ⟨_, rfl, ?_⟩⟩
      · rintro order access rfl
        exact ⟨[name], rfl, fun _ hmem => List.mem_singleton.mp hmem ▸ hproper⟩
      · cases node with
        | dir order access => cases hdir
        | file content => rfl
        | link target => rfl
        | special kind => rfl
    · rw [if_neg hparent]
      refine ⟨?_, fun hdir => ⟨node, hnode, hdir⟩⟩
      rintro order access rfl
      exact ⟨[], by rw [hnode, List.append_nil], fun _ hmem => absurd hmem List.not_mem_nil⟩
  | @filled x content file content' =>
    rw [refill_node]
    by_cases hx : loc = x
    · subst hx
      cases file.symm.trans hnode
      rw [if_pos rfl]
      exact ⟨fun _ _ hdir => (by cases hdir), fun _ => ⟨_, rfl, rfl⟩⟩
    · rw [if_neg hx]
      refine ⟨?_, fun hdir => ⟨node, hnode, hdir⟩⟩
      rintro order access rfl
      exact ⟨[], by rw [hnode, List.append_nil], fun _ hmem => absurd hmem List.not_mem_nil⟩

/-- A directory only gets more entries. -/
theorem Grows.dir (h : Grows isNew fs fs') (hdir : fs.node loc = some (.dir order access)) :
    ∃ more, fs'.node loc = some (.dir (order ++ more) access) ∧ ∀ name ∈ more, Proper name := by
  induction h with
  | refl => exact ⟨[], by rw [hdir, List.append_nil], fun _ hmem => absurd hmem List.not_mem_nil⟩
  | tail _ hstep ih =>
    obtain ⟨more, hdir', hmore⟩ := ih
    obtain ⟨more', hdir'', hmore'⟩ := (hstep.node_after hdir').1 _ _ rfl
    refine ⟨more ++ more', by rw [hdir'', List.append_assoc], fun name hmem => ?_⟩
    rcases List.mem_append.mp hmem with hmem | hmem
    · exact hmore name hmem
    · exact hmore' name hmem

theorem Grows.not_dir (h : Grows isNew fs fs') (hnode : fs.node loc = some node)
    (hdir : node.isDir = false) : ∃ node', fs'.node loc = some node' ∧ node'.isDir = false := by
  induction h with
  | refl => exact ⟨node, hnode, hdir⟩
  | tail _ hstep ih =>
    obtain ⟨node', hnode', hdir'⟩ := ih
    exact (hstep.node_after hnode').2 hdir'

theorem Grows.exists_node (h : Grows isNew fs fs') (hnode : fs.node loc = some node) :
    ∃ node', fs'.node loc = some node' := by
  cases node with
  | dir order access =>
    obtain ⟨more, hdir, -⟩ := h.dir hnode
    exact ⟨_, hdir⟩
  | _ =>
    obtain ⟨node', hnode', -⟩ := h.not_dir hnode rfl
    exact ⟨node', hnode'⟩

/-- A node that is a directory afterwards was one before, if it was there. -/
theorem Grows.dir_of_dir (h : Grows isNew fs fs') (hnode : fs.node loc = some node)
    (hdir : fs'.node loc = some (.dir order access)) :
    ∃ order' more, node = .dir order' access ∧ order = order' ++ more ∧
      ∀ name ∈ more, Proper name := by
  cases node with
  | dir order' access' =>
    obtain ⟨more, hdir', hmore⟩ := h.dir hnode
    cases hdir.symm.trans hdir'
    exact ⟨order', more, rfl, rfl, hmore⟩
  | _ =>
    obtain ⟨node', hnode', hnot'⟩ := h.not_dir hnode rfl
    cases hdir.symm.trans hnode'
    cases hnot'

/-- A directory after a step was there before, or is new. -/
theorem Written.dir_before (h : Written isNew fs fs')
    (hdir : fs'.node loc = some (.dir order access)) :
    (∃ order', fs.node loc = some (.dir order' access)) ∨ isNew (.dir order access) := by
  cases h with
  | @made parent name new missing leaf hnew =>
    rw [insert_node] at hdir
    split at hdir
    · cases hdir
      exact Or.inr hnew
    · split at hdir
      · next hparent =>
        -- the parent was a directory already, with fewer names
        subst hparent
        obtain ⟨-, -, order', access', hparent, -⟩ := hop_missing missing
        rw [hparent] at hdir
        cases hdir
        exact Or.inl ⟨order', hparent⟩
      · exact Or.inl ⟨order, hdir⟩
  | @filled x content file content' =>
    rw [refill_node] at hdir
    split at hdir
    · cases hdir
    · exact Or.inl ⟨order, hdir⟩

/-- Where no directory is made, the directories were there before. -/
theorem Grows.dir_before (h : Grows isNew fs fs') (hnew : ∀ node, isNew node → node.isDir = false)
    (hdir : fs'.node loc = some (.dir order access)) :
    ∃ order', fs.node loc = some (.dir order' access) := by
  induction h generalizing order with
  | refl => exact ⟨order, hdir⟩
  | tail _ hstep ih =>
    rcases hstep.dir_before hdir with ⟨order', hdir'⟩ | hmade
    · exact ih hdir'
    · cases hnew _ hmade

/-! ## Well-formed and finite file systems -/

/-- A leaf lists no entry of a proper name. -/
theorem IsLeaf.not_proper (hleaf : IsLeaf (.dir order access)) (hmem : name ∈ order) :
    name ≠ "" ∧ ¬ Proper name := by
  have horder : order = [".", ".."] := hleaf
  rw [horder] at hmem
  rcases List.mem_pair.mp hmem with rfl | rfl
  · exact ⟨by decide, by decide⟩
  · exact ⟨by decide, by decide⟩

theorem insert_node_parent (hparent : fs.node parent = some (.dir order access)) :
    (fs.insert parent name node).node parent = some (.dir (order ++ [name]) access) := by
  rw [insert_node, if_neg (by simp), if_pos rfl, hparent]
  rfl

/-- What a directory of the new file system is: the new leaf, its parent, or one of the others. -/
theorem dir_of_insert {order' : List Name} {access' : Access}
    (hparent : fs.node parent = some (.dir order access))
    (hdir : (fs.insert parent name node).node loc = some (.dir order' access')) :
    (loc = parent ++ [name] ∧ node = .dir order' access') ∨
      (loc = parent ∧ order' = order ++ [name]) ∨
      loc ≠ parent ++ [name] ∧ loc ≠ parent ∧ fs.node loc = some (.dir order' access') := by
  by_cases hnew : loc = parent ++ [name]
  · rw [insert_node, if_pos hnew] at hdir
    exact Or.inl ⟨hnew, Option.some.inj hdir⟩
  · by_cases hloc : loc = parent
    · rw [hloc, insert_node_parent hparent] at hdir
      cases hdir
      exact Or.inr (Or.inl ⟨hloc, rfl⟩)
    · rw [insert_node, if_neg hnew, if_neg hloc] at hdir
      exact Or.inr (Or.inr ⟨hnew, hloc, hdir⟩)

/-- No other location gains a node. -/
theorem isSome_insert (hnew : loc ≠ parent ++ [name]) :
    ((fs.insert parent name node).node loc).isSome = (fs.node loc).isSome := by
  rw [insert_node, if_neg hnew]
  split
  · next hup => rw [hup, Option.isSome_map]
  · rfl

/-- Apart from the new entry, the directories list what they have listed before. -/
theorem listed_insert_iff {last : Name} (hmissing : fs.hop parent name = .missing)
    (hleaf : IsLeaf node)
    (hlast : Proper last) (hend : loc ++ [last] ≠ parent ++ [name]) :
    (∃ order access, (fs.insert parent name node).node loc = some (.dir order access) ∧
        last ∈ order) ↔
      ∃ order access, fs.node loc = some (.dir order access) ∧ last ∈ order := by
  obtain ⟨-, hnone, order, access, hparent, -⟩ := hop_missing hmissing
  constructor
  · rintro ⟨order', access', hdir, hmem⟩
    rcases dir_of_insert hparent hdir with ⟨-, rfl⟩ | ⟨rfl, rfl⟩ | ⟨-, -, hdir⟩
    · exact absurd hlast (hleaf.not_proper hmem).2
    · -- the parent lists one name more, which is not the last one here
      refine ⟨order, access, hparent, (List.mem_append.mp hmem).resolve_right fun hname => ?_⟩
      exact hend (by rw [List.mem_singleton.mp hname])
    · exact ⟨order', access', hdir, hmem⟩
  · rintro ⟨order', access', hdir, hmem⟩
    have hloc : loc ≠ parent ++ [name] := by
      rintro rfl
      cases hnone.symm.trans hdir
    by_cases hup : loc = parent
    · subst hup
      cases hparent.symm.trans hdir
      exact ⟨_, _, insert_node_parent hparent, List.mem_append_left _ hmem⟩
    · exact ⟨order', access', by rw [insert_node, if_neg hloc, if_neg hup, hdir], hmem⟩

theorem WellFormed.insert (hfs : fs.WellFormed) (hmissing : fs.hop parent name = .missing)
    (hleaf : IsLeaf node) : (fs.insert parent name node).WellFormed := by
  obtain ⟨hproper, hnone, order, access, hparent, -⟩ := hop_missing hmissing
  have hfresh : name ∉ order := fun hmem => by
    have hsome := (hfs.listed parent name).mpr ⟨hproper, order, access, hparent, hmem⟩
    rw [hnone] at hsome
    cases hsome
  refine ⟨?_, fun loc order' access' hdir => ?_, fun loc order' access' hdir => ?_,
    fun loc last => ?_⟩
  · by_cases hroot : parent = []
    · subst hroot
      exact ⟨_, _, insert_node_parent hparent⟩
    · obtain ⟨order', access', hdir⟩ := hfs.root
      exact ⟨order', access', by rw [insert_node, if_neg (by simp), if_neg (Ne.symm hroot), hdir]⟩
  · rcases dir_of_insert hparent hdir with ⟨-, rfl⟩ | ⟨-, rfl⟩ | ⟨-, -, hdir⟩
    · have horder : order' = [".", ".."] := hleaf
      exact horder ▸ by decide
    · exact (hfs.nodup parent order access hparent).append (List.nodup_singleton name)
        (List.disjoint_singleton.mpr hfresh)
    · exact hfs.nodup loc order' access' hdir
  · rcases dir_of_insert hparent hdir with ⟨-, rfl⟩ | ⟨-, rfl⟩ | ⟨-, -, hdir⟩
    · exact fun hmem => (hleaf.not_proper hmem).1 rfl
    · intro hmem
      rcases List.mem_append.mp hmem with hmem | hmem
      · exact hfs.named parent order access hparent hmem
      · exact hproper.1 (List.mem_singleton.mp hmem).symm
    · exact hfs.named loc order' access' hdir
  · by_cases hend : loc ++ [last] = parent ++ [name]
    · obtain ⟨rfl, hlast⟩ := List.append_inj' hend rfl
      cases hlast
      rw [insert_node, if_pos rfl]
      exact iff_of_true rfl ⟨hproper, _, _, insert_node_parent hparent,
        List.mem_append_right _ (List.mem_singleton_self _)⟩
    · rw [isSome_insert hend, hfs.listed loc last]
      exact and_congr_right fun hlast => (listed_insert_iff hmissing hleaf hlast hend).symm

theorem WellFormed.refill (hfs : fs.WellFormed) (hfile : fs.node loc = some (.file content))
    (content' : Bytes) : (fs.refill loc content').WellFormed := by
  have hdirs : ∀ x order access, (fs.refill loc content').node x = some (.dir order access) ↔
      fs.node x = some (.dir order access) := by
    intro x order access
    rw [refill_node]
    by_cases hx : x = loc
    · rw [if_pos hx, hx, hfile]
      exact iff_of_false (fun h => by cases h) fun h => by cases h
    · rw [if_neg hx]
  have hsome : ∀ x, ((fs.refill loc content').node x).isSome = (fs.node x).isSome := by
    intro x
    rw [refill_node]
    by_cases hx : x = loc
    · rw [if_pos hx, hx, hfile]
      rfl
    · rw [if_neg hx]
  obtain ⟨order, access, hroot⟩ := hfs.root
  refine ⟨⟨order, access, (hdirs _ _ _).mpr hroot⟩, fun x order access hdir => ?_,
    fun x order access hdir => ?_, fun x last => ?_⟩
  · exact hfs.nodup x order access ((hdirs _ _ _).mp hdir)
  · exact hfs.named x order access ((hdirs _ _ _).mp hdir)
  · rw [hsome, hfs.listed]
    simp only [hdirs]

theorem Grows.wellFormed (h : Grows isNew fs fs') (hfs : fs.WellFormed) : fs'.WellFormed := by
  induction h with
  | refl => exact hfs
  | tail _ hstep ih =>
    cases hstep with
    | made missing leaf => exact ih.insert missing leaf
    | filled file content' => exact ih.refill file content'

/-- No node lies deeper than a bound. -/
def Bounded (fs : FileSystem) : Prop := ∃ depth, ∀ loc, (fs.node loc).isSome → loc.length ≤ depth

theorem Written.bounded (h : Written isNew fs fs') (hbounded : fs.Bounded) : fs'.Bounded := by
  obtain ⟨depth, hdepth⟩ := hbounded
  refine ⟨depth + 1, fun loc hsome => ?_⟩
  cases h with
  | @made parent name node missing =>
    obtain ⟨-, -, order, access, hparent, -⟩ := hop_missing missing
    have hle := hdepth parent (hparent ▸ rfl)
    rw [insert_node] at hsome
    split at hsome
    · next hnew =>
      rw [hnew, List.length_append]
      exact Nat.add_le_add_right hle 1
    · split at hsome
      · next hloc =>
        rw [hloc]
        exact Nat.le_succ_of_le hle
      · exact Nat.le_succ_of_le (hdepth loc hsome)
  | @filled x content file content' =>
    rw [refill_node] at hsome
    split at hsome
    · next hloc =>
      rw [hloc]
      exact Nat.le_succ_of_le (hdepth x (file ▸ rfl))
    · exact Nat.le_succ_of_le (hdepth loc hsome)

theorem Grows.bounded (h : Grows isNew fs fs') (hbounded : fs.Bounded) : fs'.Bounded := by
  induction h with
  | refl => exact hbounded
  | tail _ hstep ih => exact hstep.bounded ih

end FileSystem

/-! ## Calls that write -/

/-- On every machine the file system grows. -/
def Growing (isNew : Node → Prop) (w w' : World) : Prop :=
  ∀ host, (w.disk host).Grows isNew (w'.disk host)

instance (isNew : Node → Prop) : Std.Refl (Growing isNew) := ⟨fun _ _ => .refl⟩

instance (isNew : Node → Prop) : IsTrans World (Growing isNew) :=
  ⟨fun _ _ _ hfirst hsecond host => (hfirst host).trans (hsecond host)⟩

section Calls

variable {env : Environment} {side : Side} {isNew isNew' : Node → Prop} {w w' : World}
  {path : PosixPath} {loc : Loc} {fs : FileSystem}

theorem Growing.mono (himp : ∀ node, isNew node → isNew' node) (h : Growing isNew w w') :
    Growing isNew' w w' := fun host => (h host).mono himp

theorem SameDisks.growing (h : SameDisks w w') : Growing isNew w w' := fun host => by
  rw [SameDisks] at h
  rw [h]
  exact .refl

theorem growing_of_update (hstep : (w.fs side).Grows isNew fs)
    (hdisk : w'.disk = Function.update w.disk side.host fs) : Growing isNew w w' := by
  intro host
  rw [hdisk]
  by_cases hhost : host = side.host
  · subst hhost
    rwa [Function.update_self]
  · rw [Function.update_of_ne hhost]
    exact .refl

theorem Puts.growing {follow : Bool} (hleaf : ∀ node, isNew node → FileSystem.IsLeaf node)
    (h : Puts side w w' ((w.fs side).lookup side.cwd follow path) isNew) : Growing isNew w w' := by
  obtain ⟨parent, name, node, habsent, hnew, hdisk⟩ := h
  have hmissing := FileSystem.hop_of_lookup_absent habsent
  exact growing_of_update (.single (.made hmissing (hleaf node hnew) hnew)) hdisk

theorem PutsOrFails.growing {follow : Bool} {run : Except Fault Unit × World}
    (hleaf : ∀ node, isNew node → FileSystem.IsLeaf node)
    (h : PutsOrFails side w run ((w.fs side).lookup side.cwd follow path) isNew) :
    Growing isNew w run.2 := by
  rcases h with ⟨hsame, -⟩ | hputs
  · exact hsame.growing
  · exact hputs.growing hleaf

theorem growing_act {α : Type} {message : String} {f : FileSystem → Except Errno (α × FileSystem)}
    (hf : ∀ fs a fs', f fs = .ok (a, fs') → fs.Grows isNew fs') :
    Effect.Keeps (Growing isNew) (act env side message f) := by
  intro w
  rcases act_cases env side message f w with ⟨hsame, -⟩ | ⟨a, fs', hok, hdisk, -⟩
  · exact hsame.growing
  · exact growing_of_update (hf _ a fs' hok) hdisk

/-- Opening a file for writing makes it, or empties it. -/
theorem grows_openWrite {fs' : FileSystem} {cwd : Loc}
    (hopen : fs.openWrite cwd path = .ok (loc, fs')) :
    fs.Grows (fun node => node.isDir = false) fs' := by
  rw [FileSystem.openWrite] at hopen
  cases hlookup : fs.lookup cwd true path with
  | found x =>
    cases hnode : fs.node x with
    | none => simp [hlookup, hnode] at hopen
    | some node =>
      cases node with
      | dir order access => simp [hlookup, hnode] at hopen
      | file content =>
        simp only [hlookup, hnode, Except.ok.injEq, Prod.mk.injEq] at hopen
        obtain ⟨-, rfl⟩ := hopen
        exact .single (.filled hnode [])
      | link target =>
        simp only [hlookup, hnode, Except.ok.injEq, Prod.mk.injEq] at hopen
        obtain ⟨-, rfl⟩ := hopen
        exact .refl
      | special kind =>
        simp only [hlookup, hnode, Except.ok.injEq, Prod.mk.injEq] at hopen
        obtain ⟨-, rfl⟩ := hopen
        exact .refl
  | absent parent name =>
    rw [hlookup] at hopen
    obtain ⟨made, hcreate, hpair⟩ := map_eq_ok hopen
    cases hpair
    rw [create_eq_ok hcreate]
    exact .single (.made (FileSystem.hop_of_lookup_absent hlookup) trivial rfl)
  | failed errno => simp [hlookup] at hopen

theorem grows_append (fs : FileSystem) (loc : Loc) (bytes : Bytes) :
    fs.Grows isNew (fs.append loc bytes) := by
  rw [FileSystem.append]
  split
  · next content hfile => exact .single (.filled hfile (content ++ bytes))
  · exact .refl

/-- Writing a file makes no directory, whether or not something is at its path. -/
theorem growing_writeBytes (env : Environment) (side : Side) (path : PosixPath) (data : Bytes) :
    Effect.Keeps (Growing fun node => node.isDir = false) (writeBytes env side path data) := by
  apply (growing_act fun _ _ _ hopen => grows_openWrite hopen).bind
  intro loc w
  refine trans_of (Growing _) ?_ (sameDisks_closing env side _ w).growing
  have hwrite (pieces : List Bytes) : Effect.Keeps (Growing fun node => node.isDir = false)
      (write env side loc pieces) := by
    refine Effect.Keeps.forEach fun piece _ => growing_act fun fs _ fs' hok => ?_
    cases hok
    exact grows_append fs loc piece
  have hnow : Effect.Keeps (Growing fun node => node.isDir = false) now :=
    fun w => (keeps_now w).growing
  exact hnow.bind (fun time => hwrite _) w

end Calls

end RpcProject.Files
