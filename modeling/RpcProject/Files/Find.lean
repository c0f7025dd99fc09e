/-
# Finding in order

`find` yields the path itself and the paths of all that `walk` comes to, the
entries of a directory together. Where each directory is listed exactly and no link
leads to a directory, that is every descendant once, and nothing else: before those
below it with `topdown`, after them without.

It comes to that exactly when the type of each entry can be found out. Otherwise
`is_dir` raises, and `find` with it.
-/

import RpcProject.Files.EntryTests
import RpcProject.Files.Prune
import RpcProject.Foundations.TreeOrder

namespace RpcProject.Files

open Foundations Server

/-! ## What is asked of a traversal -/

/-- A tree at the end of a path, whose directories are listed exactly and whose links
do not lead to directories. -/
structure Findable (fs : FileSystem) (platform : Platform) (cwd : Loc) (path : PosixPath)
    (top : Loc) : Prop where
  accessible : fs.accessible cwd path = true
  found : fs.lookup cwd true path = .found top
  dir : ∃ order access, fs.node top = some (.dir order access)
  listed : ∀ rest order access, fs.node (top ++ rest) = some (.dir order access) →
    fs.scandir platform cwd (path.joins rest) =
      .ok ((FileSystem.children order).map (fs.entryAt cwd (path.joins rest) (top ++ rest)))
  links : ∀ rest name target mode, fs.node (top ++ rest ++ [name]) = some (.link target) →
    fs.stat cwd true ((path.joins rest).slash name) = .ok mode → Node.fileType mode ≠ sIfdir

/-- The paths of all nodes of a tree, each once, and in order. -/
structure InOrder (fs : FileSystem) (topdown : Bool) (path : PosixPath) (top : Loc)
    (found : List PosixPath) : Prop where
  nodup : found.Nodup
  mem : ∀ p, p ∈ found ↔ ∃ rest, (fs.node (top ++ rest)).isSome ∧ p = path.joins rest
  order : ∀ rest more, more ≠ [] → (fs.node (top ++ rest ++ more)).isSome →
    (if topdown then [path.joins rest, path.joins (rest ++ more)]
      else [path.joins (rest ++ more), path.joins rest]).Sublist found

/-- `find` runs to its end and yields the nodes of a tree in order. -/
def FindsInOrder (fs : FileSystem) (platform : Platform) (cwd : Loc) (topdown : Bool)
    (path : PosixPath) (top : Loc) : Prop :=
  ∃ fuel found, find (fun _ => fs) platform cwd topdown Effect.emit fuel path [] = (.ok (), found) ∧
    InOrder fs topdown path top found

/-- The type of each entry of a tree can be found out. -/
def TypesFound (fs : FileSystem) (cwd : Loc) (path : PosixPath) (top : Loc) : Prop :=
  ∀ rest order access name node, fs.node (top ++ rest) = some (.dir order access) →
    fs.node (top ++ rest ++ [name]) = some node →
      TypeFound fs cwd (path.joins rest) (top ++ rest) access name node

variable {fs : FileSystem} {platform : Platform} {cwd loc top rest : Loc} {topdown : Bool}
  {path q : PosixPath} {order : List Name} {access : Access} {name : Name} {node : Node} {fuel : ℕ}

/-! ## Paths of descendants -/

theorem joins_concat (path : PosixPath) (rest : Loc) (name : Name) :
    path.joins (rest ++ [name]) = (path.joins rest).join name := by
  rw [PosixPath.joins, List.foldl_append]
  rfl

/-- The names of a path that was joined. -/
theorem base_joins (path : PosixPath) (hnames : "" ∉ rest) :
    (path.joins rest).base = path.base ++ rest := by
  induction rest using List.reverseRecOn with
  | nil => rw [List.append_nil]; rfl
  | append_singleton rest name ih =>
    rw [List.mem_append, List.mem_singleton, not_or] at hnames
    rw [joins_concat, FileSystem.join_base _ (Ne.symm hnames.2), ih hnames.1, List.append_assoc]

theorem names_of_isSome (hfs : fs.WellFormed) (hsome : (fs.node (top ++ rest)).isSome) :
    "" ∉ rest := by
  induction rest using List.reverseRecOn with
  | nil => exact List.not_mem_nil
  | append_singleton rest name ih =>
    rw [← List.append_assoc] at hsome
    obtain ⟨hproper, order, access, hdir, -⟩ := (hfs.listed _ name).mp hsome
    rw [List.mem_append, List.mem_singleton, not_or]
    exact ⟨ih (by rw [hdir]; rfl), Ne.symm hproper.1⟩

/-- Different nodes of a tree have different paths. -/
theorem joins_injOn (hfs : fs.WellFormed) {rest rest' : Loc}
    (hsome : (fs.node (top ++ rest)).isSome) (hsome' : (fs.node (top ++ rest')).isSome)
    (hsame : path.joins rest = path.joins rest') : rest = rest' := by
  have hbase := congrArg PosixPath.base hsame
  rw [base_joins path (names_of_isSome hfs hsome),
    base_joins path (names_of_isSome hfs hsome')] at hbase
  exact List.append_cancel_left hbase

/-- The path of a directory of the tree leads there. -/
theorem Findable.lookup (h : Findable fs platform cwd path top) (hfs : fs.WellFormed)
    (hdir : fs.node (top ++ rest) = some (.dir order access)) :
    fs.lookup cwd true (path.joins rest) = .found (top ++ rest) := by
  induction rest using List.reverseRecOn generalizing order access with
  | nil =>
    rw [List.append_nil]
    exact h.found
  | append_singleton rest name ih =>
    rw [← List.append_assoc] at hdir ⊢
    obtain ⟨hproper, upOrder, upAccess, hup, -⟩ := (hfs.listed _ name).mp (by rw [hdir]; rfl)
    have hnotLink : true = true → ∀ target, Node.dir order access ≠ .link target :=
      fun _ target hlink => by cases hlink
    have hlookup := FileSystem.lookup_join_entry (ih hup) hup hproper hdir hnotLink
    rw [← joins_concat] at hlookup
    split at hlookup
    · -- the directory could not be listed
      have hdenied : fs.entries cwd (path.joins (rest ++ [name])) = .error eacces := by
        rw [FileSystem.entries, FileSystem.readdir, hlookup]
      obtain ⟨e, herror⟩ := FileSystem.scandir_of_error platform hdenied
      have hlisted := h.listed (rest ++ [name]) order access (by rwa [← List.append_assoc])
      cases herror.symm.trans hlisted
    · exact hlookup

/-! ## The nodes that a walk comes to -/

/-- The entries of a directory. -/
def namesAt (fs : FileSystem) (loc : Loc) : List Name :=
  match fs.node loc with
  | some (.dir order _) => FileSystem.children order
  | _ => []

/-- The directories of a directory, -/
def dirsAt (fs : FileSystem) (loc : Loc) : List Name := (namesAt fs loc).filter (isDirAt fs loc)

/-- and its other entries. -/
def filesAt (fs : FileSystem) (loc : Loc) : List Name :=
  (namesAt fs loc).filter fun name => !isDirAt fs loc name

/-- The nodes below a directory as a walk comes to them. -/
def walkOrder (fs : FileSystem) (topdown : Bool) : ℕ → Loc → List Loc
  | 0, _ => []
  | fuel + 1, loc =>
      treeOrder topdown (filesAt fs loc ++ dirsAt fs loc) (dirsAt fs loc)
        fun d => walkOrder fs topdown fuel (loc ++ [d])

theorem namesAt_of_dir (hdir : fs.node loc = some (.dir order access)) :
    namesAt fs loc = FileSystem.children order := by rw [namesAt, hdir]

theorem mem_namesAt_iff (hfs : fs.WellFormed) :
    name ∈ namesAt fs loc ↔ (fs.node (loc ++ [name])).isSome := by
  rw [hfs.listed, namesAt]
  constructor
  · intro hmem
    split at hmem
    · next order access hdir =>
      obtain ⟨hmem, hdot⟩ := List.mem_filter.mp hmem
      exact ⟨hfs.proper_of_mem hdir hmem (of_decide_eq_true hdot), order, access, hdir, hmem⟩
    · cases hmem
  · rintro ⟨hproper, order, access, hdir, hmem⟩
    rw [hdir]
    exact List.mem_filter.mpr ⟨hmem, by simpa using hproper.2⟩

theorem mem_dirsAt_iff (hfs : fs.WellFormed) : name ∈ dirsAt fs loc ↔
    ∃ order access, fs.node (loc ++ [name]) = some (.dir order access) := by
  rw [dirsAt, List.mem_filter, mem_namesAt_iff hfs, isDirAt]
  cases hnode : fs.node (loc ++ [name]) with
  | none => simp
  | some node => cases node <;> simp [Node.isDir]

theorem nodup_namesAt (hfs : fs.WellFormed) (loc : Loc) : (namesAt fs loc).Nodup := by
  rw [namesAt]
  split
  · next order access hdir => exact (hfs.nodup _ _ _ hdir).filter _
  · exact List.nodup_nil

theorem perm_namesAt (fs : FileSystem) (loc : Loc) :
    (filesAt fs loc ++ dirsAt fs loc).Perm (namesAt fs loc) := by
  have hperm := List.filter_append_perm (fun name => !isDirAt fs loc name) (namesAt fs loc)
  simp only [Bool.not_not] at hperm
  exact hperm

theorem not_mem_walkOrder (fs : FileSystem) (topdown : Bool) (fuel : ℕ) (loc : Loc) :
    [] ∉ walkOrder fs topdown fuel loc := by
  cases fuel with
  | zero => exact List.not_mem_nil
  | succ fuel =>
    rw [walkOrder, mem_treeOrder]
    rintro (⟨_, -, h⟩ | ⟨_, -, _, -, h⟩) <;> cases h

/-- The order of the walk is an order of the tree. -/
theorem pairwise_walkOrder (hfs : fs.WellFormed) (fuel : ℕ) (loc : Loc) :
    (walkOrder fs topdown fuel loc).Pairwise (Comes topdown) := by
  induction fuel generalizing loc with
  | zero => exact List.Pairwise.nil
  | succ fuel ih =>
    exact pairwise_treeOrder ((perm_namesAt fs loc).nodup_iff.mpr (nodup_namesAt hfs loc))
      ((nodup_namesAt hfs loc).filter _) (fun d _ => ih (loc ++ [d]))
      fun d _ => not_mem_walkOrder fs topdown fuel (loc ++ [d])

/-- A walk that goes on long enough comes to all nodes below a directory. -/
theorem mem_walkOrder_iff (hfs : fs.WellFormed) {limit : ℕ}
    (hlimit : ∀ x, (fs.node x).isSome → x.length < limit) (hfuel : limit ≤ loc.length + fuel)
    (hloc : (fs.node loc).isSome) :
    rest ∈ walkOrder fs topdown fuel loc ↔ rest ≠ [] ∧ (fs.node (loc ++ rest)).isSome := by
  induction fuel generalizing loc rest with
  | zero => exact absurd (hlimit loc hloc) (Nat.not_lt.mpr hfuel)
  | succ fuel ih =>
    have hdeeper : ∀ d ∈ dirsAt fs loc, ∀ rest,
        rest ∈ walkOrder fs topdown fuel (loc ++ [d]) ↔
          rest ≠ [] ∧ (fs.node (loc ++ d :: rest)).isSome := by
      intro d hd rest
      obtain ⟨order, access, hdir⟩ := (mem_dirsAt_iff hfs).mp hd
      have hfuel' : limit ≤ (loc ++ [d]).length + fuel := by
        rw [List.length_append, List.length_singleton]
        omega
      rw [ih hfuel' (by rw [hdir]; rfl), List.append_assoc, List.singleton_append]
    rw [walkOrder, mem_treeOrder]
    constructor
    · rintro (⟨name, hname, rfl⟩ | ⟨d, hd, rest, hrest, rfl⟩)
      · exact ⟨List.cons_ne_nil _ _,
          (mem_namesAt_iff hfs).mp ((perm_namesAt fs loc).mem_iff.mp hname)⟩
      · exact ⟨List.cons_ne_nil _ _, ((hdeeper d hd rest).mp hrest).2⟩
    · rintro ⟨hne, hsome⟩
      cases rest with
      | nil => exact absurd rfl hne
      | cons d rest =>
        cases rest with
        | nil =>
          exact Or.inl ⟨d, (perm_namesAt fs loc).mem_iff.mpr ((mem_namesAt_iff hfs).mpr hsome), rfl⟩
        | cons name rest =>
          -- what has a node below it is a directory
          have hsplit : loc ++ d :: name :: rest = loc ++ [d] ++ [name] ++ rest := by simp
          obtain ⟨-, order, access, hdir, -⟩ :=
            (hfs.listed _ name).mp (FileSystem.isSome_of_append hfs (hsplit ▸ hsome))
          have hd : d ∈ dirsAt fs loc := (mem_dirsAt_iff hfs).mpr ⟨order, access, hdir⟩
          exact Or.inr ⟨d, hd, name :: rest,
            (hdeeper d hd _).mpr ⟨List.cons_ne_nil _ _, hsome⟩, rfl⟩

/-! ## The walk -/

/-- The type tests of the entries of a directory succeed. -/
def TestsAt (fs : FileSystem) (cwd : Loc) (path : PosixPath) (top rest : Loc) : Prop :=
  ∀ name ∈ namesAt fs (top ++ rest),
    (fs.entryAt cwd (path.joins rest) (top ++ rest) name).isDir (path.joins rest) =
      .ok (isDirAt fs (top ++ rest) name)

/-- So do those of all directories that a walk comes to, which is not cut off. -/
def Tested (fs : FileSystem) (cwd : Loc) (path : PosixPath) (top : Loc) : ℕ → Loc → Prop
  | 0, _ => False
  | fuel + 1, rest =>
      TestsAt fs cwd path top rest ∧
        ∀ d ∈ dirsAt fs (top ++ rest), Tested fs cwd path top fuel (rest ++ [d])

/-- What is yielded before or after what is below. -/
theorem logs_yieldAround {ι : Type} {P Q : Prop} {yield below : Effect (List ι) Fault Unit}
    {items items' : List ι} (hyield : Effect.Logs P yield items)
    (hbelow : Effect.Logs Q below items') :
    Effect.Logs (P ∧ Q) (yieldAround topdown yield below)
      (if topdown then items ++ items' else items' ++ items) := by
  cases topdown with
  | false =>
    have hrun : yieldAround false yield below = below >>= fun _ => yield := rfl
    rw [hrun]
    exact (hbelow.bind hyield).congr and_comm
  | true =>
    have hrun : yieldAround true yield below = yield >>= fun _ => below := by
      rw [yieldAround, if_pos rfl, if_pos rfl]
      exact congrArg (yield >>= ·) (funext fun _ => Effect.bind_pure_unit below)
    rw [hrun]
    exact hyield.bind hbelow

theorem logs_yieldNames (q : PosixPath) (dirs files : List Name) :
    Effect.Logs True (yieldNames Effect.emit ⟨q, dirs, files⟩) ((files ++ dirs).map q.join) := by
  have hnames : ∀ names : List Name,
      Effect.Logs True (Effect.forEach (fun name => Effect.emit (q.join name)) names :
        Effect (List PosixPath) Fault Unit) (names.map q.join) := by
    intro names
    rw [List.map_eq_flatMap]
    exact (Effect.Logs.forEach names fun name _ => Effect.logs_emit (q.join name)).congr (by simp)
  rw [List.map_append]
  exact ((hnames files).bind (hnames dirs)).congr (by simp)

/-- What the listing of a directory of the tree comes to. -/
theorem Findable.listing (h : Findable fs platform cwd path top)
    (hdir : fs.node (top ++ rest) = some (.dir order access)) (found : List PosixPath) :
    survey (fun _ => fs) platform cwd none (path.joins rest) found =
      (sortEntries none (path.joins rest)
          (.ok ((namesAt fs (top ++ rest)).map
            (fs.entryAt cwd (path.joins rest) (top ++ rest)))) >>= settle none) found := by
  rw [namesAt_of_dir hdir, ← h.listed rest order access hdir]
  rfl

/-- A directory whose entries can be tested is sorted. -/
theorem Findable.survey_of_tests (h : Findable fs platform cwd path top)
    (hdir : fs.node (top ++ rest) = some (.dir order access))
    (htests : TestsAt fs cwd path top rest)
    (found : List PosixPath) :
    survey (fun _ => fs) platform cwd none (path.joins rest) found =
      (.ok (dirsAt fs (top ++ rest), filesAt fs (top ++ rest)), found) := by
  have hentries : ∀ entry ∈ (namesAt fs (top ++ rest)).map
      (fs.entryAt cwd (path.joins rest) (top ++ rest)),
      entry.isDir (path.joins rest) = .ok (isDirAt fs (top ++ rest) entry.dName) :=
    List.forall_mem_map.mpr htests
  rw [h.listing hdir, sortEntries, classify_of_tested hentries, namesWith_map_entryAt fun _ => rfl,
    namesWith_map_entryAt fun _ => rfl]
  rfl

theorem isDirAt_of_node (hnode : fs.node (loc ++ [name]) = some node) :
    isDirAt fs loc name = node.isDir := by rw [isDirAt, hnode, Option.any_some]

/-- The tests succeed just if the types can be found out. -/
theorem Findable.testsAt_iff (h : Findable fs platform cwd path top) (hfs : fs.WellFormed)
    (hdir : fs.node (top ++ rest) = some (.dir order access)) :
    TestsAt fs cwd path top rest ↔ ∀ name node, fs.node (top ++ rest ++ [name]) = some node →
      TypeFound fs cwd (path.joins rest) (top ++ rest) access name node := by
  have hfound := h.lookup hfs hdir
  constructor
  · intro htests name node hnode
    have hsome : (fs.node (top ++ rest ++ [name])).isSome := by rw [hnode]; rfl
    by_contra hnot
    obtain ⟨e, herror⟩ :=
        isDir_entryAt_of_not_typeFound hfound hdir ((hfs.listed _ name).mp hsome).1
      hnode hnot
    cases (htests name ((mem_namesAt_iff hfs).mpr hsome)).symm.trans herror
  · intro htypes name hname
    have hsome := (mem_namesAt_iff hfs).mp hname
    obtain ⟨node, hnode⟩ := Option.isSome_iff_exists.mp hsome
    rw [isDirAt_of_node hnode]
    refine isDir_entryAt_of_typeFound hfound hdir ((hfs.listed _ name).mp hsome).1 hnode ?_
      (htypes name node hnode)
    rintro target mode rfl hmode
    exact h.links rest name target mode hnode hmode

theorem Findable.survey_of_not_tests (h : Findable fs platform cwd path top) (hfs : fs.WellFormed)
    (hdir : fs.node (top ++ rest) = some (.dir order access))
    (hnot : ¬ TestsAt fs cwd path top rest) (found : List PosixPath) :
    ∃ e, survey (fun _ => fs) platform cwd none (path.joins rest) found = (.error e, found) := by
  obtain ⟨name, node, hnode, htype⟩ : ∃ name node, fs.node (top ++ rest ++ [name]) = some node ∧
      ¬ TypeFound fs cwd (path.joins rest) (top ++ rest) access name node := by
    simpa using (h.testsAt_iff hfs hdir).not.mp hnot
  have hsome : (fs.node (top ++ rest ++ [name])).isSome := by rw [hnode]; rfl
  obtain ⟨e, herror⟩ := isDir_entryAt_of_not_typeFound (h.lookup hfs hdir) hdir
    ((hfs.listed _ name).mp hsome).1 hnode htype
  obtain ⟨d, f, e', hclassify⟩ := classify_none_of_failed [] []
    (List.mem_map_of_mem ((mem_namesAt_iff hfs).mpr hsome)) herror
  refine ⟨e', ?_⟩
  rw [h.listing hdir, sortEntries, hclassify]
  rfl

theorem map_treeOrder {β : Type} (f : Loc → β) (names dirs : List Name) (sub : Name → List Loc) :
    (treeOrder topdown names dirs sub).map f =
      if topdown then (names.map fun name => f [name]) ++
        dirs.flatMap fun d => (sub d).map fun below => f (d :: below)
      else (dirs.flatMap fun d => (sub d).map fun below => f (d :: below)) ++
        names.map fun name => f [name] := by
  cases topdown <;> simp [treeOrder, List.map_flatMap, Function.comp_def]

/-- The walk yields the paths of the nodes below a directory, if the tests succeed. -/
theorem Findable.logs_walk (h : Findable fs platform cwd path top) (hfs : fs.WellFormed)
    (topdown : Bool)
    (fuel : ℕ)
    (hdir : fs.node (top ++ rest) = some (.dir order access)) :
    Effect.Logs (Tested fs cwd path top fuel rest)
      (walk (fun _ => fs) platform cwd topdown none (yieldNames Effect.emit) fuel (path.joins rest))
      ((walkOrder fs topdown fuel (top ++ rest)).map fun below => path.joins (rest ++ below)) := by
  induction fuel generalizing rest order access with
  | zero => exact Effect.logs_of_error id fun s => ⟨_, s, rfl⟩
  | succ fuel ih =>
    -- with a test that fails here nothing of the directory is yielded
    by_cases htests : TestsAt fs cwd path top rest
    · have hbelow : Effect.Logs
          (∀ d ∈ dirsAt fs (top ++ rest), Tested fs cwd path top fuel (rest ++ [d]))
          (Effect.forEach (fun name => walk (fun _ => fs) platform cwd topdown none
            (yieldNames Effect.emit) fuel ((path.joins rest).join name)) (dirsAt fs (top ++ rest)))
          ((dirsAt fs (top ++ rest)).flatMap fun d =>
            (walkOrder fs topdown fuel (top ++ rest ++ [d])).map fun below =>
              path.joins (rest ++ d :: below)) := by
        apply Effect.Logs.forEach _
        intro d hd
        obtain ⟨dirOrder, dirAccess, hchild⟩ := (mem_dirsAt_iff hfs).mp hd
        rw [List.append_assoc] at hchild
        have hwalk := ih hchild
        simp only [joins_concat, List.append_assoc, List.singleton_append] at hwalk ⊢
        exact hwalk
      have hnames : (filesAt fs (top ++ rest) ++ dirsAt fs (top ++ rest)).map
          (path.joins rest).join =
          (filesAt fs (top ++ rest) ++ dirsAt fs (top ++ rest)).map
            fun name => path.joins (rest ++ [name]) :=
        List.map_congr_left fun name _ => (joins_concat path rest name).symm
      have hyield := logs_yieldNames (path.joins rest) (dirsAt fs (top ++ rest))
        (filesAt fs (top ++ rest))
      rw [hnames] at hyield
      intro s t
      rw [walk, Effect.bind_of_ok (h.survey_of_tests hdir htests s),
        logs_yieldAround hyield hbelow s t, Tested, walkOrder, map_treeOrder,
        true_and, and_iff_right htests]
    · apply Effect.logs_of_error (fun hall => htests hall.1)
      intro s
      obtain ⟨e, herror⟩ := h.survey_of_not_tests hfs hdir htests s
      exact ⟨e, s, Effect.bind_of_error herror⟩

/-- The search yields the paths of the tree in order, when all tests pass. -/
theorem Findable.logs_find (h : Findable fs platform cwd path top) (hfs : fs.WellFormed)
    (fuel : ℕ) :
    Effect.Logs (Tested fs cwd path top fuel [])
      (find (fun _ => fs) platform cwd topdown Effect.emit fuel path)
      ((withRoot topdown (walkOrder fs topdown fuel top)).map path.joins) := by
  obtain ⟨order, access, hdir⟩ := h.dir
  have htop := List.append_nil top
  have hyield : Effect.Logs True (yieldTop (fun _ : List PosixPath => fs) cwd Effect.emit path)
      [path] := by
    intro s t
    have hrun : yieldTop (fun _ => fs) cwd Effect.emit path s = Effect.emit path s := by
      have haccessible : (Effect.ask fun _ => .ok (fs.accessible cwd path) :
          Effect (List PosixPath) Fault Bool) s = (.ok true, s) := by rw [h.accessible]; rfl
      exact Effect.bind_of_ok haccessible
    rw [hrun]
    exact Effect.logs_emit path s t
  have hwalk : Effect.Logs (Tested fs cwd path top fuel [])
      (walk (fun _ => fs) platform cwd topdown none (yieldNames Effect.emit) fuel path)
      ((walkOrder fs topdown fuel top).map path.joins) := by
    have hwalk := h.logs_walk hfs topdown fuel (htop.symm ▸ hdir)
    rwa [htop] at hwalk
  have hfind : Effect.Logs (True ∧ Tested fs cwd path top fuel [])
      (find (fun _ => fs) platform cwd topdown Effect.emit fuel path) _ :=
    logs_yieldAround hyield hwalk
  have hitems : (withRoot topdown (walkOrder fs topdown fuel top)).map path.joins =
      if topdown then [path] ++ (walkOrder fs topdown fuel top).map path.joins
      else (walkOrder fs topdown fuel top).map path.joins ++ [path] := by
    cases topdown with
    | false => exact List.map_append
    | true => rfl
  rw [hitems]
  exact hfind.congr ⟨fun h => ⟨trivial, h⟩, And.right⟩

/-! ## The traversal of a tree -/

theorem Findable.inOrder (hfs : fs.WellFormed) {limit : ℕ}
    (hlimit : ∀ x, (fs.node x).isSome → x.length < limit) (hfuel : limit ≤ top.length + fuel)
    (htop : (fs.node top).isSome) :
    InOrder fs topdown path top
      ((withRoot topdown (walkOrder fs topdown fuel top)).map path.joins) := by
  have hmem : ∀ rest, rest ∈ withRoot topdown (walkOrder fs topdown fuel top) ↔
      (fs.node (top ++ rest)).isSome := by
    intro rest
    rw [mem_withRoot, mem_walkOrder_iff hfs hlimit hfuel htop]
    by_cases hrest : rest = []
    · simp [hrest, htop]
    · simp [hrest]
  have hpairwise := pairwise_withRoot (pairwise_walkOrder hfs fuel top)
    (not_mem_walkOrder fs topdown fuel top)
  refine ⟨?_, fun p => ?_, fun rest more hmore hsome => ?_⟩
  · refine List.Nodup.map_on (fun rest hrest rest' hrest' hsame => ?_) (nodup_of_pairwise hpairwise)
    exact joins_injOn hfs ((hmem rest).mp hrest) ((hmem rest').mp hrest') hsame
  · rw [List.mem_map]
    constructor
    · rintro ⟨rest, hrest, rfl⟩
      exact ⟨rest, (hmem rest).mp hrest, rfl⟩
    · rintro ⟨rest, hrest, rfl⟩
      exact ⟨rest, (hmem rest).mpr hrest, rfl⟩
  · -- the node above is in the list too, so its place is on the right side
    have hupper := (hmem rest).mpr (FileSystem.isSome_of_append hfs hsome)
    rw [List.append_assoc] at hsome
    have hsublist := (sublist_of_comes hpairwise hupper ((hmem (rest ++ more)).mpr hsome)
      (List.prefix_append _ _) (by simpa using hmore)).map path.joins
    cases topdown <;> exact hsublist

/-- A walk that passes its tests has tested every directory. -/
theorem Tested.tests (hfs : fs.WellFormed) (h : Tested fs cwd path top fuel rest) {more : Loc}
    (hdir : fs.node (top ++ (rest ++ more)) = some (.dir order access)) :
    TestsAt fs cwd path top (rest ++ more) := by
  induction fuel generalizing rest more with
  | zero => exact h.elim
  | succ fuel ih =>
    obtain ⟨hhere, hbelow⟩ := h
    cases more with
    | nil => rwa [List.append_nil]
    | cons d more =>
      have hsplit : rest ++ d :: more = rest ++ [d] ++ more := by simp
      rw [hsplit] at hdir ⊢
      have hd : d ∈ dirsAt fs (top ++ rest) := by
        rw [← List.append_assoc, ← List.append_assoc] at hdir
        exact (mem_dirsAt_iff hfs).mpr (FileSystem.dir_of_append hfs hdir)
      exact ih (hbelow d hd) hdir

/-- A walk is not cut off if it may go as deep as the tree. -/
theorem tested_of_tests (hfs : fs.WellFormed) {limit : ℕ}
    (hlimit : ∀ x, (fs.node x).isSome → x.length < limit)
    (hfuel : limit ≤ (top ++ rest).length + fuel) (hsome : (fs.node (top ++ rest)).isSome)
    (htests : ∀ more order access, fs.node (top ++ (rest ++ more)) = some (.dir order access) →
      TestsAt fs cwd path top (rest ++ more)) : Tested fs cwd path top fuel rest := by
  induction fuel generalizing rest with
  | zero => exact absurd (hlimit _ hsome) (Nat.not_lt.mpr hfuel)
  | succ fuel ih =>
    constructor
    · intro name hname
      obtain ⟨-, order, access, hdir, -⟩ := (hfs.listed _ name).mp ((mem_namesAt_iff hfs).mp hname)
      have hhere := htests [] order access (by rwa [List.append_nil])
      rw [List.append_nil] at hhere
      exact hhere name hname
    · intro d hd
      obtain ⟨order, access, hdir⟩ := (mem_dirsAt_iff hfs).mp hd
      rw [List.append_assoc] at hdir
      refine ih ?_ (by rw [hdir]; rfl) fun more order access hmore => ?_
      · rw [← List.append_assoc, List.length_append, List.length_singleton]
        omega
      · rw [List.append_assoc] at hmore ⊢
        exact htests _ order access hmore

/-- On a tree whose directories are listed exactly and whose links do not lead to
directories, `find` yields every node once and in order just if the type of each entry
can be found out. -/
theorem findsInOrder_iff_typesFound (disk : Disk) (platform : Platform) (cwd : Loc) (topdown : Bool)
    (path : PosixPath) (top : Loc) (h : Findable disk.toFileSystem platform cwd path top) :
    FindsInOrder disk.toFileSystem platform cwd topdown path top ↔
      TypesFound disk.toFileSystem cwd path top := by
  have hfs := disk.wellFormed
  constructor
  · rintro ⟨fuel, found, hrun, -⟩ rest order access name node hdir hnode
    have htested := ((h.logs_find hfs fuel [] found).mp hrun).1
    have htests := htested.tests hfs hdir
    exact (h.testsAt_iff hfs hdir).mp htests name node hnode
  · intro htypes
    obtain ⟨order, access, hdir⟩ := h.dir
    have hsome : (disk.node top).isSome := by rw [hdir]; rfl
    have hlimit : ∀ x, (disk.node x).isSome → x.length < disk.depth + 1 :=
      fun x hx => Nat.lt_succ_of_le (disk.length_le x hx)
    have hfuel : disk.depth + 1 ≤ top.length + (disk.depth + 1) := Nat.le_add_left _ _
    have htested : Tested disk.toFileSystem cwd path top (disk.depth + 1) [] := by
      apply tested_of_tests hfs hlimit (by rwa [List.append_nil]) (by rwa [List.append_nil])
      intro more order access hmore
      exact (h.testsAt_iff hfs hmore).mpr fun name node => htypes _ order access name node hmore
    exact ⟨disk.depth + 1, _, (h.logs_find hfs _ [] _).mpr ⟨htested, rfl⟩,
      Findable.inOrder hfs hlimit hfuel hsome⟩

/-! ## A tree with a link -/

/-- A tree with a file, a link and a directory without entries. -/
def linkTree (target : PosixPath) : Disk :=
  .ofTable
    [([], .dir [".", "..", "t"] ⟨true, true, true⟩),
      (["t"], .dir [".", "..", "f", "l", "s"] ⟨true, true, true⟩),
      (["t", "f"], .file []),
      (["t", "l"], .link target),
      (["t", "s"], .dir [".", ".."] ⟨true, true, true⟩)]
    (fun _ => true) (of_decide_eq_true rfl)

theorem dir_of_linkTree {target : PosixPath}
    (hdir : (linkTree target).node (["t"] ++ rest) = some (.dir order access)) :
    access = ⟨true, true, true⟩ ∧
      (rest = [] ∧ order = [".", "..", "f", "l", "s"] ∨ rest = ["s"] ∧ order = [".", ".."]) := by
  have hplaces : rest = [] ∧ order = [".", "..", "f", "l", "s"] ∧ access = ⟨true, true, true⟩ ∨
      rest = ["s"] ∧ order = [".", ".."] ∧ access = ⟨true, true, true⟩ := by
    simpa using FileSystem.mem_of_lookup hdir
  rcases hplaces with ⟨rfl, rfl, rfl⟩ | ⟨rfl, rfl, rfl⟩
  · exact ⟨rfl, Or.inl ⟨rfl, rfl⟩⟩
  · exact ⟨rfl, Or.inr ⟨rfl, rfl⟩⟩

theorem link_of_linkTree {target other : PosixPath}
    (hlink : (linkTree target).node (["t"] ++ rest ++ [name]) = some (.link other)) :
    rest = [] ∧ name = "l" ∧ other = target := by
  have hplace : rest ++ [name] = [] ++ ["l"] ∧ other = target := by
    simpa using FileSystem.mem_of_lookup hlink
  obtain ⟨rfl, hname⟩ := List.append_inj' hplace.1 rfl
  exact ⟨rfl, List.head_eq_of_cons_eq hname, hplace.2⟩

theorem findable_linkTree (target : PosixPath)
    (hlink : ∀ mode, (linkTree target).stat [] true ⟨true, ["t", "l"]⟩ = .ok mode →
      Node.fileType mode ≠ sIfdir) :
    Findable (linkTree target).toFileSystem .linux [] ⟨true, ["t"]⟩ ["t"] where
  accessible := rfl
  found := rfl
  dir := ⟨_, _, rfl⟩
  listed rest order access hdir := by
    obtain ⟨rfl, ⟨rfl, rfl⟩ | ⟨rfl, rfl⟩⟩ := dir_of_linkTree hdir
    · exact FileSystem.scandir_children .linux rfl hdir rfl (dotsFirst_of_forall (by decide))
        (by decide)
    · exact FileSystem.scandir_children .linux rfl hdir rfl (dotsFirst_of_forall (by decide))
        (by decide)
  links rest name other mode hnode hmode := by
    obtain ⟨rfl, rfl, rfl⟩ := link_of_linkTree hnode
    exact hlink mode hmode

/-- With a link to the file, all five nodes are found, after those below them. -/
theorem findsInOrder_linkTree :
    FindsInOrder (linkTree ⟨true, ["t", "f"]⟩).toFileSystem .linux [] false ⟨true, ["t"]⟩
      ["t"] := by
  have hstat : (linkTree ⟨true, ["t", "f"]⟩).stat [] true ⟨true, ["t", "l"]⟩ =
      .ok (Node.file []).mode := rfl
  have hfindable := findable_linkTree ⟨true, ["t", "f"]⟩ fun mode hmode => by
    cases hstat.symm.trans hmode
    decide
  refine (findsInOrder_iff_typesFound (linkTree ⟨true, ["t", "f"]⟩) .linux [] false
    ⟨true, ["t"]⟩ ["t"] hfindable).mpr ?_
  intro rest order access name node hdir hnode
  obtain ⟨rfl, -⟩ := dir_of_linkTree hdir
  refine Or.inr ⟨rfl, fun target htarget => ?_⟩
  subst htarget
  obtain ⟨rfl, rfl, rfl⟩ := link_of_linkTree hnode
  exact ⟨_, hstat⟩

/-- With a dangling link, nothing below is yielded before `find` raises. -/
theorem not_findsInOrder_linkTree :
    Findable (linkTree ⟨true, ["x"]⟩).toFileSystem .linux [] ⟨true, ["t"]⟩ ["t"] ∧
      (∀ fuel, find (fun _ => (linkTree ⟨true, ["x"]⟩).toFileSystem) .linux [] true Effect.emit
        (fuel + 1) ⟨true, ["t"]⟩ [] =
          (.error (.errno enoent "failed to stat: l"), [⟨true, ["t"]⟩])) ∧
      ¬ FindsInOrder (linkTree ⟨true, ["x"]⟩).toFileSystem .linux [] true ⟨true, ["t"]⟩ ["t"] := by
  have hstat : (linkTree ⟨true, ["x"]⟩).stat [] true ⟨true, ["t", "l"]⟩ = .error enoent := rfl
  have hraises : ∀ fuel, find (fun _ => (linkTree ⟨true, ["x"]⟩).toFileSystem) .linux [] true
      Effect.emit (fuel + 1) ⟨true, ["t"]⟩ [] =
        (.error (.errno enoent "failed to stat: l"), [⟨true, ["t"]⟩]) := fun _ => rfl
  refine ⟨findable_linkTree _ fun mode hmode => (by cases hstat.symm.trans hmode), hraises, ?_⟩
  rintro ⟨fuel, found, hrun, -⟩
  cases fuel with
  | zero => cases hrun
  | succ fuel => cases (hraises fuel).symm.trans hrun

end RpcProject.Files
