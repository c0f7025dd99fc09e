/-
# Lookups in a file system that changes

Following names is compositional: a lookup that has ended at a node goes on from
there. It is also monotone: what it depends on are the nodes on its way, so it
ends at the same node in every file system that still has them.
-/

import RpcProject.Files.FileSystem

namespace RpcProject.Files

namespace FileSystem

/-- Names without some of the empty ones and of those for the directory itself. -/
inductive Skips : List Name → List Name → Prop
  | nil : Skips [] []
  | keep {names names' : List Name} (name : Name) :
      Skips names names' → Skips (name :: names) (name :: names')
  | skip {name : Name} {names names' : List Name} (stay : name = "" ∨ name = ".") :
      Skips names names' → Skips (name :: names) names'

variable {fs fs' fs'' : FileSystem} {cwd loc start dest parent : Loc} {follow : Bool}
  {budget : ℕ} {names names' rest more : List Name} {name : Name} {target p : PosixPath}
  {node : Node} {order : List Name} {access : Access}

/-! ## Lookups link by link -/

/-- A lookup that does not run out of links is one descent, or a descent to a link and
the lookup of what is left with one link less. -/
theorem resolve_induction {P : ℕ → Loc → List Name → Prop} {result : Lookup}
    (hresult : result ≠ .failed eloop)
    (hdone : ∀ budget loc names, fs.descend follow loc names = .done result → P budget loc names)
    (hlink : ∀ budget loc names parent target rest,
      fs.descend follow loc names = .link parent target rest →
      P budget (if target.absolute then [] else parent) (target.parts ++ rest) →
      P (budget + 1) loc names)
    (hresolve : fs.resolve follow budget loc names = result) : P budget loc names := by
  induction budget generalizing loc names with
  | zero =>
    rw [resolve] at hresolve
    cases hdescend : fs.descend follow loc names with
    | done end' =>
      simp only [hdescend] at hresolve
      exact hdone _ _ _ (hdescend.trans (congrArg _ hresolve))
    | link parent target rest =>
      simp only [hdescend] at hresolve
      exact absurd hresolve.symm hresult
  | succ budget ih =>
    rw [resolve] at hresolve
    cases hdescend : fs.descend follow loc names with
    | done end' =>
      simp only [hdescend] at hresolve
      exact hdone _ _ _ (hdescend.trans (congrArg _ hresolve))
    | link parent target rest =>
      simp only [hdescend] at hresolve
      exact hlink _ _ _ _ _ _ hdescend (ih hresolve)

/-- Two lookups end alike if their descents do, as far as one descent goes. The
names that are left may differ, as long as a relation between them is kept. -/
theorem resolve_of_descend {R : List Name → List Name → Prop} {follow' : Bool}
    {result result' : Lookup} (hresult : result ≠ .failed eloop)
    (hdone : ∀ loc names names', R names names' → fs.descend follow loc names = .done result →
      fs'.descend follow' loc names' = .done result')
    (hlink : ∀ loc names names' parent target rest, R names names' →
      fs.descend follow loc names = .link parent target rest →
      ∃ rest', fs'.descend follow' loc names' = .link parent target rest' ∧
        R (target.parts ++ rest) (target.parts ++ rest'))
    (hrelated : R names names') (hresolve : fs.resolve follow budget loc names = result) :
    fs'.resolve follow' budget loc names' = result' := by
  refine resolve_induction (P := fun budget loc names => ∀ names', R names names' →
    fs'.resolve follow' budget loc names' = result') hresult ?_ ?_ hresolve names' hrelated
  · intro budget loc names hdescend names' hrelated
    rw [resolve, hdone _ _ _ hrelated hdescend]
  · intro budget loc names parent target rest hdescend ih names' hrelated
    obtain ⟨rest', hdescend', hrest⟩ := hlink _ _ _ _ _ _ hrelated hdescend
    rw [resolve, hdescend']
    exact ih _ hrest

/-! ## Following more names -/

theorem descend_append_of_found (hfound : fs.descend true loc names = .done (.found dest)) :
    fs.descend follow loc (names ++ more) = fs.descend follow dest more := by
  induction names generalizing loc with
  | nil =>
    cases hfound
    rfl
  | cons name names ih =>
    rw [descend] at hfound
    rw [List.cons_append, descend]
    cases hhop : fs.hop loc name with
    | arrive next =>
      simp only [hhop] at hfound ⊢
      exact ih hfound
    | link target => simp [hhop] at hfound
    | missing =>
      simp only [hhop] at hfound
      split at hfound <;> cases hfound
    | failed errno => simp [hhop] at hfound

theorem descend_append_of_link (hlink : fs.descend true loc names = .link parent target rest)
    (hmore : more ≠ []) :
    fs.descend follow loc (names ++ more) = .link parent target (rest ++ more) := by
  induction names generalizing loc with
  | nil => cases hlink
  | cons name names ih =>
    rw [descend] at hlink
    rw [List.cons_append, descend]
    cases hhop : fs.hop loc name with
    | arrive next =>
      simp only [hhop] at hlink ⊢
      exact ih hlink
    | link target =>
      simp only [hhop, true_or, if_true] at hlink ⊢
      cases hlink
      -- the link is followed whatever the call, since more names come after it
      rw [if_pos (Or.inr fun h => hmore (List.append_eq_nil_iff.mp h).2)]
    | missing => simp [hhop] at hlink
    | failed errno => simp [hhop] at hlink

/-- A lookup goes on from where it has ended, with the links that are left. -/
theorem resolve_append (hfound : fs.resolve true budget loc names = .found dest) :
    ∃ left ≤ budget, ∀ follow more, more ≠ [] →
      fs.resolve follow budget loc (names ++ more) = fs.resolve follow left dest more := by
  refine resolve_induction (P := fun budget loc names => ∃ left ≤ budget, ∀ follow more, more ≠ [] →
    fs.resolve follow budget loc (names ++ more) = fs.resolve follow left dest more) (by simp) ?_ ?_
    hfound
  · intro budget loc names hdescend
    refine ⟨budget, Nat.le_refl budget, fun follow more _ => ?_⟩
    rw [resolve, resolve, descend_append_of_found hdescend]
  · rintro budget loc names parent target rest hdescend ⟨left, hle, hgo⟩
    refine ⟨left, Nat.le_succ_of_le hle, fun follow more hmore => ?_⟩
    rw [resolve, descend_append_of_link hdescend hmore, ← hgo follow more hmore, List.append_assoc]

/-! ## Following the last link or not -/

theorem node_of_hop_link (hhop : fs.hop loc name = .link target) :
    fs.node (loc ++ [name]) = some (.link target) := by
  rw [hop] at hhop
  split at hhop
  · split at hhop
    · cases hhop
    · split at hhop
      · cases hhop
      · split at hhop
        · cases hhop
        · split at hhop
          · cases hhop
          · next hnode =>
            cases hhop
            exact hnode
          · cases hhop
  · cases hhop

theorem descend_follow :
    (∀ dest, fs.descend false loc names = .done (.found dest) →
        (∀ target, fs.node dest ≠ some (.link target)) →
        fs.descend true loc names = .done (.found dest)) ∧
      ∀ parent target rest, fs.descend false loc names = .link parent target rest →
        fs.descend true loc names = .link parent target rest := by
  induction names generalizing loc with
  | nil => exact ⟨fun _ h _ => h, fun _ _ _ h => h⟩
  | cons name names ih =>
    rw [descend, descend]
    cases hhop : fs.hop loc name with
    | arrive next => exact ih
    | link target =>
      have hnode := node_of_hop_link hhop
      -- only at the last name does the call matter
      by_cases hlast : names = []
      · refine ⟨fun dest h hlink => ?_, fun _ _ _ h => ?_⟩
        · simp only [hlast, Bool.false_eq_true, ne_eq, not_true, or_self, if_false] at h
          cases h
          exact absurd hnode (hlink target)
        · simp only [hlast, Bool.false_eq_true, ne_eq, not_true, or_self, if_false] at h
          cases h
      · simp only [ne_eq, hlast, not_false_iff, or_true, if_true]
        exact ⟨fun _ h _ => h, fun _ _ _ h => h⟩
    | missing =>
      refine ⟨fun _ h _ => ?_, fun _ _ _ h => (by cases h)⟩
      simp only at h
      split at h <;> cases h
    | failed errno => exact ⟨fun _ h _ => (by cases h), fun _ _ _ h => (by cases h)⟩

theorem resolve_follow (hfound : fs.resolve false budget loc names = .found dest)
    (hlink : ∀ target, fs.node dest ≠ some (.link target)) :
    fs.resolve true budget loc names = .found dest := by
  refine resolve_of_descend (R := Eq) (by simp) ?_ ?_ rfl hfound
  · rintro loc names _ rfl hdescend
    exact descend_follow.1 _ hdescend hlink
  · rintro loc names _ parent target rest rfl hdescend
    exact ⟨rest, descend_follow.2 _ _ _ hdescend, rfl⟩

/-- Following a link at the end makes no difference where there is none. -/
theorem lookup_follow (hfound : fs.lookup cwd false p = .found dest)
    (hlink : ∀ target, fs.node dest ≠ some (.link target)) :
    fs.lookup cwd true p = .found dest := by
  rw [lookup] at hfound ⊢
  split at hfound
  · cases hfound
  · next hempty =>
    rw [if_neg hempty]
    exact resolve_follow hfound hlink

theorem descend_follow_or_link (fs : FileSystem) (loc : Loc) (names : List Name) :
    fs.descend true loc names = fs.descend false loc names ∨
      ∃ dest target, fs.descend false loc names = .done (.found dest) ∧
        fs.node dest = some (.link target) := by
  induction names generalizing loc with
  | nil => exact Or.inl rfl
  | cons name names ih =>
    rw [descend, descend]
    cases hhop : fs.hop loc name with
    | arrive next => exact ih next
    | link target =>
      by_cases hlast : names = []
      · subst hlast
        exact Or.inr ⟨loc ++ [name], target, if_neg (by simp), node_of_hop_link hhop⟩
      · left
        simp only [if_true, ne_eq, hlast, not_false_iff, or_true]
    | missing => exact Or.inl rfl
    | failed errno => exact Or.inl rfl

theorem resolve_follow_or_link (fs : FileSystem) (budget : ℕ) (loc : Loc) (names : List Name) :
    fs.resolve true budget loc names = fs.resolve false budget loc names ∨
      ∃ dest target, fs.resolve false budget loc names = .found dest ∧
        fs.node dest = some (.link target) := by
  induction budget generalizing loc names with
  | zero =>
    rw [resolve, resolve]
    rcases descend_follow_or_link fs loc names with hsame | ⟨dest, target, hdescend, hnode⟩
    · rw [hsame]
      cases fs.descend false loc names with
      | done result => exact Or.inl rfl
      | link parent target rest => exact Or.inl rfl
    · right
      exact ⟨dest, target, by rw [hdescend], hnode⟩
  | succ budget ih =>
    rw [resolve, resolve]
    rcases descend_follow_or_link fs loc names with hsame | ⟨dest, target, hdescend, hnode⟩
    · rw [hsame]
      cases fs.descend false loc names with
      | done result => exact Or.inl rfl
      | link parent target rest => exact ih _ _
    · right
      exact ⟨dest, target, by rw [hdescend], hnode⟩

/-- Whether a link at the end is followed matters only if there is one. -/
theorem lookup_follow_or_link (fs : FileSystem) (cwd : Loc) (p : PosixPath) :
    fs.lookup cwd true p = fs.lookup cwd false p ∨
      ∃ dest target, fs.lookup cwd false p = .found dest ∧
        fs.node dest = some (.link target) := by
  rw [lookup, lookup]
  by_cases hempty : p.IsEmpty
  · rw [if_pos hempty, if_pos hempty]
    exact Or.inl rfl
  · rw [if_neg hempty, if_neg hempty]
    exact resolve_follow_or_link fs _ _ _

/-! ## Error numbers -/

theorem hop_failed_ne_zero {errno : Errno} (hhop : fs.hop loc name = .failed errno) :
    errno ≠ 0 := by
  rw [hop] at hhop
  split at hhop
  · split at hhop
    · cases hhop
    · split at hhop
      · cases hhop
        decide
      · split at hhop
        · cases hhop
        · split at hhop <;> cases hhop
  · cases hhop
    decide

theorem descend_failed_ne_zero {errno : Errno}
    (hdescend : fs.descend follow loc names = .done (.failed errno)) : errno ≠ 0 := by
  induction names generalizing loc with
  | nil => cases hdescend
  | cons name names ih =>
    rw [descend] at hdescend
    cases hhop : fs.hop loc name with
    | arrive next =>
      rw [hhop] at hdescend
      exact ih hdescend
    | link target =>
      simp only [hhop] at hdescend
      split at hdescend <;> cases hdescend
    | missing =>
      simp only [hhop] at hdescend
      split at hdescend
      · cases hdescend
      · cases hdescend
        decide
    | failed errno' =>
      rw [hhop] at hdescend
      cases hdescend
      exact hop_failed_ne_zero hhop

theorem resolve_failed_ne_zero {errno : Errno}
    (hresolve : fs.resolve follow budget loc names = .failed errno) : errno ≠ 0 := by
  induction budget generalizing loc names with
  | zero =>
    rw [resolve] at hresolve
    cases hdescend : fs.descend follow loc names with
    | done result =>
      simp only [hdescend] at hresolve
      exact descend_failed_ne_zero (hdescend.trans (congrArg _ hresolve))
    | link parent target rest =>
      simp only [hdescend] at hresolve
      cases hresolve
      decide
  | succ budget ih =>
    rw [resolve] at hresolve
    cases hdescend : fs.descend follow loc names with
    | done result =>
      simp only [hdescend] at hresolve
      exact descend_failed_ne_zero (hdescend.trans (congrArg _ hresolve))
    | link parent target rest =>
      simp only [hdescend] at hresolve
      exact ih hresolve

theorem lookup_failed_ne_zero {errno : Errno} (hlookup : fs.lookup cwd follow p = .failed errno) :
    errno ≠ 0 := by
  rw [lookup] at hlookup
  split at hlookup
  · cases hlookup
    decide
  · exact resolve_failed_ne_zero hlookup

/-! ## Leaving out parts -/

theorem Skips.refl : ∀ names, Skips names names
  | [] => .nil
  | name :: names => .keep name (refl names)

theorem Skips.append_left (hskips : Skips rest more) :
    ∀ names, Skips (names ++ rest) (names ++ more)
  | [] => hskips
  | name :: names => .keep name (append_left hskips names)

theorem Skips.filter :
    ∀ names : List Name, Skips names (names.filter fun name => ¬ (name = "" ∨ name = "."))
  | [] => .nil
  | name :: names => by
    by_cases hstay : name = "" ∨ name = "."
    · rw [List.filter_cons_of_neg (by rwa [decide_eq_true_eq, not_not])]
      exact .skip hstay (filter names)
    · rw [List.filter_cons_of_pos (by rwa [decide_eq_true_eq])]
      exact .keep name (filter names)

theorem hop_stay_cases (fs : FileSystem) (loc : Loc) (hstay : name = "" ∨ name = ".") :
    fs.hop loc name = .arrive loc ∨ fs.hop loc name = .failed enotdir := by
  rw [hop]
  split
  · exact Or.inl (if_pos hstay)
  · exact Or.inr rfl

theorem Skips.descend (hskips : Skips names names') :
    (∀ dest, fs.descend true loc names = .done (.found dest) →
        fs.descend true loc names' = .done (.found dest)) ∧
      ∀ parent target rest, fs.descend true loc names = .link parent target rest →
        ∃ rest', Skips rest rest' ∧ fs.descend true loc names' = .link parent target rest' := by
  induction hskips generalizing loc with
  | nil => exact ⟨fun _ h => h, fun _ _ _ h => (by cases h)⟩
  | keep name hskips ih =>
    rw [FileSystem.descend, FileSystem.descend]
    cases hhop : fs.hop loc name with
    | arrive next => exact ih
    | link target =>
      simp only [true_or, if_true]
      refine ⟨fun _ h => (by cases h), fun _ _ _ h => ?_⟩
      cases h
      exact ⟨_, hskips, rfl⟩
    | missing =>
      refine ⟨fun _ h => ?_, fun _ _ _ h => (by cases h)⟩
      simp only at h
      split at h <;> cases h
    | failed errno => exact ⟨fun _ h => (by cases h), fun _ _ _ h => (by cases h)⟩
  | skip hstay hskips ih =>
    rw [FileSystem.descend]
    -- the part that is left out stays at the directory, or the whole lookup fails at a file
    rcases hop_stay_cases fs loc hstay with hhop | hhop
    · rw [hhop]
      exact ih
    · rw [hhop]
      exact ⟨fun _ h => (by cases h), fun _ _ _ h => (by cases h)⟩

/-- A lookup that ends at a node does so too without parts that lead nowhere. -/
theorem Skips.resolve (hskips : Skips names names')
    (hfound : fs.resolve true budget loc names = .found dest) :
    fs.resolve true budget loc names' = .found dest := by
  refine resolve_of_descend (by simp) ?_ ?_ hskips hfound
  · exact fun _ _ _ hskips hdescend => hskips.descend.1 _ hdescend
  · rintro loc names names' parent target rest hskips hdescend
    obtain ⟨rest', hrest, hdescend'⟩ := hskips.descend.2 _ _ _ hdescend
    exact ⟨rest', hdescend', hrest.append_left target.parts⟩

/-! ## The same nodes and more -/

/-- Every node is still there, a directory perhaps with other entries. -/
def Persists (fs fs' : FileSystem) : Prop :=
  ∀ loc node, fs.node loc = some node →
    ∃ node', fs'.node loc = some node' ∧ node'.bare = node.bare

instance : Std.Refl Persists := ⟨fun _ _ node hnode => ⟨node, hnode, rfl⟩⟩

instance : IsTrans FileSystem Persists := ⟨fun _ _ _ hfirst hsecond loc node hnode => by
  obtain ⟨node', hnode', hbare⟩ := hfirst loc node hnode
  obtain ⟨node'', hnode'', hbare'⟩ := hsecond loc node' hnode'
  exact ⟨node'', hnode'', hbare'.trans hbare⟩⟩

theorem Persists.node_of_not_dir (hpersists : fs.Persists fs') (hnode : fs.node loc = some node)
    (hdir : node.isDir = false) : fs'.node loc = some node := by
  obtain ⟨node', hnode', hbare⟩ := hpersists loc node hnode
  rw [hnode', Node.eq_of_bare_eq hdir hbare]

theorem Persists.dir (hpersists : fs.Persists fs') (hdir : fs.node loc = some (.dir order access)) :
    ∃ order', fs'.node loc = some (.dir order' access) := by
  obtain ⟨node', hnode', hbare⟩ := hpersists loc _ hdir
  obtain ⟨order', rfl⟩ := Node.exists_of_bare_eq_dir hbare
  exact ⟨order', hnode'⟩

theorem Persists.hop (hpersists : fs.Persists fs') :
    (∀ next, fs.hop loc name = .arrive next → fs'.hop loc name = .arrive next) ∧
      ∀ target, fs.hop loc name = .link target → fs'.hop loc name = .link target := by
  rw [FileSystem.hop]
  cases hnode : fs.node loc with
  | none => exact ⟨fun _ h => (by cases h), fun _ h => by cases h⟩
  | some node =>
    cases node with
    | dir order access =>
      obtain ⟨order', hdir⟩ := hpersists.dir hnode
      rw [FileSystem.hop, hdir]
      simp only
      split
      · exact ⟨fun _ h => h, fun _ h => h⟩
      · split
        · exact ⟨fun _ h => h, fun _ h => h⟩
        · split
          · exact ⟨fun _ h => h, fun _ h => h⟩
          · cases hchild : fs.node (loc ++ [name]) with
            | none => exact ⟨fun _ h => (by cases h), fun _ h => by cases h⟩
            | some child =>
              cases child with
              | dir order access =>
                obtain ⟨order', hdir'⟩ := hpersists.dir hchild
                rw [hdir']
                exact ⟨fun _ h => h, fun _ h => h⟩
              | file content =>
                rw [hpersists.node_of_not_dir hchild rfl]
                exact ⟨fun _ h => h, fun _ h => h⟩
              | link target =>
                rw [hpersists.node_of_not_dir hchild rfl]
                exact ⟨fun _ h => h, fun _ h => h⟩
              | special kind =>
                rw [hpersists.node_of_not_dir hchild rfl]
                exact ⟨fun _ h => h, fun _ h => h⟩
    | file content => exact ⟨fun _ h => (by cases h), fun _ h => by cases h⟩
    | link target => exact ⟨fun _ h => (by cases h), fun _ h => by cases h⟩
    | special kind => exact ⟨fun _ h => (by cases h), fun _ h => by cases h⟩

theorem Persists.descend (hpersists : fs.Persists fs') :
    (∀ dest, fs.descend follow loc names = .done (.found dest) →
        fs'.descend follow loc names = .done (.found dest)) ∧
      ∀ parent target rest, fs.descend follow loc names = .link parent target rest →
        fs'.descend follow loc names = .link parent target rest := by
  induction names generalizing loc with
  | nil => exact ⟨fun _ h => h, fun _ _ _ h => h⟩
  | cons name names ih =>
    rw [FileSystem.descend, FileSystem.descend]
    cases hhop : fs.hop loc name with
    | arrive next =>
      rw [hpersists.hop.1 next hhop]
      exact ih
    | link target =>
      rw [hpersists.hop.2 target hhop]
      exact ⟨fun _ h => h, fun _ _ _ h => h⟩
    | missing =>
      refine ⟨fun _ h => ?_, fun _ _ _ h => (by cases h)⟩
      simp only at h
      split at h <;> cases h
    | failed errno => exact ⟨fun _ h => (by cases h), fun _ _ _ h => (by cases h)⟩

theorem Persists.resolve (hpersists : fs.Persists fs')
    (hfound : fs.resolve follow budget loc names = .found dest) :
    fs'.resolve follow budget loc names = .found dest := by
  refine resolve_of_descend (R := Eq) (by simp) ?_ ?_ rfl hfound
  · rintro loc names _ rfl hdescend
    exact hpersists.descend.1 _ hdescend
  · rintro loc names _ parent target rest rfl hdescend
    exact ⟨rest, hpersists.descend.2 _ _ _ hdescend, rfl⟩

/-- What a path leads to is the same node in every file system that still has the nodes. -/
theorem Persists.lookup (hpersists : fs.Persists fs')
    (hfound : fs.lookup cwd follow p = .found dest) :
    fs'.lookup cwd follow p = .found dest := by
  rw [FileSystem.lookup] at hfound ⊢
  split
  · next hempty =>
    rw [if_pos hempty] at hfound
    cases hfound
  · next hempty =>
    rw [if_neg hempty] at hfound
    exact hpersists.resolve hfound

/-! ## The entries of a directory -/

theorem hop_dir (hdir : fs.node loc = some (.dir order access)) :
    fs.hop loc name =
      if name = "" ∨ name = "." then .arrive loc
      else if access.searchable = false then .failed eacces
      else if name = ".." then .arrive loc.dropLast
      else
        match fs.node (loc ++ [name]) with
        | none => .missing
        | some (.link target) => .link target
        | some _ => .arrive (loc ++ [name]) := by
  rw [hop]
  split
  · next order' access' hdir' =>
    cases hdir.symm.trans hdir'
    rfl
  · next hnot => exact absurd hdir (hnot order access)

theorem hop_proper (hproper : Proper name) (hdir : fs.node loc = some (.dir order access)) :
    fs.hop loc name =
      if access.searchable = false then .failed eacces
      else
        match fs.node (loc ++ [name]) with
        | none => .missing
        | some (.link target) => .link target
        | some _ => .arrive (loc ++ [name]) := by
  obtain ⟨hempty, hdot⟩ := hproper
  rw [IsDot, not_or] at hdot
  rw [hop_dir hdir, if_neg (by rintro (h | h); exacts [hempty h, hdot.1 h]), if_neg hdot.2]

/-- A path with a name behind it leads to where the name leads from the path's end. -/
theorem lookup_append (hfound : fs.resolve true maxSymlinks (if p.absolute then [] else cwd) names =
      .found dest) (hparts : p.parts = names ++ [name]) (hname : name ≠ "") :
    ∃ left, ∀ follow, fs.lookup cwd follow p = fs.resolve follow left dest [name] := by
  obtain ⟨left, -, hgo⟩ := resolve_append hfound
  have hnonempty : ¬ p.IsEmpty := by
    rintro ⟨-, hempty | hempty⟩
    · simp [hempty] at hparts
    · have hlast := congrArg List.getLast? (hempty.symm.trans hparts)
      rw [List.getLast?_concat] at hlast
      exact hname (Option.some.inj hlast).symm
  refine ⟨left, fun follow => ?_⟩
  rw [lookup, if_neg hnonempty, hparts, hgo follow [name] (List.cons_ne_nil _ _)]

theorem skips_base (p : PosixPath) : Skips p.parts p.base := by
  rw [PosixPath.base]
  split
  · next hlast =>
    have hparts : p.parts.dropLast ++ [""] = p.parts := List.dropLast_append_getLast? "" hlast
    have hskips := Skips.append_left (.skip (Or.inl rfl) .nil) p.parts.dropLast
    rwa [hparts, List.append_nil] at hskips
  · exact Skips.refl _

theorem base_prefix (p : PosixPath) : p.base <+: p.parts := by
  rw [PosixPath.base]
  split
  · exact List.dropLast_prefix _
  · exact List.prefix_rfl

theorem join_base (p : PosixPath) (hname : name ≠ "") : (p.join name).base = p.base ++ [name] := by
  have hlast : (p.join name).parts.getLast? = some name := List.getLast?_concat
  rw [PosixPath.base, hlast, if_neg fun h => hname (Option.some.inj h)]
  rfl

theorem resolve_parts (hfound : fs.lookup cwd true p = .found dest) :
    fs.resolve true maxSymlinks (if p.absolute then [] else cwd) p.parts = .found dest := by
  rw [lookup] at hfound
  split at hfound
  · cases hfound
  · exact hfound

theorem resolve_base (hfound : fs.lookup cwd true p = .found dest) :
    fs.resolve true maxSymlinks (if p.absolute then [] else cwd) p.base = .found dest :=
  (skips_base p).resolve (resolve_parts hfound)

theorem lookup_join (hfound : fs.lookup cwd true p = .found dest) (hname : name ≠ "") :
    ∃ left, ∀ follow, fs.lookup cwd follow (p.join name) = fs.resolve follow left dest [name] := by
  have hbase := resolve_base hfound
  exact lookup_append (p := p.join name) hbase rfl hname

theorem lookup_slash (hfound : fs.lookup cwd true p = .found dest) (hname : name ≠ "") :
    ∃ left, ∀ follow, fs.lookup cwd follow (p.slash name) = fs.resolve follow left dest [name] := by
  have hparts := resolve_parts hfound
  exact lookup_append (p := p.slash name) hparts rfl hname

/-- Where the name of an entry leads. -/
theorem resolve_proper (hproper : Proper name) (hdir : fs.node loc = some (.dir order access)) :
    fs.resolve follow budget loc [name] =
      if access.searchable = false then .failed eacces
      else
        match fs.node (loc ++ [name]) with
        | none => .absent loc name
        | some (.link target) =>
            if follow = false then .found (loc ++ [name])
            else
              match budget with
              | 0 => .failed eloop
              | budget + 1 =>
                  fs.resolve follow budget (if target.absolute then [] else loc) target.parts
        | some _ => .found (loc ++ [name]) := by
  rw [resolve, descend, hop_proper hproper hdir]
  by_cases hsearch : access.searchable = false
  · simp only [if_pos hsearch]
  · simp only [if_neg hsearch]
    cases hchild : fs.node (loc ++ [name]) with
    | none => rfl
    | some child =>
      cases child with
      | link target =>
        cases follow
        · rfl
        · simp only [true_or, if_true, List.append_nil]
          cases budget <;> rfl
      | dir order access => rfl
      | file content => rfl
      | special kind => rfl

theorem resolve_entry (hproper : Proper name) (hdir : fs.node loc = some (.dir order access))
    (hnode : fs.node (loc ++ [name]) = some node)
    (hfollow : follow = true → ∀ target, node ≠ .link target) :
    fs.resolve follow budget loc [name] =
      if access.searchable = false then .failed eacces else .found (loc ++ [name]) := by
  rw [resolve_proper hproper hdir, hnode]
  cases node with
  | link target =>
    cases follow with
    | false => rfl
    | true => exact absurd rfl (hfollow rfl target)
  | dir order access => rfl
  | file content => rfl
  | special kind => rfl

/-- The path of an entry leads to the entry, if the directory can be searched. -/
theorem lookup_join_entry (hfound : fs.lookup cwd true p = .found loc)
    (hdir : fs.node loc = some (.dir order access)) (hproper : Proper name)
    (hnode : fs.node (loc ++ [name]) = some node)
    (hfollow : follow = true → ∀ target, node ≠ .link target) :
    fs.lookup cwd follow (p.join name) =
      if access.searchable = false then .failed eacces else .found (loc ++ [name]) := by
  obtain ⟨left, hlookup⟩ := lookup_join hfound hproper.1
  rw [hlookup, resolve_entry hproper hdir hnode hfollow]

/-! ## Names that lead nowhere -/

theorem descend_stay (hdir : fs.node loc = some (.dir order access))
    (hstay : ∀ name ∈ names, name = "" ∨ name = ".") :
    fs.descend follow loc names = .done (.found loc) := by
  induction names with
  | nil => rfl
  | cons name names ih =>
    obtain ⟨hname, hnames⟩ := List.forall_mem_cons.mp hstay
    rw [descend, hop_dir hdir, if_pos hname]
    exact ih hnames

theorem resolve_stay (hdir : fs.node loc = some (.dir order access))
    (hstay : ∀ name ∈ names, name = "" ∨ name = ".") :
    fs.resolve follow budget loc names = .found loc := by
  rw [resolve, descend_stay hdir hstay]

theorem resolve_cons_stay (hdir : fs.node loc = some (.dir order access))
    (hname : name = "" ∨ name = ".") :
    fs.resolve follow budget loc (name :: names) = fs.resolve follow budget loc names := by
  have hdescend : fs.descend follow loc (name :: names) = fs.descend follow loc names := by
    rw [descend, hop_dir hdir, if_pos hname]
  rw [resolve, resolve, hdescend]

/-- A lookup that goes beyond its start has started at a directory. -/
theorem dir_of_resolve_cons (hfound : fs.resolve follow budget loc (name :: names) = .found dest) :
    ∃ order access, fs.node loc = some (.dir order access) := by
  rw [resolve, descend, hop] at hfound
  cases hnode : fs.node loc with
  | none => simp [hnode] at hfound
  | some node =>
    cases node with
    | dir order access => exact ⟨order, access, rfl⟩
    | file content => simp [hnode] at hfound
    | link target => simp [hnode] at hfound
    | special kind => simp [hnode] at hfound

theorem strip_of_proper {last : Name} (hlast : p.parts.getLast? = some last) (hne : last ≠ "") :
    p.strip = p := by
  have hreverse : p.parts.reverse.head? = some last := by rw [List.head?_reverse, hlast]
  rw [PosixPath.strip]
  cases hparts : p.parts.reverse with
  | nil =>
    rw [hparts] at hreverse
    cases hreverse
  | cons part parts =>
    rw [hparts] at hreverse
    cases hreverse
    rw [List.dropWhile_cons_of_neg (by simpa using hne), ← hparts, List.reverse_reverse]

theorem exists_parts_eq_strip (p : PosixPath) :
    ∃ more, p.parts = p.strip.parts ++ more ∧ ∀ name ∈ more, name = "" := by
  refine ⟨(p.parts.reverse.takeWhile fun part => part = "").reverse, ?_, fun name hname => ?_⟩
  · rw [PosixPath.strip, ← List.reverse_append, List.takeWhile_append_dropWhile,
      List.reverse_reverse]
  · simpa using (List.all_eq_true.mp (List.all_takeWhile ..)) name (List.mem_reverse.mp hname)

/-! ## Lookups that follow all links -/

/-- The node at a location is not a link. -/
def NotLink (fs : FileSystem) (loc : Loc) : Prop := ∀ target, fs.node loc ≠ some (.link target)

theorem notLink_of_dir (hdir : fs.node loc = some (.dir order access)) : fs.NotLink loc := by
  intro target hlink
  cases hdir.symm.trans hlink

theorem WellFormed.notLink_root (hfs : fs.WellFormed) : fs.NotLink [] := by
  obtain ⟨order, access, hroot⟩ := hfs.root
  exact notLink_of_dir hroot

theorem WellFormed.notLink_dropLast (hfs : fs.WellFormed)
    (hdir : fs.node loc = some (.dir order access)) : fs.NotLink loc.dropLast := by
  rcases List.eq_nil_or_concat' loc with rfl | ⟨up, name, rfl⟩
  · exact hfs.notLink_root
  · obtain ⟨-, order, access, hup, -⟩ := (hfs.listed up name).mp (hdir ▸ rfl)
    rw [List.dropLast_concat]
    exact notLink_of_dir hup

theorem WellFormed.notLink_of_hop (hfs : fs.WellFormed) (hhop : fs.hop loc name = .arrive dest) :
    fs.NotLink dest := by
  rw [hop] at hhop
  split at hhop
  · next order access hdir =>
    split at hhop
    · cases hhop
      exact notLink_of_dir hdir
    · split at hhop
      · cases hhop
      · split at hhop
        · cases hhop
          exact hfs.notLink_dropLast hdir
        · split at hhop
          · cases hhop
          · cases hhop
          · next hlink hnode =>
            -- a hop arrives at a child only if the child is not a link
            cases hhop
            intro target htarget
            cases hnode.symm.trans htarget
            exact hlink target rfl
  · cases hhop

theorem WellFormed.notLink_of_descend (hfs : fs.WellFormed) (hstart : fs.NotLink loc) :
    (∀ dest, fs.descend true loc names = .done (.found dest) → fs.NotLink dest) ∧
      ∀ parent target rest, fs.descend true loc names = .link parent target rest →
        fs.NotLink parent := by
  induction names generalizing loc with
  | nil =>
    refine ⟨fun _ h => ?_, fun _ _ _ h => (by cases h)⟩
    cases h
    exact hstart
  | cons name names ih =>
    rw [descend]
    cases hhop : fs.hop loc name with
    | arrive next => exact ih (hfs.notLink_of_hop hhop)
    | link target =>
      refine ⟨fun _ h => (by simp at h), fun _ _ _ h => ?_⟩
      simp only [true_or, if_true] at h
      cases h
      exact hstart
    | missing =>
      refine ⟨fun _ h => ?_, fun _ _ _ h => (by cases h)⟩
      simp only at h
      split at h <;> cases h
    | failed errno => exact ⟨fun _ h => (by cases h), fun _ _ _ h => (by cases h)⟩

theorem WellFormed.notLink_of_resolve (hfs : fs.WellFormed) (hstart : fs.NotLink loc)
    (hfound : fs.resolve true budget loc names = .found dest) : fs.NotLink dest := by
  refine resolve_induction (P := fun _ loc _ => fs.NotLink loc →
      fs.NotLink dest) (by simp) ?_ ?_ hfound
    hstart
  · intro budget loc names hdescend hstart
    exact (hfs.notLink_of_descend hstart).1 _ hdescend
  · intro budget loc names parent target rest hdescend ih hstart
    apply ih
    split
    · exact hfs.notLink_root
    · exact (hfs.notLink_of_descend hstart).2 _ _ _ hdescend

/-- A lookup that follows all links does not end at one. -/
theorem WellFormed.notLink_of_lookup (hfs : fs.WellFormed)
    (hfound : fs.lookup cwd true p = .found dest) : fs.NotLink dest := by
  have hresolve := resolve_parts hfound
  refine hfs.notLink_of_resolve ?_ hresolve
  by_cases habsolute : p.absolute = true
  · rw [if_pos habsolute]
    exact hfs.notLink_root
  · -- the working directory is one, since the path has a part
    cases hparts : p.parts with
    | nil =>
      have hempty : p.IsEmpty := ⟨Bool.eq_false_iff.mpr habsolute, Or.inl hparts⟩
      rw [lookup, if_pos hempty] at hfound
      cases hfound
    | cons part parts =>
      rw [hparts] at hresolve
      obtain ⟨order, access, hdir⟩ := dir_of_resolve_cons hresolve
      exact notLink_of_dir hdir

/-- A path that only stays where it is leads to a directory. -/
theorem WellFormed.dir_of_lookup_stay (hfs : fs.WellFormed)
    (hfound : fs.lookup cwd true p = .found dest)
    (hstay : ∀ part ∈ p.parts, part = "" ∨ part = ".") :
    ∃ order access, fs.node dest = some (.dir order access) := by
  have hresolve := resolve_parts hfound
  have hstart : ∃ order access,
      fs.node (if p.absolute then [] else cwd) = some (.dir order access) := by
    cases hparts : p.parts with
    | nil =>
      by_cases habsolute : p.absolute = true
      · rw [if_pos habsolute]
        exact hfs.root
      · have hempty : p.IsEmpty := ⟨Bool.eq_false_iff.mpr habsolute, Or.inl hparts⟩
        rw [lookup, if_pos hempty] at hfound
        cases hfound
    | cons part parts =>
      rw [hparts] at hresolve
      exact dir_of_resolve_cons hresolve
  obtain ⟨order, access, hdir⟩ := hstart
  rw [resolve_stay hdir hstay] at hresolve
  cases hresolve
  exact ⟨order, access, hdir⟩

/-- The nodes above a directory are directories. -/
theorem dir_of_append (hfs : fs.WellFormed)
    (hdir : fs.node (loc ++ rest) = some (.dir order access)) :
    ∃ order access, fs.node loc = some (.dir order access) := by
  induction rest using List.reverseRecOn generalizing order access with
  | nil => exact ⟨order, access, by rwa [List.append_nil] at hdir⟩
  | append_singleton rest name ih =>
    rw [← List.append_assoc] at hdir
    obtain ⟨-, upOrder, upAccess, hup, -⟩ := (hfs.listed _ name).mp (by rw [hdir]; rfl)
    exact ih hup

/-! ## Names before the last -/

theorem descend_append_cases (fs : FileSystem) (follow : Bool) (loc : Loc) (names : List Name)
    (name : Name) :
    (∃ errno, fs.descend follow loc (names ++ [name]) = .done (.failed errno)) ∨
    (∃ dest order access, fs.descend true loc names = .done (.found dest) ∧
      fs.node dest = some (.dir order access)) ∨
    ∃ parent target rest, fs.descend true loc names = .link parent target rest := by
  induction names generalizing loc with
  | nil =>
    cases hhop : fs.hop loc name with
    | failed errno => exact .inl ⟨errno, by rw [List.nil_append, descend, hhop]⟩
    | arrive _ | link _ | missing =>
      -- a name is looked up in a directory only
      refine .inr (.inl ?_)
      rw [hop] at hhop
      split at hhop
      · next order access hdir => exact ⟨loc, order, access, rfl, hdir⟩
      · cases hhop
  | cons first names ih =>
    have hne : names ++ [name] ≠ [] := List.concat_ne_nil _ _
    cases hhop : fs.hop loc first with
    | arrive next =>
      have hstep : ∀ follow names, fs.descend follow loc (first :: names) =
          fs.descend follow next names := fun follow names => by rw [descend, hhop]
      rw [List.cons_append, hstep, hstep]
      exact ih next
    | link target =>
      exact .inr (.inr ⟨loc, target, names, by simp only [descend, hhop, true_or, if_true]⟩)
    | missing => exact .inl ⟨enoent, by simp only [List.cons_append, descend, hhop, if_neg hne]⟩
    | failed errno => exact .inl ⟨errno, by rw [List.cons_append, descend, hhop]⟩

/-- A lookup that does not fail has come through a directory to its last name. -/
theorem dir_of_resolve_append
    (hnot : ∀ errno, fs.resolve follow budget loc (names ++ [name]) ≠ .failed errno) :
    ∃ dest order access, fs.resolve true budget loc names = .found dest ∧
      fs.node dest = some (.dir order access) := by
  induction budget generalizing loc names with
  | zero =>
    rcases fs.descend_append_cases follow loc names name with
      ⟨errno, hfailed⟩ | ⟨dest, order, access, hfound, hdir⟩ | ⟨parent, target, rest, hlink⟩
    · exact absurd (by rw [resolve, hfailed]) (hnot errno)
    · exact ⟨dest, order, access, by rw [resolve, hfound], hdir⟩
    · refine absurd ?_ (hnot eloop)
      rw [resolve, descend_append_of_link hlink (List.cons_ne_nil _ _)]
  | succ budget ih =>
    rcases fs.descend_append_cases follow loc names name with
      ⟨errno, hfailed⟩ | ⟨dest, order, access, hfound, hdir⟩ | ⟨parent, target, rest, hlink⟩
    · exact absurd (by rw [resolve, hfailed]) (hnot errno)
    · exact ⟨dest, order, access, by rw [resolve, hfound], hdir⟩
    · rw [resolve, hlink]
      refine ih fun errno herrno => hnot errno ?_
      rw [resolve, descend_append_of_link hlink (List.cons_ne_nil _ _)]
      dsimp only
      rwa [← List.append_assoc]

/-- The location of a directory leads to it, if the directories above can be searched. -/
theorem descend_dir (hfs : fs.WellFormed)
    (hdir : fs.node (loc ++ rest) = some (.dir order access)) :
    fs.descend true loc rest = .done (.found (loc ++ rest)) ∨
      ∀ follow more, fs.descend follow loc (rest ++ more) = .done (.failed eacces) := by
  induction rest generalizing loc with
  | nil => exact .inl (by rw [List.append_nil, descend])
  | cons name rest ih =>
    have hsplit : loc ++ name :: rest = loc ++ [name] ++ rest := (List.append_cons _ _ _)
    rw [hsplit] at hdir ⊢
    obtain ⟨childOrder, childAccess, hchild⟩ := dir_of_append hfs hdir
    obtain ⟨hproper, upOrder, upAccess, hup, -⟩ := (hfs.listed loc name).mp (by rw [hchild]; rfl)
    have hhop := hop_proper hproper hup
    rw [hchild] at hhop
    by_cases hsearch : upAccess.searchable = false
    · rw [if_pos hsearch] at hhop
      refine .inr fun follow more => ?_
      rw [List.cons_append, descend, hhop]
    · rw [if_neg hsearch] at hhop
      refine (ih hdir).imp (fun hfound => ?_) fun hfailed follow more => ?_
      · rw [descend, hhop]
        exact hfound
      · rw [List.cons_append, descend, hhop]
        exact hfailed follow more

/-- Error numbers of lookups. -/
theorem descend_failed {errno : Errno}
    (hfailed : fs.descend follow loc names = .done (.failed errno)) :
    errno = enoent ∨ errno = eacces ∨ errno = enotdir := by
  induction names generalizing loc with
  | nil => cases hfailed
  | cons name names ih =>
    rw [descend] at hfailed
    cases hhop : fs.hop loc name with
    | arrive next =>
      simp only [hhop] at hfailed
      exact ih hfailed
    | link target =>
      simp only [hhop] at hfailed
      split at hfailed <;> cases hfailed
    | missing =>
      simp only [hhop] at hfailed
      split at hfailed <;> cases hfailed
      exact .inl rfl
    | failed errno' =>
      simp only [hhop] at hfailed
      cases hfailed
      rw [hop] at hhop
      split at hhop
      · split at hhop
        · cases hhop
        · split at hhop
          · cases hhop
            exact .inr (.inl rfl)
          · split at hhop
            · cases hhop
            · split at hhop <;> cases hhop
      · cases hhop
        exact .inr (.inr rfl)

theorem lookup_failed {errno : Errno} (hfailed : fs.lookup cwd follow p = .failed errno) :
    errno = enoent ∨ errno = eacces ∨ errno = enotdir ∨ errno = eloop := by
  rw [lookup] at hfailed
  split at hfailed
  · cases hfailed
    exact .inl rfl
  · by_cases hloop : errno = eloop
    · exact .inr (.inr (.inr hloop))
    · refine resolve_induction (P := fun _ _ _ => _)
          (fun h => hloop (Lookup.failed.inj h)) ?_ ?_ hfailed
      · intro budget loc names hdescend
        rcases descend_failed hdescend with h | h | h
        · exact .inl h
        · exact .inr (.inl h)
        · exact .inr (.inr (.inl h))
      · exact fun _ _ _ _ _ _ _ h => h

/-! ## Names that are made -/

theorem hop_missing (hhop : fs.hop loc name = .missing) :
    Proper name ∧ fs.node (loc ++ [name]) = none ∧
      ∃ order access, fs.node loc = some (.dir order access) ∧ access.searchable = true := by
  rw [hop] at hhop
  split at hhop
  · next order access hdir =>
    split at hhop
    · cases hhop
    · next hstay =>
      split at hhop
      · cases hhop
      · next hsearch =>
        split at hhop
        · cases hhop
        · next hup =>
          split at hhop
          · next hnone =>
            rw [not_or] at hstay
            exact ⟨⟨hstay.1, fun hdot => hdot.elim hstay.2 hup⟩, hnone, order, access, hdir,
              by simpa using hsearch⟩
          · cases hhop
          · cases hhop
  · cases hhop

theorem hop_of_descend_absent
    (habsent : fs.descend follow loc names = .done (.absent parent name)) :
    fs.hop parent name = .missing := by
  induction names generalizing loc with
  | nil => cases habsent
  | cons first names ih =>
    rw [descend] at habsent
    cases hhop : fs.hop loc first with
    | arrive next =>
      simp only [hhop] at habsent
      exact ih habsent
    | link target =>
      simp only [hhop] at habsent
      split at habsent <;> cases habsent
    | missing =>
      simp only [hhop] at habsent
      split at habsent <;> cases habsent
      exact hhop
    | failed errno => simp [hhop] at habsent

theorem hop_of_resolve_absent (habsent : fs.resolve follow budget loc names = .absent parent name) :
    fs.hop parent name = .missing :=
  resolve_induction (by simp) (fun _ _ _ hdescend => hop_of_descend_absent hdescend)
    (fun _ _ _ _ _ _ _ hmissing => hmissing) habsent

theorem hop_of_lookup_absent (habsent : fs.lookup cwd follow p = .absent parent name) :
    fs.hop parent name = .missing := by
  rw [lookup] at habsent
  split at habsent
  · cases habsent
  · exact hop_of_resolve_absent habsent

/-- What a lookup says about a name that it finds missing. -/
theorem lookup_absent (habsent : fs.lookup cwd follow p = .absent parent name) :
    Proper name ∧ fs.node (parent ++ [name]) = none ∧
      ∃ order access, fs.node parent = some (.dir order access) ∧ access.searchable = true :=
  hop_missing (hop_of_lookup_absent habsent)

theorem persists_insert (hnone : fs.node (parent ++ [name]) = none) :
    fs.Persists (fs.insert parent name node) := by
  intro x original horiginal
  rw [insert_node]
  by_cases hnew : x = parent ++ [name]
  · rw [hnew, hnone] at horiginal
    cases horiginal
  · rw [if_neg hnew]
    split
    · next hparent =>
      subst hparent
      refine ⟨addName name original, by rw [horiginal, Option.map_some], ?_⟩
      cases original <;> rfl
    · exact ⟨original, horiginal, rfl⟩

theorem Persists.descend_made (hpersists : fs.Persists fs')
    (hmade : fs'.hop parent name = .arrive (parent ++ [name])) :
    (fs.descend follow loc names = .done (.absent parent name) →
        fs'.descend true loc names = .done (.found (parent ++ [name]))) ∧
      ∀ parent' target rest, fs.descend follow loc names = .link parent' target rest →
        fs'.descend true loc names = .link parent' target rest := by
  induction names generalizing loc with
  | nil => exact ⟨fun h => (by cases h), fun _ _ _ h => (by cases h)⟩
  | cons first names ih =>
    rw [FileSystem.descend, FileSystem.descend]
    cases hhop : fs.hop loc first with
    | arrive next =>
      rw [hpersists.hop.1 next hhop]
      exact ih
    | link target =>
      rw [hpersists.hop.2 target hhop]
      simp only [true_or, if_true]
      refine ⟨fun h => ?_, fun _ _ _ h => ?_⟩
      · split at h <;> cases h
      · split at h <;> cases h
        rfl
    | missing =>
      refine ⟨fun h => ?_, fun _ _ _ h => (by cases h)⟩
      simp only at h
      split at h
      · next hlast =>
        -- the descent has ended at the missing name, which is there by now
        cases h
        rw [hmade, hlast]
        rfl
      · cases h
    | failed errno => exact ⟨fun h => (by cases h), fun _ _ _ h => (by cases h)⟩

/-- A path to a missing name leads to the node that is made under it. -/
theorem Persists.lookup_made (hpersists : fs.Persists fs')
    (hmade : fs'.hop parent name = .arrive (parent ++ [name]))
    (habsent : fs.lookup cwd follow p = .absent parent name) :
    fs'.lookup cwd true p = .found (parent ++ [name]) := by
  rw [FileSystem.lookup] at habsent ⊢
  split at habsent
  · cases habsent
  · next hempty =>
    rw [if_neg hempty]
    refine resolve_of_descend (R := Eq) (by simp) ?_ ?_ rfl habsent
    · rintro loc names _ rfl hdescend
      exact (hpersists.descend_made hmade).1 hdescend
    · rintro loc names _ parent target rest rfl hdescend
      exact ⟨rest, (hpersists.descend_made hmade).2 _ _ _ hdescend, rfl⟩

/-- The path of a directory that is made leads to it, with slashes behind it or not. -/
theorem lookup_insert_dir (habsent : fs.lookup cwd false p.strip = .absent parent name) :
    (fs.insert parent name (.dir order access)).lookup cwd true p = .found (parent ++ [name]) := by
  obtain ⟨hproper, hnone, order', access', hdir, hsearch⟩ := lookup_absent habsent
  have hpersists : fs.Persists (fs.insert parent name (.dir order access)) := persists_insert hnone
  have hnode : (fs.insert parent name (.dir order access)).node (parent ++ [name]) =
      some (.dir order access) := by rw [insert_node, if_pos rfl]
  have hmade : (fs.insert parent name (.dir order access)).hop parent name =
      .arrive (parent ++ [name]) := by
    obtain ⟨order'', hdir''⟩ := hpersists.dir hdir
    rw [hop_proper hproper hdir'', hnode, if_neg (by simp [hsearch])]
  have hfound := hpersists.lookup_made hmade habsent
  obtain ⟨more, hparts, hmore⟩ := exists_parts_eq_strip p
  have hstripped := resolve_parts hfound
  have hsame : p.strip.absolute = p.absolute := rfl
  rw [hsame] at hstripped
  have hnonempty : ¬ p.IsEmpty := by
    rintro ⟨habsolute, hempty⟩
    have hstrip : p.strip.IsEmpty := ⟨habsolute, Or.inl (by
      rcases hempty with hempty | hempty <;> simp [PosixPath.strip, hempty])⟩
    rw [lookup, if_pos hstrip] at habsent
    cases habsent
  rw [lookup, if_neg hnonempty, hparts]
  -- the slashes behind the name stay at the directory that has been made
  by_cases hnil : more = []
  · rw [hnil, List.append_nil]
    exact hstripped
  · obtain ⟨left, -, hgo⟩ := resolve_append hstripped
    rw [hgo true more hnil]
    exact resolve_stay hnode fun name hname => Or.inl (hmore name hname)

end FileSystem

end RpcProject.Files
