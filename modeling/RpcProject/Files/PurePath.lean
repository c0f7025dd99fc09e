/-
# Path objects

A path object stands for a text. Its normal form leaves out parts that are empty
or ".", and has the slashes at the start as they are where there are exactly two.
Calls on the client's own machine are made with the normal form, those on the
server with the text that the object was made from. Either way the path of a
child leads to where the child's name leads from the end of the path.
-/

import RpcProject.Files.Lookup

namespace RpcProject.Files

namespace PosixPath

/-! ## Normal forms -/

/-- Whether an absolute path with these parts has exactly two slashes at the start. -/
def doubleRoot : List Name → Bool
  | "" :: part :: rest => part ≠ "" ∨ rest = []
  | _ => false

/-- The parts that are kept. -/
def named (p : PosixPath) : List Name := p.parts.filter fun part => ¬ (part = "" ∨ part = ".")

/-- The normal form with the root of a path and the parts given. -/
def withNamed (p : PosixPath) (parts : List Name) : PosixPath :=
  if p.absolute = true then
    if doubleRoot p.parts = true then ⟨true, "" :: if parts = [] then [""] else parts⟩
    else ⟨true, parts⟩
  else ⟨false, if parts = [] then ["."] else parts⟩

/-- `str(path)` -/
def normalise (p : PosixPath) : PosixPath := p.withNamed p.named

/-- `path.name` -/
def name (p : PosixPath) : Name := p.named.getLastD ""

/-- `path.parent` -/
def parent (p : PosixPath) : PosixPath := p.withNamed p.named.dropLast

/-- `posixpath.join` with a path. -/
def joinPath (p target : PosixPath) : PosixPath :=
  if target.absolute = true then target else ⟨p.absolute, p.base ++ target.parts⟩

/-- `path / name` -/
def child (p : PosixPath) (name : Name) : PosixPath := p.normalise.join name

/-- The path of what lies below the end of a path. -/
def descendant (p : PosixPath) (rest : Loc) : PosixPath := rest.foldl child p

/-! ## Parts -/

theorem skips_named (p : PosixPath) : FileSystem.Skips p.parts p.named :=
  FileSystem.Skips.filter p.parts

theorem named_concat {p : PosixPath} {names : List Name} {last : Name}
    (hparts : p.parts = names ++ [last]) (hlast : FileSystem.Proper last) :
    p.named = (names.filter fun part => ¬ (part = "" ∨ part = ".")) ++ [last] := by
  have hkept : ¬ (last = "" ∨ last = ".") :=
    fun h => h.elim hlast.1 fun hdot => hlast.2 (Or.inl hdot)
  rw [named, hparts, List.filter_append, List.filter_cons_of_pos (by simpa using hkept),
    List.filter_nil]

theorem exists_of_doubleRoot {parts : List Name} (hroot : doubleRoot parts = true) :
    ∃ part rest, parts = "" :: part :: rest := by
  rw [doubleRoot.eq_def] at hroot
  split at hroot
  · exact ⟨_, _, rfl⟩
  · cases hroot

/-- A proper name at the end of a path stays at the end of its normal form. -/
theorem exists_parts_normalise {p : PosixPath} {names : List Name} {last : Name}
    (hparts : p.parts = names ++ [last]) (hlast : FileSystem.Proper last) :
    ∃ names', p.normalise.parts = names' ++ [last] ∧ FileSystem.Skips names names' := by
  have hnamed := named_concat hparts hlast
  have hne : p.named ≠ [] := by simp [hnamed]
  by_cases hdouble : p.absolute = true ∧ doubleRoot p.parts = true
  · obtain ⟨habsolute, hroot⟩ := hdouble
    -- the name at the end is not the empty part at the start
    obtain ⟨part, rest, hroot'⟩ := exists_of_doubleRoot hroot
    cases names with
    | nil =>
      cases hparts.symm.trans hroot'
    | cons first names =>
      obtain ⟨rfl, -⟩ := List.cons.inj (hparts.symm.trans hroot')
      refine ⟨"" :: names.filter fun part => ¬ (part = "" ∨ part = "."), ?_,
        .keep "" (FileSystem.Skips.filter names)⟩
      rw [normalise, withNamed, if_pos habsolute, if_pos hroot, if_neg hne, hnamed]
      simp
  · refine ⟨names.filter fun part => ¬ (part = "" ∨ part = "."), ?_, FileSystem.Skips.filter names⟩
    rw [normalise, withNamed]
    by_cases habsolute : p.absolute = true
    · rw [if_pos habsolute, if_neg fun hroot => hdouble ⟨habsolute, hroot⟩, hnamed]
    · rw [if_neg habsolute, if_neg hne, hnamed]

theorem not_mem_named (p : PosixPath) : "" ∉ p.named := fun h => by simp [named] at h

theorem parts_normalise_of_relative {p : PosixPath} (hrelative : p.absolute = false) :
    p.normalise.parts = if p.named = [] then ["."] else p.named := by
  simp [normalise, withNamed, hrelative]

theorem normalise_absolute (p : PosixPath) : p.normalise.absolute = p.absolute := by
  rw [normalise, withNamed]
  split
  · next habsolute => split <;> exact habsolute.symm
  · next habsolute => exact (Bool.eq_false_iff.mpr habsolute).symm

theorem name_child (p : PosixPath) {last : Name} (hlast : FileSystem.Proper last) :
    (p.child last).name = last := by
  rw [name, named_concat rfl hlast, List.getLastD_concat]

/-- A path without a name has only parts that stay where they are. -/
theorem named_eq_nil {p : PosixPath} (hname : p.name = "") : p.named = [] := by
  rcases List.eq_nil_or_concat' p.named with hnil | ⟨names, last, hlast⟩
  · exact hnil
  · rw [name, hlast, List.getLastD_concat] at hname
    exact absurd (hname ▸ hlast ▸ List.mem_append_right names List.mem_cons_self) p.not_mem_named

theorem stay_of_name_eq {p : PosixPath} (hname : p.name = "") :
    ∀ part ∈ p.parts, part = "" ∨ part = "." := by
  intro part hpart
  by_contra hkept
  have hmem : part ∈ p.named := List.mem_filter.mpr ⟨hpart, by simpa using hkept⟩
  rw [named_eq_nil hname] at hmem
  cases hmem

theorem stay_normalise {p : PosixPath} (hname : p.name = "") :
    ∀ part ∈ p.normalise.parts, part = "" ∨ part = "." := by
  rw [normalise, withNamed, named_eq_nil hname]
  intro part hpart
  split at hpart
  · split at hpart
    · exact Or.inl (by simpa using hpart)
    · cases hpart
  · simpa using Or.inr (List.mem_singleton.mp hpart)

/-! ## Parts of children -/

theorem named_base (p : PosixPath) :
    (p.base.filter fun part => ¬ (part = "" ∨ part = ".")) = p.named := by
  rw [named, base]
  split
  · next hlast =>
    have hparts : p.parts = p.parts.dropLast ++ [""] :=
      (List.dropLast_append_getLast? "" hlast).symm
    conv_rhs => rw [hparts, List.filter_append]
    simp
  · rfl

theorem named_normalise (p : PosixPath) : p.normalise.named = p.named := by
  have hkept : p.named.filter (fun part => ¬ (part = "" ∨ part = ".")) = p.named := by
    rw [named, List.filter_filter]
    simp
  by_cases hnone : p.named = []
  · have hname : p.name = "" := by rw [name, hnone, List.getLastD_nil]
    rw [hnone, named, List.filter_eq_nil_iff]
    intro part hpart hkept
    exact (of_decide_eq_true hkept) (stay_normalise hname part hpart)
  · have hempty : ("" :: p.named).filter (fun part => ¬ (part = "" ∨ part = ".")) = p.named :=
      (List.filter_cons_of_neg (by simp)).trans hkept
    rw [normalise, withNamed, if_neg hnone]
    split
    · split
      · exact hempty
      · exact hkept
    · exact hkept

/-- The parts of a child's path that are kept. -/
theorem named_child (p : PosixPath) {name : Name} (hname : FileSystem.Proper name) :
    (p.child name).named = p.named ++ [name] := by
  rw [named_concat rfl hname, named_base, named_normalise]

/-- A path has no more parts than bytes, but one. -/
theorem length_named_le (p : PosixPath) : p.named.length ≤ p.text.utf8ByteSize + 1 := by
  have hparts : ∀ parts : List Name, parts.length ≤ ("/".intercalate parts).utf8ByteSize + 1 := by
    intro parts
    induction parts with
    | nil => exact Nat.zero_le _
    | cons part parts ih =>
      cases parts with
      | nil => exact Nat.le_add_left 1 _
      | cons part' parts =>
        rw [String.intercalate_cons_cons, String.utf8ByteSize_append, String.utf8ByteSize_append]
        have hslash : "/".utf8ByteSize = 1 := rfl
        rw [List.length_cons]
        omega
  have hle := hparts p.parts
  have hfilter : p.named.length ≤ p.parts.length := List.length_filter_le _ _
  rw [text, String.utf8ByteSize_append]
  omega

end PosixPath

namespace FileSystem

variable {fs : FileSystem} {cwd loc : Loc} {p : PosixPath} {name : Name} {order : List Name}
  {access : Access}

/-! ## Lookups of normal forms -/

theorem resolve_named (hfound : fs.lookup cwd true p = .found loc) :
    fs.resolve true maxSymlinks (if p.absolute then [] else cwd) p.named = .found loc :=
  p.skips_named.resolve (resolve_parts hfound)

/-- A lookup of a path that has parts starts at a directory. -/
theorem dir_of_lookup (hfound : fs.lookup cwd true p = .found loc) (hparts : p.parts ≠ []) :
    ∃ order access, fs.node (if p.absolute then [] else cwd) = some (.dir order access) := by
  have hresolve := resolve_parts hfound
  cases hp : p.parts with
  | nil => exact absurd hp hparts
  | cons part parts =>
    rw [hp] at hresolve
    exact dir_of_resolve_cons hresolve

theorem not_isEmpty_of_lookup (hfound : fs.lookup cwd true p = .found loc) : ¬ p.IsEmpty := by
  intro hempty
  rw [lookup, if_pos hempty] at hfound
  cases hfound

theorem resolve_normalise (hfound : fs.lookup cwd true p = .found loc) :
    fs.resolve true maxSymlinks (if p.absolute then [] else cwd) p.normalise.parts =
      .found loc := by
  have hnamed := resolve_named hfound
  have hstart : p.parts ≠ [] → ∀ name names, name = "" ∨ name = "." →
      fs.resolve true maxSymlinks (if p.absolute then [] else cwd) names = .found loc →
      fs.resolve true maxSymlinks (if p.absolute then [] else cwd) (name :: names) =
        .found loc := by
    intro hparts name names hname hgo
    obtain ⟨order, access, hdir⟩ := dir_of_lookup hfound hparts
    rwa [resolve_cons_stay hdir hname]
  by_cases habsolute : p.absolute = true
  · by_cases hroot : PosixPath.doubleRoot p.parts = true
    · obtain ⟨part, rest, hparts⟩ := PosixPath.exists_of_doubleRoot hroot
      have hbegin := hstart (by simp [hparts])
      have hnormal : p.normalise.parts = "" :: if p.named = [] then [""] else p.named := by
        simp [PosixPath.normalise, PosixPath.withNamed, habsolute, hroot]
      rw [hnormal]
      apply hbegin _ _ (Or.inl rfl)
      by_cases hnone : p.named = []
      · rw [if_pos hnone]
        exact hbegin _ _ (Or.inl rfl) (hnone ▸ hnamed)
      · rwa [if_neg hnone]
    · have hnormal : p.normalise.parts = p.named := by
        simp [PosixPath.normalise, PosixPath.withNamed, habsolute, hroot]
      rwa [hnormal]
  · have hrelative := Bool.eq_false_iff.mpr habsolute
    rw [PosixPath.parts_normalise_of_relative hrelative]
    by_cases hnone : p.named = []
    · have hparts : p.parts ≠ [] := fun h =>
        not_isEmpty_of_lookup hfound ⟨hrelative, Or.inl h⟩
      rw [if_pos hnone]
      exact hstart hparts _ _ (Or.inr rfl) (hnone ▸ hnamed)
    · rwa [if_neg hnone]

theorem not_isEmpty_normalise (p : PosixPath) : ¬ p.normalise.IsEmpty := by
  rintro ⟨habsolute, hempty⟩
  rw [PosixPath.normalise_absolute] at habsolute
  rw [PosixPath.parts_normalise_of_relative habsolute] at hempty
  split at hempty
  · simp at hempty
  · next hnone =>
    rcases hempty with hempty | hempty
    · exact hnone hempty
    · exact p.not_mem_named (hempty ▸ List.mem_singleton_self _)

/-- The normal form of a path leads to where the path leads. -/
theorem lookup_normalise (hfound : fs.lookup cwd true p = .found loc) :
    fs.lookup cwd true p.normalise = .found loc := by
  rw [lookup, if_neg (not_isEmpty_normalise p), PosixPath.normalise_absolute]
  exact resolve_normalise hfound

/-! ## Children -/

theorem lookup_child (hfound : fs.lookup cwd true p = .found loc) (hname : name ≠ "") :
    ∃ left, ∀ follow, fs.lookup cwd follow (p.child name) = fs.resolve follow left loc [name] :=
  lookup_join (lookup_normalise hfound) hname

/-- The normal form of the path of a child leads to the same as the path of the child. -/
theorem lookup_normalise_child (hfound : fs.lookup cwd true p.normalise = .found loc)
    (hname : Proper name) :
    ∃ left, ∀ follow, fs.lookup cwd follow (p.child name).normalise =
      fs.resolve follow left loc [name] := by
  obtain ⟨names, hparts, hskips⟩ :=
    PosixPath.exists_parts_normalise (p := p.child name) rfl hname
  have hsame : (p.child name).normalise.absolute = p.normalise.absolute :=
    (p.child name).normalise_absolute
  have hbase := hskips.resolve (resolve_base hfound)
  rw [← hsame] at hbase
  exact lookup_append hbase hparts hname.1

/-- The path of a directory with an empty name behind it leads there too. -/
theorem lookup_join_empty (hfound : fs.lookup cwd true p = .found loc)
    (hdir : fs.node loc = some (.dir order access)) :
    fs.lookup cwd true (p.join "") = .found loc := by
  have hnonempty : ¬ (p.join "").IsEmpty := by
    rintro ⟨hrelative, hempty⟩
    have hbase : p.base = [] := by
      rcases hempty with hempty | hempty
      · simp [PosixPath.join] at hempty
      · simpa [PosixPath.join] using hempty
    refine not_isEmpty_of_lookup hfound ⟨hrelative, ?_⟩
    rw [PosixPath.base] at hbase
    split at hbase
    · next hlast => exact Or.inr (by rw [← List.dropLast_append_getLast? "" hlast, hbase]; rfl)
    · exact Or.inl hbase
  obtain ⟨left, -, hgo⟩ := resolve_append (resolve_base hfound)
  have hparts : (p.join "").parts = p.base ++ [""] := rfl
  have hsame : (p.join "").absolute = p.absolute := rfl
  rw [lookup, if_neg hnonempty, hsame, hparts, hgo true [""] (by simp)]
  exact resolve_stay hdir (by simp)

end FileSystem

end RpcProject.Files
