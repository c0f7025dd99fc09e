/-
# Listing a directory

`routine_listdir` reads a directory twice. The first pass counts the entries,
the second one forwards them all, in the order in which `readdir` yields them
and together with what `lstat` and `stat` say about each. The client's `listdir`
keeps all of them, and `scandir` leaves out the first two, wherever the entries
"." and ".." stand.

So a listing has the names of the directory, without the two, exactly when these
stand in the first two places and nowhere else.
-/

import Mathlib.Data.List.Nodup
import RpcProject.Server.SockIo

namespace RpcProject.Files

open Server

/-! ## Entries -/

/-- A name of an entry. -/
abbrev Name := String

/-- The two entries for a directory itself and for its parent. -/
def IsDot (name : Name) : Prop := name = "." ∨ name = ".."

instance : DecidablePred IsDot := fun _ => inferInstanceAs (Decidable (_ ∨ _))

/-- What a call of `stat` or `lstat` leaves: the error number, and the mode if
the call succeeds. -/
structure DirEntryStat where
  errno1 : ℕ
  stMode : ℕ
  deriving DecidableEq, Repr

/-- An entry of a listing. -/
structure DirEntry where
  dName : Name
  dType : ℕ
  lstat : DirEntryStat
  stat : DirEntryStat
  deriving DecidableEq, Repr

/-- A directory that does not change while it is listed. Both passes read the
same entries, possibly in different orders, and none twice. -/
structure Directory where
  path : String
  first : List DirEntry
  second : List DirEntry
  path_ne : path ≠ ""
  unchanged : first.Perm second
  nodup : (second.map DirEntry.dName).Nodup

/-- The names in the order in which the second pass reads them. -/
def Directory.order (d : Directory) : List Name := d.second.map DirEntry.dName

/-! ## The server -/

/-- The size of the buffer for the path of an entry. -/
def filenameMax : Platform → ℕ
  | .linux => 4096
  | .darwin => 1024

/-- The two errors of a routine. -/
inductive RoutineError
  | protocolError
  | serverError
  deriving DecidableEq, Repr

/-- Whether `path/name` fits the buffer, its end included. -/
def PathFits (p : Platform) (path : String) (name : Name) : Prop :=
  path.utf8ByteSize + 1 + name.utf8ByteSize < filenameMax p

instance (p : Platform) (path : String) : DecidablePred (PathFits p path) :=
  fun _ => inferInstanceAs (Decidable (_ < _))

/-- An entry goes into the reply if its path fits. -/
def forwardEntry (p : Platform) (path : String) (entry : DirEntry) :
    Except RoutineError DirEntry :=
  if PathFits p path entry.dName then .ok entry else .error .serverError

/-- The routine on a path, with what its two passes read, if the directory opens. -/
def routineListdir (p : Platform) (path : String) (first second : Option (List DirEntry)) :
    Except RoutineError (List DirEntry) :=
  if path = "" then .error .serverError
  else
    match first with
    | none => .error .protocolError
    | some counted =>
        if counted.length = 0 then .ok []
        else
          match second with
          | none => .error .serverError
          | some entries => (entries.take counted.length).mapM (forwardEntry p path)

/-! ## The client -/

/-- `Fs.scandir` on the entries of `CoreClient.listdir`. -/
def scandir (entries : List DirEntry) : List DirEntry := entries.drop 2

/-- `Fs.listdir` -/
def listdir (entries : List DirEntry) : List Name := (scandir entries).map DirEntry.dName

/-- A listing has each name of a directory other than "." and ".." once, and no
other name. -/
def ListsExactly (order result : List Name) : Prop :=
  ∀ name, result.count name = if name ∈ order ∧ ¬ IsDot name then 1 else 0

/-- The first two entries, and no others, are "." and "..". -/
def DotsFirst (order : List Name) : Prop :=
  ∀ i name, order[i]? = some name → (IsDot name ↔ i < 2)

variable {p : Platform} {path : String} {order : List Name} {name : Name}
  {entries : List DirEntry}

theorem dotsFirst_of_forall (h : ∀ name ∈ order, ¬ IsDot name) :
    DotsFirst ("." :: ".." :: order) := by
  rintro (_ | _ | i) name hname
  · cases hname
    simp [IsDot]
  · cases hname
    simp [IsDot]
  · have hdot := h name (List.mem_of_getElem? hname)
    simp [hdot]

/-- Leaving out the first two names of a directory is right exactly when these
are "." and "..", and no other name is. -/
theorem listsExactly_drop_iff (hnodup : order.Nodup) :
    ListsExactly order (order.drop 2) ↔ DotsFirst order := by
  have hcount : ∀ i name, order[i]? = some name →
      (order.drop 2).count name = if i < 2 then 0 else 1 := by
    intro i name hget
    obtain ⟨hlt, rfl⟩ := List.getElem?_eq_some_iff.mp hget
    split
    · next hi =>
      rw [List.count_eq_zero]
      intro hmem
      obtain ⟨j, hj, heq⟩ := List.mem_iff_getElem.mp hmem
      rw [List.getElem_drop] at heq
      have := (List.Nodup.getElem_inj_iff hnodup).mp heq
      omega
    · next hi =>
      apply List.count_eq_one_of_mem (hnodup.sublist (List.drop_sublist 2 order))
      rw [List.mem_drop_iff_getElem]
      exact ⟨i - 2, by omega, by simp only [show 2 + (i - 2) = i by omega]⟩
  constructor
  · intro hexact i name hget
    have hone := hexact name
    rw [hcount i name hget] at hone
    have hmem : name ∈ order := List.mem_of_getElem? hget
    by_cases hdot : IsDot name <;> by_cases hi : i < 2 <;> simp_all
  · intro hfirst name
    by_cases hmem : name ∈ order
    · obtain ⟨i, hget⟩ := List.mem_iff_getElem?.mp hmem
      rw [hcount i name hget]
      have := hfirst i name hget
      by_cases hdot : IsDot name <;> by_cases hi : i < 2 <;> simp_all
    · rw [if_neg fun h => hmem h.1, List.count_eq_zero]
      exact fun h => hmem (List.mem_of_mem_drop h)

/-- Where "." and ".." come first, leaving out two entries leaves out these. -/
theorem drop_eq_filter_of_dotsFirst {α : Type} (nameOf : α → Name) {list : List α}
    (hfirst : DotsFirst (list.map nameOf)) :
    list.drop 2 = list.filter fun a => ¬ IsDot (nameOf a) := by
  have hat : ∀ (i : ℕ) (a : α), list[i]? = some a → (IsDot (nameOf a) ↔ i < 2) :=
    fun i a hget => hfirst i (nameOf a) (by rw [List.getElem?_map, hget]; rfl)
  have htake : (list.take 2).filter (fun a => ¬ IsDot (nameOf a)) = [] := by
    rw [List.filter_eq_nil_iff]
    intro a hmem
    obtain ⟨i, hget⟩ := List.mem_iff_getElem?.mp hmem
    rw [List.getElem?_take] at hget
    split at hget
    · next hlt => simpa using (hat i a hget).mpr hlt
    · cases hget
  have hdrop : (list.drop 2).filter (fun a => ¬ IsDot (nameOf a)) = list.drop 2 := by
    rw [List.filter_eq_self]
    intro a hmem
    obtain ⟨i, hget⟩ := List.mem_iff_getElem?.mp hmem
    rw [List.getElem?_drop] at hget
    have hiff := hat (2 + i) a hget
    simpa using fun hdot => absurd (hiff.mp hdot) (by omega)
  conv_rhs => rw [← List.take_append_drop 2 list, List.filter_append, htake, hdrop]
  rfl

/-- The second pass forwards all entries or, if a path is too long, fails. -/
theorem mapM_forwardEntry (p : Platform) (path : String) (entries : List DirEntry) :
    entries.mapM (forwardEntry p path) =
      if ∀ entry ∈ entries, PathFits p path entry.dName then .ok entries
      else .error .serverError := by
  induction entries with
  | nil => rfl
  | cons entry entries ih =>
    rw [List.mapM_cons, ih, forwardEntry]
    by_cases hfits : PathFits p path entry.dName
    · rw [if_pos hfits]
      by_cases hrest : ∀ entry ∈ entries, PathFits p path entry.dName
      · have hall : ∀ entry' ∈ entry :: entries, PathFits p path entry'.dName :=
          List.forall_mem_cons.mpr ⟨hfits, hrest⟩
        rw [if_pos hrest, if_pos hall]
        rfl
      · rw [if_neg hrest, if_neg fun h => hrest fun e he => h e (List.mem_cons_of_mem _ he)]
        rfl
    · have hnot : ¬ ∀ entry' ∈ entry :: entries, PathFits p path entry'.dName :=
        fun h => hfits (h entry List.mem_cons_self)
      rw [if_neg hfits, if_neg hnot]
      rfl

/-- What the routine makes of a directory: all its entries, unless one of their
paths does not fit. -/
theorem routineListdir_directory (p : Platform) (d : Directory) :
    routineListdir p d.path (some d.first) (some d.second) =
      if ∀ name ∈ d.order, PathFits p d.path name then .ok d.second else .error .serverError := by
  have hfit : (∀ name ∈ d.order, PathFits p d.path name) ↔
      ∀ entry ∈ d.second, PathFits p d.path entry.dName := List.forall_mem_map
  rw [routineListdir, if_neg d.path_ne]
  by_cases hempty : d.first.length = 0
  · have hsecond : d.second = [] :=
      List.eq_nil_of_length_eq_zero (by rw [← d.unchanged.length_eq, hempty])
    simp only [hempty, if_true]
    rw [if_pos (by rw [hfit, hsecond]; exact fun _ h => absurd h List.not_mem_nil), hsecond]
  · simp only [hempty, if_false]
    rw [d.unchanged.length_eq, List.take_length, mapM_forwardEntry]
    simp only [hfit]

/-- **Listing.** `scandir` and `listdir` give every name other than "." and ".."
once, and no other name, exactly when `readdir` yields these two first and the
paths of all entries fit the server's buffer. -/
theorem listing_exact_iff (p : Platform) (d : Directory) :
    (∃ entries, routineListdir p d.path (some d.first) (some d.second) = .ok entries ∧
        ListsExactly d.order ((scandir entries).map DirEntry.dName) ∧
        ListsExactly d.order (listdir entries)) ↔
      DotsFirst d.order ∧ ∀ name ∈ d.order, PathFits p d.path name := by
  have hnames : listdir d.second = d.order.drop 2 := List.map_drop
  rw [routineListdir_directory]
  by_cases hfit : ∀ name ∈ d.order, PathFits p d.path name
  · rw [if_pos hfit]
    constructor
    · rintro ⟨entries, hentries, -, hexact⟩
      cases hentries
      rw [hnames] at hexact
      exact ⟨(listsExactly_drop_iff d.nodup).mp hexact, hfit⟩
    · rintro ⟨hfirst, -⟩
      have hexact : ListsExactly d.order (listdir d.second) :=
        hnames ▸ (listsExactly_drop_iff d.nodup).mpr hfirst
      exact ⟨d.second, rfl, hexact, hexact⟩
  · rw [if_neg hfit]
    constructor
    · rintro ⟨entries, hentries, -⟩
      cases hentries
    · exact fun h => absurd h.2 hfit

/-- A directory with one file, which `readdir` yields before "." and "..". -/
def fileFirst : Directory where
  path := "/d"
  first := [⟨"f", 8, ⟨0, 0o100644⟩, ⟨0, 0o100644⟩⟩, ⟨".", 4, ⟨0, 0o40755⟩, ⟨0, 0o40755⟩⟩,
    ⟨"..", 4, ⟨0, 0o40755⟩, ⟨0, 0o40755⟩⟩]
  second := [⟨"f", 8, ⟨0, 0o100644⟩, ⟨0, 0o100644⟩⟩, ⟨".", 4, ⟨0, 0o40755⟩, ⟨0, 0o40755⟩⟩,
    ⟨"..", 4, ⟨0, 0o40755⟩, ⟨0, 0o40755⟩⟩]
  path_ne := by decide
  unchanged := List.Perm.refl _
  nodup := by decide

/-- The file is left out of the listing, and ".." is in it. -/
theorem not_listsExactly_fileFirst :
    routineListdir .linux fileFirst.path (some fileFirst.first) (some fileFirst.second) =
        .ok fileFirst.second ∧
      listdir fileFirst.second = [".."] ∧
      ¬ ListsExactly fileFirst.order (listdir fileFirst.second) := by
  refine ⟨by decide, by decide, fun hexact => ?_⟩
  have hdots := hexact ".."
  exact absurd hdots (by decide)

end RpcProject.Files
