/-
# Walking like `os.walk`

`os.walk` skips a directory that it cannot list, counts an entry whose type it
cannot find out as a file, and lists links to directories among the directories
without following them. `Fs.walk` yields a directory also when the listing has
failed, drops an entry whose type test fails, or raises, and follows every link
to a directory.

So the two agree exactly when none of this comes up in the directories that
`os.walk` visits.
-/

import Mathlib.Data.List.Forall2
import Mathlib.Data.List.Perm.Subperm
import RpcProject.Files.Traversal

namespace RpcProject.Files

open Foundations Server

/-! ## `os.walk` -/

namespace DirEntry

/-- `is_symlink` of an entry of `os.scandir`, with an error counted as no. -/
def osIsSymlink (entry : DirEntry) : Bool :=
  if entry.dType ≠ dtUnknown then entry.dType = dtLnk
  else entry.lstat.errno1 = 0 ∧ Node.fileType entry.lstat.stMode = sIflnk

/-- `is_dir` of an entry of `os.scandir`, with an error counted as no. -/
def osIsDir (entry : DirEntry) : Bool :=
  if entry.dType = dtUnknown ∨ entry.dType = dtLnk then
    let result := if entry.osIsSymlink then entry.stat else entry.lstat
    result.errno1 = 0 ∧ Node.fileType result.stMode = sIfdir
  else entry.dType = dtDir

/-- Whether `os.walk` goes on with an entry. -/
def osWalkInto (entry : DirEntry) : Bool := entry.osIsDir && !entry.osIsSymlink

end DirEntry

/-- `os.scandir` -/
def FileSystem.osScandir (fs : FileSystem) (cwd : Loc) (path : PosixPath) :
    Except Errno (List DirEntry) :=
  (fs.entries cwd path).map fun entries => entries.filter fun entry => ¬ IsDot entry.dName

theorem namesWith_sublist_cons (test : DirEntry → Bool) (entry : DirEntry)
    (entries : List DirEntry) :
    (namesWith test entries).Sublist (namesWith test (entry :: entries)) :=
  ((List.sublist_cons_self entry entries).filter test).map DirEntry.dName

section OsWalk

variable {σ : Type} (fs : FileSystem) (cwd : Loc) (topdown : Bool)
  (onerror : Option (Fault → Effect σ Fault Unit)) (emit : Visit → Effect σ Fault Unit)

/-- `os.walk` with `followlinks=False` -/
def osWalk : ℕ → PosixPath → Effect σ Fault Unit
  | 0, _ => Effect.raise .outOfFuel
  | fuel + 1, top =>
      match fs.osScandir cwd top with
      | .error errno =>
          match onerror with
          | none => pure ()
          | some callback => callback (.errno errno top.text)
      | .ok entries =>
          yieldAround topdown
            (emit ⟨top, namesWith DirEntry.osIsDir entries,
              namesWith (fun entry => !entry.osIsDir) entries⟩)
            (Effect.forEach (fun name => osWalk fuel (top.join name))
              (namesWith DirEntry.osWalkInto entries))

end OsWalk

/-! ## Agreement -/

section Agreement

variable (fs : FileSystem) (platform : Platform) (cwd : Loc) (topdown : Bool)
  (onerror : Option (Fault → Except Fault Unit))

/-- A callback that returns or raises. -/
def callbackOf : Option (Fault → Effect (List Visit) Fault Unit) :=
  onerror.map fun callback e => Effect.ask fun _ => callback e

/-- `Fs.walk` on a file system that stays as it is, with a record of what it yields. -/
def fsWalks : ℕ → PosixPath → Effect (List Visit) Fault Unit :=
  walk (fun _ => fs) platform cwd topdown (callbackOf onerror) Effect.emit

/-- `os.walk`, with its visits. -/
def osWalks : ℕ → PosixPath → Effect (List Visit) Fault Unit :=
  osWalk fs cwd topdown (callbackOf onerror) Effect.emit

/-- The same directory, and the same names up to their order. -/
def SameVisit (v w : Visit) : Prop := v.top = w.top ∧ v.dirs.Perm w.dirs ∧ v.files.Perm w.files

/-- Both run to their ends and yield the same, up to the order of names. -/
def WalksAgree (top : PosixPath) : Prop :=
  ∃ fuel xs ys, fsWalks fs platform cwd topdown onerror fuel top [] = (.ok (), xs) ∧
    osWalks fs cwd topdown onerror fuel top [] = (.ok (), ys) ∧ List.Forall₂ SameVisit xs ys

/-- `os.walk` on the first path comes to the second one. -/
inductive Visited : PosixPath → PosixPath → Prop
  | here (top : PosixPath) : Visited top top
  | deeper {top q : PosixPath} {entries : List DirEntry} {entry : DirEntry}
      (listed : fs.osScandir cwd top = .ok entries) (mem : entry ∈ entries)
      (dir : entry.osIsDir = true) (symlink : entry.osIsSymlink = false)
      (visited : Visited (top.join entry.dName) q) : Visited top q

/-- A directory that `Fs.walk` treats like `os.walk`: it can be read; "." and ".."
come first and no path is too long for the server, or it has no entries and the
callback takes the failure; the type of each entry can be found out, and none is
a link to a directory. -/
def TreatedAlike (q : PosixPath) : Prop :=
  ∃ entries, fs.entries cwd q = .ok entries ∧
    (DotsFirst (entries.map DirEntry.dName) ∧
        (∀ entry ∈ entries, PathFits platform q.text entry.dName) ∨
      (∀ entry ∈ entries, IsDot entry.dName) ∧ ∃ callback, onerror = some callback ∧
        callback (.routine .serverError ("failed to listdir: " ++ q.text)) = .ok ()) ∧
    ∀ entry ∈ entries, ¬ IsDot entry.dName →
      (∃ b, entry.isDir q = .ok b) ∧ ¬ (entry.osIsDir = true ∧ entry.osIsSymlink = true)

variable {fs platform cwd topdown onerror} {top q : PosixPath} {fuel : ℕ} {xs ys : List Visit}
  {entries : List DirEntry} {dirs files : List Name}

/-! ## What a walk yields -/

theorem still_callbackOf {callback : Fault → Effect (List Visit) Fault Unit}
    (hcallback : callbackOf onerror = some callback) (e : Fault) : Effect.Still (callback e) := by
  rw [callbackOf, Option.map_eq_some_iff] at hcallback
  obtain ⟨answer, -, rfl⟩ := hcallback
  exact Effect.still_ask _

theorem still_classify : Effect.Still (classify (callbackOf onerror) top dirs files entries) := by
  induction entries generalizing dirs files with
  | nil => exact Effect.still_pure _
  | cons entry rest ih =>
    rw [classify]
    split
    · exact ih
    · exact ih
    · split
      · exact Effect.still_pure _
      · next callback hcallback =>
        apply (still_callbackOf hcallback _).attempt.bind
        intro result
        cases result
        · exact Effect.still_pure _
        · exact ih

theorem still_survey :
    Effect.Still (survey (fun _ => fs) platform cwd (callbackOf onerror) top) := by
  refine (Effect.still_ask _).bind fun listing => Effect.Still.bind ?_ ?_
  · cases listing
    · exact Effect.still_pure _
    · exact still_classify
  · rintro ⟨dirs, files, _ | e⟩
    · exact Effect.still_pure _
    · cases hcallback : callbackOf onerror with
      | none => exact Effect.still_raise e
      | some callback =>
        exact (still_callbackOf hcallback e).bind fun _ => Effect.still_pure _

theorem appends_yieldAround {yield below : Effect (List Visit) Fault Unit}
    (hyield : Effect.Appends yield) (hbelow : Effect.Appends below) :
    Effect.Appends (yieldAround topdown yield below) := by
  cases topdown
  · exact (Effect.still_pure ()).appends.bind fun _ => hbelow.bind fun _ => hyield
  · exact hyield.bind fun _ => hbelow.bind fun _ => (Effect.still_pure ()).appends

theorem appends_fsWalks :
    Effect.Appends (fsWalks fs platform cwd topdown onerror fuel top) := by
  induction fuel generalizing top with
  | zero => exact (Effect.still_raise _).appends
  | succ fuel ih =>
    exact still_survey.appends.bind fun names =>
      appends_yieldAround (Effect.appends_emit _) (Effect.Appends.forEach fun _ => ih)

theorem appends_osWalks : Effect.Appends (osWalks fs cwd topdown onerror fuel top) := by
  induction fuel generalizing top with
  | zero => exact (Effect.still_raise _).appends
  | succ fuel ih =>
    rw [osWalks, osWalk]
    split
    · split
      · exact (Effect.still_pure ()).appends
      · next callback hcallback => exact (still_callbackOf hcallback _).appends
    · exact appends_yieldAround (Effect.appends_emit _) (Effect.Appends.forEach fun _ => ih)

/-- A visit in its place before or after those below. -/
def around (topdown : Bool) (v : Visit) (below : List Visit) : List Visit :=
  if topdown then v :: below else below ++ [v]

/-- A visit comes before or after those below it. -/
theorem yieldAround_eq_ok_iff {v : Visit} {below : Effect (List Visit) Fault Unit}
    (hbelow : Effect.Appends below) :
    yieldAround topdown (Effect.emit v) below [] = (.ok (), xs) ↔
      ∃ ys, below [] = (.ok (), ys) ∧ xs = around topdown v ys := by
  cases topdown
  · have hyield : yieldAround false (Effect.emit v) below = below >>= fun _ => Effect.emit v := rfl
    rw [hyield, Effect.bind_eq_ok_iff]
    constructor
    · rintro ⟨⟨⟩, ys, hrun, hemit⟩
      cases hemit
      exact ⟨ys, hrun, rfl⟩
    · rintro ⟨ys, hrun, rfl⟩
      exact ⟨(), ys, hrun, rfl⟩
  · have hyield : yieldAround true (Effect.emit v) below [] = below [v] := by
      rw [yieldAround, if_pos rfl, if_pos rfl, Effect.bind_pure_unit]
      rfl
    rw [hyield, hbelow, Prod.mk.injEq]
    constructor
    · rintro ⟨hrun, rfl⟩
      exact ⟨(below []).2, Prod.ext hrun rfl, rfl⟩
    · rintro ⟨ys, hrun, rfl⟩
      rw [hrun]
      exact ⟨rfl, rfl⟩

/-- What `Fs.walk` makes of a directory. -/
def sorted (fs : FileSystem) (platform : Platform) (cwd : Loc)
    (onerror : Option (Fault → Except Fault Unit)) (top : PosixPath) :
    Except Fault (List Name × List Name) :=
  (survey (fun _ : List Visit => fs) platform cwd (callbackOf onerror) top []).1

/-- The survey depends on the disk only. -/
theorem survey_apply (visits : List Visit) :
    survey (fun _ => fs) platform cwd (callbackOf onerror) top visits =
      (sorted fs platform cwd onerror top, visits) := by
  have hstill : Effect.Still
      (survey (fun _ : List Visit => fs) platform cwd (callbackOf onerror) top) :=
    still_survey
  obtain ⟨result, hresult⟩ := hstill
  rw [sorted, hresult, hresult]

/-- When a walk returns, and what it has visited. -/
theorem fsWalks_succ_eq_ok_iff :
    fsWalks fs platform cwd topdown onerror (fuel + 1) top [] = (.ok (), xs) ↔
      ∃ dirs files, sorted fs platform cwd onerror top = .ok (dirs, files) ∧
        (∀ name ∈ dirs,
          (fsWalks fs platform cwd topdown onerror fuel (top.join name) []).1 = .ok ()) ∧
        xs = around topdown ⟨top, dirs, files⟩ (dirs.flatMap fun name =>
          (fsWalks fs platform cwd topdown onerror fuel (top.join name) []).2) := by
  have hchildren : ∀ dirs, Effect.Appends (Effect.forEach
      (fun name => fsWalks fs platform cwd topdown onerror fuel (top.join name)) dirs) :=
    fun dirs => Effect.Appends.forEach fun _ => appends_fsWalks
  rw [fsWalks, walk, Effect.bind_eq_ok_iff]
  constructor
  · rintro ⟨⟨dirs, files⟩, visits, hsurvey, hrest⟩
    rw [survey_apply, Prod.mk.injEq] at hsurvey
    obtain ⟨hsorted, rfl⟩ := hsurvey
    obtain ⟨ys, hbelow, rfl⟩ := (yieldAround_eq_ok_iff (hchildren dirs)).mp hrest
    obtain ⟨hall, rfl⟩ := (Effect.Appends.forEach_eq_ok_iff fun _ => appends_fsWalks).mp hbelow
    exact ⟨dirs, files, hsorted, hall, rfl⟩
  · rintro ⟨dirs, files, hsorted, hall, rfl⟩
    refine ⟨(dirs, files), [], by rw [survey_apply, hsorted], ?_⟩
    exact (yieldAround_eq_ok_iff (hchildren dirs)).mpr
      ⟨_, (Effect.Appends.forEach_eq_ok_iff fun _ => appends_fsWalks).mpr ⟨hall, rfl⟩, rfl⟩

/-! ## What becomes of the entries -/

section Tests

variable {entry : DirEntry} {follow b : Bool} {stMode mode : ℕ}

/-- A status that is told is the one of the reply. -/
theorem fetchStat_eq_ok (hfetch : entry.fetchStat follow = .ok stMode) :
    (if follow then entry.stat else entry.lstat) = ⟨0, stMode⟩ := by
  rw [DirEntry.fetchStat] at hfetch
  generalize (if follow then entry.stat else entry.lstat) = result at hfetch ⊢
  split at hfetch
  · cases hfetch
  · next hzero =>
    cases hfetch
    rw [← not_not.mp hzero]

theorem compareMode_eq_ok (hcompare : entry.compareMode q stMode mode = .ok b) :
    b = decide (Node.fileType stMode = mode) := by
  rw [DirEntry.compareMode] at hcompare
  split at hcompare <;> cases hcompare
  rfl

/-- Both walks agree on links that can be tested. -/
theorem osIsSymlink_of_isSymlink (htest : entry.isSymlink q = .ok b) :
    entry.osIsSymlink = b := by
  rw [DirEntry.isSymlink] at htest
  rw [DirEntry.osIsSymlink]
  split at htest
  · next hknown =>
    cases htest
    exact if_pos hknown
  · next hunknown =>
    obtain ⟨stMode, hfetch, hcompare⟩ := except_bind_eq_ok_iff.mp htest
    have hlstat : entry.lstat = ⟨0, stMode⟩ := fetchStat_eq_ok hfetch
    rw [if_neg hunknown, hlstat, compareMode_eq_ok hcompare]
    simp

theorem osIsDir_of_isDir (htest : entry.isDir q = .ok b) : entry.osIsDir = b := by
  rw [DirEntry.isDir, DirEntry.testMode] at htest
  rw [DirEntry.osIsDir]
  by_cases hneed : entry.dType = dtUnknown ∨ entry.dType = dtLnk
  · rw [if_pos (by simpa using hneed)] at htest
    rw [if_pos hneed]
    obtain ⟨stMode, hstat, hcompare⟩ := except_bind_eq_ok_iff.mp htest
    rw [DirEntry.statMode, if_neg (by simp)] at hstat
    obtain ⟨symlink, hsymlink, hfetch⟩ := except_bind_eq_ok_iff.mp hstat
    have hresult : (if symlink then entry.stat else entry.lstat) = ⟨0, stMode⟩ := by
      cases symlink <;> exact fetchStat_eq_ok hfetch
    rw [osIsSymlink_of_isSymlink hsymlink, compareMode_eq_ok hcompare]
    simp [hresult]
  · rw [if_neg (by simpa using hneed)] at htest
    rw [if_neg hneed]
    cases htest
    rfl

end Tests

/-- Directories and files among the entries, which are all of them only if the
type of each can be found out. -/
structure Sorts (top : PosixPath) (entries : List DirEntry) (d f : List Name) : Prop where
  dirs : d.Sublist (namesWith DirEntry.osIsDir entries)
  files : f.Sublist (namesWith (fun entry => !entry.osIsDir) entries)
  count : (∀ entry ∈ entries, ∃ b, entry.isDir top = .ok b) ∨ d.length + f.length < entries.length

section Sorts

variable {entry : DirEntry} {rest : List DirEntry} {d f : List Name}

theorem Sorts.dir (hsorts : Sorts top rest d f) (htest : entry.isDir top = .ok true) :
    Sorts top (entry :: rest) (entry.dName :: d) f where
  dirs := by
    rw [namesWith_cons, if_pos (osIsDir_of_isDir htest)]
    exact hsorts.dirs.cons_cons _
  files := hsorts.files.trans (namesWith_sublist_cons _ _ _)
  count := by
    refine hsorts.count.imp (fun h => List.forall_mem_cons.mpr ⟨⟨_, htest⟩, h⟩) fun h => ?_
    simp only [List.length_cons]
    omega

theorem Sorts.file (hsorts : Sorts top rest d f) (htest : entry.isDir top = .ok false) :
    Sorts top (entry :: rest) d (entry.dName :: f) where
  dirs := hsorts.dirs.trans (namesWith_sublist_cons _ _ _)
  files := by
    rw [namesWith_cons, if_pos (by simp [osIsDir_of_isDir htest])]
    exact hsorts.files.cons_cons _
  count := by
    refine hsorts.count.imp (fun h => List.forall_mem_cons.mpr ⟨⟨_, htest⟩, h⟩) fun h => ?_
    simp only [List.length_cons]
    omega

theorem Sorts.nil : Sorts top [] [] [] :=
  ⟨List.nil_sublist _, List.nil_sublist _, Or.inl fun _ h => absurd h List.not_mem_nil⟩

theorem Sorts.stop : Sorts top (entry :: rest) [] [] :=
  ⟨List.nil_sublist _, List.nil_sublist _, Or.inr (Nat.succ_pos _)⟩

theorem Sorts.drop (hsorts : Sorts top rest d f) : Sorts top (entry :: rest) d f where
  dirs := hsorts.dirs.trans (namesWith_sublist_cons _ _ _)
  files := hsorts.files.trans (namesWith_sublist_cons _ _ _)
  count := by
    have hsplit : (namesWith DirEntry.osIsDir rest).length +
        (namesWith (fun entry => !entry.osIsDir) rest).length = rest.length := by
      simp only [namesWith, List.length_map]
      exact List.length_eq_length_filter_add _ |>.symm
    have hdirs := hsorts.dirs.length_le
    have hfiles := hsorts.files.length_le
    right
    simp only [List.length_cons]
    omega

end Sorts

/-- What was sorted comes from the entries. -/
theorem classify_sorts {σ : Type} {handler : Option (Fault → Effect σ Fault Unit)} {s t : σ}
    {dirs' files' : List Name} {raised : Option Fault}
    (hrun : classify handler top dirs files entries s = (.ok (dirs', files', raised), t)) :
    ∃ d f, dirs' = dirs ++ d ∧ files' = files ++ f ∧ Sorts top entries d f := by
  induction entries generalizing dirs files s with
  | nil =>
    cases hrun
    exact ⟨[], [], by simp, by simp, Sorts.nil⟩
  | cons entry rest ih =>
    rw [classify] at hrun
    cases htest : entry.isDir top with
    | ok b =>
      rw [htest] at hrun
      cases b
      · obtain ⟨d, f, rfl, rfl, hsorts⟩ := ih hrun
        exact ⟨d, entry.dName :: f, rfl, List.append_assoc _ _ _, hsorts.file htest⟩
      · obtain ⟨d, f, rfl, rfl, hsorts⟩ := ih hrun
        exact ⟨entry.dName :: d, f, List.append_assoc _ _ _, rfl, hsorts.dir htest⟩
    | error e =>
      rw [htest] at hrun
      cases handler with
      | none =>
        cases hrun
        exact ⟨[], [], by simp, by simp, Sorts.stop⟩
      | some callback =>
        obtain ⟨result, u, -, hrest⟩ := Effect.bind_eq_ok_iff.mp hrun
        cases result with
        | error e' =>
          cases hrest
          exact ⟨[], [], by simp, by simp, Sorts.stop⟩
        | ok _ =>
          obtain ⟨d, f, rfl, rfl, hsorts⟩ := ih hrest
          exact ⟨d, f, rfl, rfl, hsorts.drop⟩

/-- When the entries of a directory are sorted. -/
theorem sorted_eq_ok_iff : sorted fs platform cwd onerror top = .ok (dirs, files) ↔
    ∃ result visits, sortEntries (callbackOf onerror) top (fs.scandir platform cwd top) [] =
        (.ok result, visits) ∧
      (settle (callbackOf onerror) result visits).1 = .ok (dirs, files) := by
  have hsurvey : survey (fun _ : List Visit => fs) platform cwd (callbackOf onerror) top [] =
      (sortEntries (callbackOf onerror) top (fs.scandir platform cwd top) >>=
        settle (callbackOf onerror)) [] := rfl
  rw [sorted, hsurvey]
  constructor
  · intro hsorted
    obtain ⟨result, visits, hsort, hsettle⟩ := Effect.bind_eq_ok_iff.mp (Prod.ext hsorted rfl)
    exact ⟨result, visits, hsort, congrArg Prod.fst hsettle⟩
  · rintro ⟨result, visits, hsort, hsettle⟩
    rw [Effect.bind_of_ok hsort, hsettle]

theorem settle_failed_eq_ok_iff {e : Fault} {visits : List Visit} {names : List Name × List Name} :
    (settle (callbackOf onerror) (dirs, files, some e) visits).1 = .ok names ↔
      names = (dirs, files) ∧ ∃ callback, onerror = some callback ∧ callback e = .ok () := by
  cases onerror with
  | none =>
    constructor
    · intro h
      cases h
    · rintro ⟨-, callback, h, -⟩
      cases h
  | some callback =>
    have hsettle : settle (callbackOf (some callback)) (dirs, files, some e) =
        (Effect.ask (fun _ => callback e) >>= fun _ => pure (dirs, files)) := rfl
    rw [hsettle, Effect.bind_apply, Effect.ask]
    cases hanswer : callback e with
    | error e' =>
      constructor
      · intro h
        cases h
      · rintro ⟨-, _, ⟨⟩, hother⟩
        rw [hanswer] at hother
        cases hother
    | ok _ =>
      constructor
      · intro h
        cases h
        exact ⟨rfl, callback, rfl, hanswer⟩
      · rintro ⟨rfl, -⟩
        rfl

/-- The entries are sorted, or the error was passed over. -/
theorem sorted_cases (hsorted : sorted fs platform cwd onerror top = .ok (dirs, files)) :
    (∃ e, fs.scandir platform cwd top = .error e ∧ dirs = [] ∧ files = [] ∧
        ∃ callback, onerror = some callback ∧ callback e = .ok ()) ∨
      ∃ listing, fs.scandir platform cwd top = .ok listing ∧ Sorts top listing dirs files := by
  obtain ⟨⟨d, f, raised⟩, visits, hsort, hsettle⟩ := sorted_eq_ok_iff.mp hsorted
  have hnames : (dirs, files) = (d, f) := by
    cases raised with
    | none =>
      cases hsettle
      rfl
    | some e => exact (settle_failed_eq_ok_iff.mp hsettle).1
  cases hnames
  cases hlisting : fs.scandir platform cwd top with
  | error e =>
    rw [hlisting] at hsort
    cases hsort
    exact Or.inl ⟨e, rfl, rfl, rfl, (settle_failed_eq_ok_iff.mp hsettle).2⟩
  | ok listing =>
    rw [hlisting] at hsort
    obtain ⟨d, f, rfl, rfl, hsorts⟩ := classify_sorts hsort
    exact Or.inr ⟨listing, rfl, hsorts⟩

/-- Entries that can be tested are sorted. -/
theorem sorted_of_tested {listing : List DirEntry}
    (hlisting : fs.scandir platform cwd top = .ok listing)
    (htested : ∀ entry ∈ listing, ∃ b, entry.isDir top = .ok b) :
    sorted fs platform cwd onerror top =
      .ok (namesWith DirEntry.osIsDir listing,
        namesWith (fun entry => !entry.osIsDir) listing) := by
  have hsort : sortEntries (callbackOf onerror) top (.ok listing) =
      pure (namesWith DirEntry.osIsDir listing,
        namesWith (fun entry => !entry.osIsDir) listing, none) :=
    classify_of_tested fun entry hmem => by
      obtain ⟨b, hb⟩ := htested entry hmem
      rw [hb, osIsDir_of_isDir hb]
  rw [sorted_eq_ok_iff, hlisting, hsort]
  exact ⟨_, [], rfl, rfl⟩

/-- A listing that fails is passed over. -/
theorem sorted_of_failed {e : Fault} {callback : Fault → Except Fault Unit}
    (hfailed : fs.scandir platform cwd top = .error e) (hcallback : onerror = some callback)
    (hanswer : callback e = .ok ()) : sorted fs platform cwd onerror top = .ok ([], []) := by
  rw [sorted_eq_ok_iff, hfailed]
  exact ⟨([], [], some e), [], rfl, settle_failed_eq_ok_iff.mpr ⟨rfl, callback, hcallback, hanswer⟩⟩

/-! ## `os.walk` taken apart -/

/-- The other walk passes over it as well. -/
theorem osWalks_succ_of_error (topdown : Bool) (onerror : Option (Fault → Except Fault Unit))
    (fuel : ℕ) {errno : Errno} (herror : fs.osScandir cwd top = .error errno) :
    (osWalks fs cwd topdown onerror (fuel + 1) top []).2 = [] := by
  rw [osWalks, osWalk, herror]
  cases onerror <;> rfl

/-- When the other walk returns, and what it has visited. -/
theorem osWalks_succ_eq_ok_iff (hlisted : fs.osScandir cwd top = .ok entries) :
    osWalks fs cwd topdown onerror (fuel + 1) top [] = (.ok (), ys) ↔
      (∀ name ∈ namesWith DirEntry.osWalkInto entries,
        (osWalks fs cwd topdown onerror fuel (top.join name) []).1 = .ok ()) ∧
      ys = around topdown
        ⟨top, namesWith DirEntry.osIsDir entries, namesWith (fun entry => !entry.osIsDir) entries⟩
        ((namesWith DirEntry.osWalkInto entries).flatMap fun name =>
          (osWalks fs cwd topdown onerror fuel (top.join name) []).2) := by
  have hchildren : ∀ dirs, Effect.Appends (Effect.forEach
      (fun name => osWalks fs cwd topdown onerror fuel (top.join name)) dirs) :=
    fun dirs => Effect.Appends.forEach fun _ => appends_osWalks
  rw [osWalks, osWalk, hlisted]
  constructor
  · intro hrun
    obtain ⟨below, hbelow, rfl⟩ := (yieldAround_eq_ok_iff (hchildren _)).mp hrun
    obtain ⟨hall, rfl⟩ := (Effect.Appends.forEach_eq_ok_iff fun _ => appends_osWalks).mp hbelow
    exact ⟨hall, rfl⟩
  · rintro ⟨hall, rfl⟩
    exact (yieldAround_eq_ok_iff (hchildren _)).mpr
      ⟨_, (Effect.Appends.forEach_eq_ok_iff fun _ => appends_osWalks).mpr ⟨hall, rfl⟩, rfl⟩

/-! ## Names of a directory -/

theorem osScandir_of_entries (hentries : fs.entries cwd top = .ok entries) :
    fs.osScandir cwd top = .ok (entries.filter fun entry => ¬ IsDot entry.dName) := by
  rw [FileSystem.osScandir, hentries]
  rfl

theorem exists_entries_of_osScandir {listed : List DirEntry}
    (hlisted : fs.osScandir cwd top = .ok listed) : ∃ entries, fs.entries cwd top = .ok entries ∧
      listed = entries.filter fun entry => ¬ IsDot entry.dName := by
  rw [FileSystem.osScandir] at hlisted
  cases hentries : fs.entries cwd top with
  | error errno =>
    rw [hentries] at hlisted
    cases hlisted
  | ok entries =>
    rw [hentries] at hlisted
    cases hlisted
    exact ⟨entries, rfl, rfl⟩

theorem length_filter_isDot_le (hnodup : (entries.map DirEntry.dName).Nodup) :
    (entries.filter fun entry => IsDot entry.dName).length ≤ 2 := by
  have hdots : ((entries.filter fun entry => IsDot entry.dName).map DirEntry.dName).Nodup :=
    hnodup.sublist (List.filter_sublist.map _)
  have hsubset : (entries.filter fun entry => IsDot entry.dName).map DirEntry.dName ⊆
      [".", ".."] := by
    intro name hname
    obtain ⟨entry, hentry, rfl⟩ := List.mem_map.mp hname
    have hdot : IsDot entry.dName := by simpa using (List.mem_filter.mp hentry).2
    rcases hdot with h | h <;> rw [h] <;> simp
  simpa using (List.Nodup.subperm hdots hsubset).length_le

/-- If leaving out two entries leaves out "." and "..", these come first. -/
theorem dotsFirst_of_perm (hnodup : (entries.map DirEntry.dName).Nodup)
    (hperm : ((entries.drop 2).map DirEntry.dName).Perm
      ((entries.filter fun entry => ¬ IsDot entry.dName).map DirEntry.dName)) :
    DotsFirst (entries.map DirEntry.dName) := by
  rw [← listsExactly_drop_iff hnodup, ← List.map_drop]
  intro name
  have hmem : name ∈ (entries.filter fun entry => ¬ IsDot entry.dName).map DirEntry.dName ↔
      name ∈ entries.map DirEntry.dName ∧ ¬ IsDot name := by
    simp only [List.mem_map, List.mem_filter, decide_eq_true_eq]
    constructor
    · rintro ⟨entry, ⟨hentry, hdot⟩, rfl⟩
      exact ⟨⟨entry, hentry, rfl⟩, hdot⟩
    · rintro ⟨⟨entry, hentry, rfl⟩, hdot⟩
      exact ⟨entry, ⟨hentry, hdot⟩, rfl⟩
  have hsub : ((entries.filter fun entry => ¬ IsDot entry.dName).map DirEntry.dName).Nodup :=
    hnodup.sublist (List.filter_sublist.map DirEntry.dName)
  rw [hperm.count_eq]
  split
  · next hin => exact List.count_eq_one_of_mem hsub (hmem.mpr hin)
  · next hout => exact List.count_eq_zero.mpr fun hin => hout (hmem.mp hin)

theorem nodup_namesWith (test : DirEntry → Bool) (hnodup : (entries.map DirEntry.dName).Nodup) :
    (namesWith test entries).Nodup :=
  hnodup.sublist (List.filter_sublist.map _)

/-- Each entry passes a test or its opposite. -/
theorem namesWith_append_perm (test : DirEntry → Bool) (entries : List DirEntry) :
    (namesWith test entries ++ namesWith (fun entry => !test entry) entries).Perm
      (entries.map DirEntry.dName) := by
  rw [namesWith, namesWith, ← List.map_append]
  exact (List.filter_append_perm test entries).map _

/-- When nothing is missing each entry was tested. -/
theorem Sorts.of_length {listing : List DirEntry} (hsorts : Sorts top listing dirs files)
    (hlength : listing.length ≤ dirs.length + files.length) :
    (∀ entry ∈ listing, ∃ b, entry.isDir top = .ok b) ∧
      dirs = namesWith DirEntry.osIsDir listing ∧
      files = namesWith (fun entry => !entry.osIsDir) listing := by
  have hcount : (namesWith DirEntry.osIsDir listing).length +
      (namesWith (fun entry => !entry.osIsDir) listing).length = listing.length := by
    rw [← List.length_append, (namesWith_append_perm _ listing).length_eq, List.length_map]
  have hdirs := hsorts.dirs.length_le
  have hfiles := hsorts.files.length_le
  exact ⟨hsorts.count.resolve_right (by omega),
    hsorts.dirs.eq_of_length (by omega), hsorts.files.eq_of_length (by omega)⟩

/-- What `Fs.walk` has made of a directory, if it is what `os.walk` makes of it,
tells that the listing was right and that no test has failed. -/
theorem treated_of_sorted (hnodup : (entries.map DirEntry.dName).Nodup)
    (hentries : fs.entries cwd top = .ok entries)
    (hsorted : sorted fs platform cwd onerror top = .ok (dirs, files))
    (hdirs : dirs.Perm (namesWith DirEntry.osIsDir
      (entries.filter fun entry => ¬ IsDot entry.dName)))
    (hfiles : files.Perm (namesWith (fun entry => !entry.osIsDir)
      (entries.filter fun entry => ¬ IsDot entry.dName))) :
    (DotsFirst (entries.map DirEntry.dName) ∧
        (∀ entry ∈ entries, PathFits platform top.text entry.dName) ∨
      (∀ entry ∈ entries, IsDot entry.dName) ∧ ∃ callback, onerror = some callback ∧
        callback (.routine .serverError ("failed to listdir: " ++ top.text)) = .ok ()) ∧
    ∀ entry ∈ entries, ¬ IsDot entry.dName → ∃ b, entry.isDir top = .ok b := by
  have hnames : (dirs ++ files).Perm
      ((entries.filter fun entry => ¬ IsDot entry.dName).map DirEntry.dName) :=
    (hdirs.append hfiles).trans (namesWith_append_perm _ _)
  have hscan := FileSystem.scandir_of_entries platform hentries
  rcases sorted_cases hsorted with ⟨e, hfailed, rfl, rfl, hcallback⟩ | ⟨listing, hlisting, hsorts⟩
  · rw [hfailed] at hscan
    split at hscan
    · cases hscan
    · cases hscan
      have hnone : (entries.filter fun entry => ¬ IsDot entry.dName) = [] :=
        List.map_eq_nil_iff.mp hnames.symm.eq_nil
      have hdots : ∀ entry ∈ entries, IsDot entry.dName := by
        simpa [List.filter_eq_nil_iff] using hnone
      exact ⟨Or.inr ⟨hdots, hcallback⟩, fun entry hmem hdot => absurd (hdots entry hmem) hdot⟩
  · rw [hlisting] at hscan
    split at hscan
    · next hfits =>
      cases hscan
      -- at most two entries are "." and "..", so dropping two leaves no more than were yielded
      have hlength : (entries.drop 2).length ≤ dirs.length + files.length := by
        have hdots := length_filter_isDot_le hnodup
        have hsplit := (List.filter_append_perm
          (fun entry : DirEntry => decide (IsDot entry.dName)) entries).length_eq
        have hsame := hnames.length_eq
        simp only [List.length_append, List.length_map, List.length_drop,
          decide_not] at hsplit hsame ⊢
        omega
      obtain ⟨htested, rfl, rfl⟩ := hsorts.of_length hlength
      have hfirst : DotsFirst (entries.map DirEntry.dName) :=
        dotsFirst_of_perm hnodup ((namesWith_append_perm _ _).symm.trans hnames)
      refine ⟨Or.inl ⟨hfirst, hfits⟩, fun entry hmem hdot => htested entry ?_⟩
      rw [drop_eq_filter_of_dotsFirst DirEntry.dName hfirst]
      exact List.mem_filter.mpr ⟨hmem, by simpa using hdot⟩
    · cases hscan

/-- A directory that is treated alike is sorted alike. -/
theorem sorted_of_treated (hentries : fs.entries cwd top = .ok entries)
    (hnodup : (entries.map DirEntry.dName).Nodup)
    (htreated : TreatedAlike fs platform cwd onerror top) :
    sorted fs platform cwd onerror top =
      .ok (namesWith DirEntry.osIsDir (entries.filter fun entry => ¬ IsDot entry.dName),
        namesWith (fun entry => !entry.osIsDir)
          (entries.filter fun entry => ¬ IsDot entry.dName)) := by
  obtain ⟨entries', hentries', hlisted, htested⟩ := htreated
  cases hentries.symm.trans hentries'
  have hscan := FileSystem.scandir_of_entries platform hentries
  rcases hlisted with ⟨hfirst, hfits⟩ | ⟨hdots, callback, hcallback, hanswer⟩
  · rw [if_pos hfits, drop_eq_filter_of_dotsFirst DirEntry.dName hfirst] at hscan
    apply sorted_of_tested hscan
    intro entry hentry
    obtain ⟨hmem, hdot⟩ := List.mem_filter.mp hentry
    exact (htested entry hmem (by simpa using hdot)).1
  · -- a directory without entries is yielded alike whether it is listed or the callback takes the
    -- error
    have hnone : (entries.filter fun entry => ¬ IsDot entry.dName) = [] := by
      simpa [List.filter_eq_nil_iff] using hdots
    rw [hnone]
    by_cases hfits : ∀ entry ∈ entries, PathFits platform top.text entry.dName
    · have hall : (entries.filter fun entry => IsDot entry.dName) = entries :=
        List.filter_eq_self.mpr fun entry hmem => by simpa using hdots entry hmem
      have hlength := length_filter_isDot_le hnodup
      rw [hall] at hlength
      rw [if_pos hfits, List.drop_eq_nil_of_le hlength] at hscan
      exact sorted_of_tested hscan fun _ h => absurd h List.not_mem_nil
    · rw [if_neg hfits] at hscan
      exact sorted_of_failed hscan hcallback hanswer

/-! ## Visits below a directory -/

/-- The name through which a visit below a directory passes. -/
def passes (top : PosixPath) (v : Visit) : Option Name := v.top.parts[top.base.length]?

theorem passes_of_prefix {name : Name} {v : Visit} (hname : name ≠ "")
    (hbase : (top.join name).base <+: v.top.parts) : passes top v = some name := by
  obtain ⟨rest, hrest⟩ := hbase
  rw [FileSystem.join_base top hname] at hrest
  rw [passes, ← hrest]
  simp

/-- Visits that are the same pass the same name. -/
theorem passes_of_same {v w : Visit} (hsame : SameVisit v w) : passes top v = passes top w := by
  unfold passes
  rw [hsame.1]

/-- The visits below a name are those that pass it. -/
theorem filter_flatMap_passes {below : Name → List Visit} {names : List Name} {name : Name}
    (hnodup : names.Nodup)
    (hbelow : ∀ other ∈ names, ∀ v ∈ below other, passes top v = some other) :
    (names.flatMap below).filter (fun v => passes top v = some name) =
      if name ∈ names then below name else [] := by
  induction names with
  | nil => rfl
  | cons other names ih =>
    obtain ⟨hfresh, hnodup⟩ := List.nodup_cons.mp hnodup
    obtain ⟨hother, hrest⟩ := List.forall_mem_cons.mp hbelow
    rw [List.flatMap_cons, List.filter_append, ih hnodup hrest]
    -- all that comes from one name passes through it, and nothing else does
    by_cases heq : name = other
    · subst heq
      rw [if_neg hfresh, if_pos List.mem_cons_self, List.append_nil, List.filter_eq_self]
      exact fun v hv => by simpa using hother v hv
    · have hnone : (below other).filter (fun v => passes top v = some name) = [] := by
        rw [List.filter_eq_nil_iff]
        intro v hv
        rw [hother v hv]
        simpa using fun h => heq h.symm
      rw [hnone, List.nil_append]
      simp only [List.mem_cons, heq, false_or]

@[simp] theorem mem_around {v w : Visit} : w ∈ around topdown v xs ↔ w = v ∨ w ∈ xs := by
  cases topdown <;> simp [around, or_comm]

theorem forall₂_around_iff {v w : Visit} :
    List.Forall₂ SameVisit (around topdown v xs) (around topdown w ys) ↔
      SameVisit v w ∧ List.Forall₂ SameVisit xs ys := by
  cases topdown
  · simp only [around, Bool.false_eq_true, if_false]
    rw [← List.forall₂_reverse_iff, List.reverse_append, List.reverse_append,
      List.reverse_singleton, List.reverse_singleton, List.singleton_append, List.singleton_append,
      List.forall₂_cons, List.forall₂_reverse_iff]
  · simp only [around, if_true, List.forall₂_cons]

/-- The names of entries are different, and none is empty. -/
theorem entry_names (hfs : fs.WellFormed) (hentries : fs.entries cwd top = .ok entries) :
    (entries.map DirEntry.dName).Nodup ∧ "" ∉ entries.map DirEntry.dName := by
  obtain ⟨loc, order, access, -, hdir, -, rfl⟩ := FileSystem.entries_eq_ok_iff.mp hentries
  have hnames : (order.map (fs.entryAt cwd top loc)).map DirEntry.dName = order := by
    rw [List.map_map]
    exact List.map_id _
  rw [hnames]
  exact ⟨hfs.nodup loc order access hdir, hfs.named loc order access hdir⟩

theorem ne_of_mem_sorted (hfs : fs.WellFormed)
    (hsorted : sorted fs platform cwd onerror top = .ok (dirs, files)) {name : Name}
    (hmem : name ∈ dirs) : name ≠ "" := by
  rcases sorted_cases hsorted with ⟨e, -, rfl, -⟩ | ⟨listing, hlisting, hsorts⟩
  · exact absurd hmem List.not_mem_nil
  · cases hentries : fs.entries cwd top with
    | error errno =>
      obtain ⟨e, herror⟩ := FileSystem.scandir_of_error platform hentries
      cases herror.symm.trans hlisting
    | ok entries =>
      rw [FileSystem.scandir_of_entries platform hentries] at hlisting
      split at hlisting
      · cases hlisting
        rintro rfl
        obtain ⟨entry, hentry, -, hempty⟩ := mem_namesWith.mp (hsorts.dirs.subset hmem)
        exact (entry_names hfs hentries).2
          (List.mem_map.mpr ⟨entry, List.mem_of_mem_drop hentry, hempty⟩)
      · cases hlisting

theorem ne_of_mem_listed (hfs : fs.WellFormed) (hlisted : fs.osScandir cwd top = .ok entries)
    {test : DirEntry → Bool} {name : Name} (hmem : name ∈ namesWith test entries) : name ≠ "" := by
  obtain ⟨all, hentries, rfl⟩ := exists_entries_of_osScandir hlisted
  rintro rfl
  obtain ⟨entry, hentry, -, hempty⟩ := mem_namesWith.mp hmem
  exact (entry_names hfs hentries).2
    (List.mem_map.mpr ⟨entry, (List.mem_filter.mp hentry).1, hempty⟩)

theorem base_prefix_of_fsWalks (hfs : fs.WellFormed)
    (hrun : fsWalks fs platform cwd topdown onerror fuel top [] = (.ok (), xs)) :
    ∀ v ∈ xs, top.base <+: v.top.parts := by
  induction fuel generalizing top xs with
  | zero => cases hrun
  | succ fuel ih =>
    obtain ⟨dirs, files, hsorted, hall, rfl⟩ := fsWalks_succ_eq_ok_iff.mp hrun
    intro v hv
    rcases mem_around.mp hv with rfl | hv
    · exact FileSystem.base_prefix top
    · obtain ⟨name, hname, hv⟩ := List.mem_flatMap.mp hv
      have hbelow := ih (Prod.ext (hall name hname) rfl) v hv
      rw [FileSystem.join_base top (ne_of_mem_sorted hfs hsorted hname)] at hbelow
      exact (List.prefix_append _ _).trans hbelow

theorem base_prefix_of_osWalks (hfs : fs.WellFormed)
    (hrun : osWalks fs cwd topdown onerror fuel top [] = (.ok (), ys)) :
    ∀ v ∈ ys, top.base <+: v.top.parts := by
  induction fuel generalizing top ys with
  | zero => cases hrun
  | succ fuel ih =>
    cases hlisted : fs.osScandir cwd top with
    | error errno =>
      have hnone := osWalks_succ_of_error topdown onerror fuel hlisted
      rw [hrun] at hnone
      cases hnone
      exact fun _ h => absurd h List.not_mem_nil
    | ok listed =>
      obtain ⟨hall, rfl⟩ := (osWalks_succ_eq_ok_iff hlisted).mp hrun
      intro v hv
      rcases mem_around.mp hv with rfl | hv
      · exact FileSystem.base_prefix top
      · obtain ⟨name, hname, hv⟩ := List.mem_flatMap.mp hv
        have hbelow := ih (Prod.ext (hall name hname) rfl) v hv
        rw [FileSystem.join_base top (ne_of_mem_listed hfs hlisted hname)] at hbelow
        exact (List.prefix_append _ _).trans hbelow

/-- Where all visits are the same, those below one directory are. -/
theorem forall₂_below {f g : Name → List Visit} {into : List Name} {name : Name}
    (hdirs : dirs.Nodup) (hinto : into.Nodup)
    (hf : ∀ other ∈ dirs, ∀ v ∈ f other, passes top v = some other)
    (hg : ∀ other ∈ into, ∀ v ∈ g other, passes top v = some other)
    (hsame : List.Forall₂ SameVisit (dirs.flatMap f) (into.flatMap g)) (hmem : name ∈ dirs) :
    List.Forall₂ SameVisit (f name) (if name ∈ into then g name else []) := by
  have hfilter := List.rel_filter (R := SameVisit)
    (p := fun v => decide (passes top v = some name))
      (q := fun v => decide (passes top v = some name))
    (fun v w hvw => by simp only [passes_of_same hvw]) hsame
  rwa [filter_flatMap_passes hdirs hf, filter_flatMap_passes hinto hg, if_pos hmem] at hfilter

theorem ne_nil_of_fsWalks
    (hrun : fsWalks fs platform cwd topdown onerror fuel top [] = (.ok (), xs)) :
    xs ≠ [] := by
  cases fuel with
  | zero => cases hrun
  | succ fuel =>
    obtain ⟨dirs, files, -, -, rfl⟩ := fsWalks_succ_eq_ok_iff.mp hrun
    exact List.ne_nil_of_mem (mem_around.mpr (Or.inl rfl))

/-- Where both walks yield the same visits below a directory, they do so below each directory
in it, and `os.walk` yields none below one that it does not go into. -/
theorem agree_below (hfs : fs.WellFormed) {listed : List DirEntry}
    (hlisted : fs.osScandir cwd top = .ok listed) (hnodup : (listed.map DirEntry.dName).Nodup)
    (hsorted : sorted fs platform cwd onerror top = .ok (dirs, files))
    (hdirs : dirs.Perm (namesWith DirEntry.osIsDir listed))
    (hfsAll : ∀ name ∈ dirs,
      (fsWalks fs platform cwd topdown onerror fuel (top.join name) []).1 = .ok ())
    (hosAll : ∀ name ∈ namesWith DirEntry.osWalkInto listed,
      (osWalks fs cwd topdown onerror fuel (top.join name) []).1 = .ok ())
    (hbelow : List.Forall₂ SameVisit
      (dirs.flatMap fun name => (fsWalks fs platform cwd topdown onerror fuel (top.join name) []).2)
      ((namesWith DirEntry.osWalkInto listed).flatMap fun name =>
        (osWalks fs cwd topdown onerror fuel (top.join name) []).2))
    {name : Name} (hname : name ∈ dirs) :
    List.Forall₂ SameVisit (fsWalks fs platform cwd topdown onerror fuel (top.join name) []).2
      (if name ∈ namesWith DirEntry.osWalkInto listed then
        (osWalks fs cwd topdown onerror fuel (top.join name) []).2 else []) := by
  have hfsPasses : ∀ other ∈ dirs,
      ∀ v ∈ (fsWalks fs platform cwd topdown onerror fuel (top.join other) []).2,
        passes top v = some other :=
    fun other hother v hv => passes_of_prefix (ne_of_mem_sorted hfs hsorted hother)
      (base_prefix_of_fsWalks hfs (Prod.ext (hfsAll other hother) rfl) v hv)
  have hosPasses : ∀ other ∈ namesWith DirEntry.osWalkInto listed,
      ∀ v ∈ (osWalks fs cwd topdown onerror fuel (top.join other) []).2,
        passes top v = some other :=
    fun other hother v hv => passes_of_prefix (ne_of_mem_listed hfs hlisted hother)
      (base_prefix_of_osWalks hfs (Prod.ext (hosAll other hother) rfl) v hv)
  exact forall₂_below (hdirs.nodup_iff.mpr (nodup_namesWith _ hnodup)) (nodup_namesWith _ hnodup)
    hfsPasses hosPasses hbelow hname

/-- `os.walk` does not go into a link. -/
theorem not_mem_osWalkInto {listed : List DirEntry} {entry : DirEntry}
    (hnodup : (listed.map DirEntry.dName).Nodup) (hmem : entry ∈ listed)
    (hsymlink : entry.osIsSymlink = true) :
    entry.dName ∉ namesWith DirEntry.osWalkInto listed := by
  intro hin
  obtain ⟨entry', hmem', htest, hsameName⟩ := mem_namesWith.mp hin
  cases List.inj_on_of_nodup_map hnodup hmem' hmem hsameName
  rw [DirEntry.osWalkInto, hsymlink, Bool.not_true, Bool.and_false] at htest
  cases htest

/-- Walks that agree have treated the top alike. -/
theorem treatedAlike_of_agree (hfs : fs.WellFormed)
    (hfsRun : fsWalks fs platform cwd topdown onerror fuel top [] = (.ok (), xs))
    (hosRun : osWalks fs cwd topdown onerror fuel top [] = (.ok (), ys))
    (hsame : List.Forall₂ SameVisit xs ys) (hvisited : Visited fs cwd top q) :
    TreatedAlike fs platform cwd onerror q := by
  induction fuel generalizing top xs ys with
  | zero => cases hfsRun
  | succ fuel ih =>
    have hne := ne_nil_of_fsWalks hfsRun
    cases hlisted : fs.osScandir cwd top with
    | error errno =>
      -- `os.walk` yields nothing for a directory that it cannot list
      have hnone := osWalks_succ_of_error topdown onerror fuel hlisted
      rw [hosRun] at hnone
      cases hnone
      cases hsame
      exact absurd rfl hne
    | ok listed =>
      obtain ⟨hosAll, rfl⟩ := (osWalks_succ_eq_ok_iff hlisted).mp hosRun
      obtain ⟨dirs, files, hsorted, hfsAll, rfl⟩ := fsWalks_succ_eq_ok_iff.mp hfsRun
      -- the visits to the top agree, and so do those below it in one list
      obtain ⟨⟨-, hdirs, hfiles⟩, hall⟩ := forall₂_around_iff.mp hsame
      obtain ⟨entries, hentries, rfl⟩ := exists_entries_of_osScandir hlisted
      obtain ⟨hnodup, -⟩ := entry_names hfs hentries
      have hlistedNodup : ((entries.filter fun entry => ¬ IsDot entry.dName).map
          DirEntry.dName).Nodup := hnodup.sublist (List.filter_sublist.map _)
      have hbelow := fun name (hname : name ∈ dirs) =>
        agree_below hfs hlisted hlistedNodup hsorted hdirs hfsAll hosAll hall hname
      cases hvisited with
      | here =>
        obtain ⟨htreated, htested⟩ := treated_of_sorted hnodup hentries hsorted hdirs hfiles
        refine ⟨entries, hentries, htreated, fun entry hmem hdot => ⟨htested entry hmem hdot, ?_⟩⟩
        rintro ⟨hdir, hsymlink⟩
        have hlistedMem : entry ∈ entries.filter fun entry => ¬ IsDot entry.dName :=
          List.mem_filter.mpr ⟨hmem, by simpa using hdot⟩
        have hname : entry.dName ∈ dirs :=
          hdirs.mem_iff.mpr (mem_namesWith.mpr ⟨entry, hlistedMem, hdir, rfl⟩)
        -- `os.walk` does not come to the link, `Fs.walk` yields at least one visit below it
        have hempty := hbelow entry.dName hname
        rw [if_neg (not_mem_osWalkInto hlistedNodup hlistedMem hsymlink)] at hempty
        exact ne_nil_of_fsWalks (Prod.ext (hfsAll _ hname) rfl)
          (List.forall₂_nil_right_iff.mp hempty)
      | deeper hlisted' hmem hdir hsymlink hvisited =>
        cases hlisted.symm.trans hlisted'
        have hname := hdirs.mem_iff.mpr (mem_namesWith.mpr ⟨_, hmem, hdir, rfl⟩)
        have hin := mem_namesWith.mpr ⟨_, hmem,
          (by rw [DirEntry.osWalkInto, hdir, hsymlink]; rfl : DirEntry.osWalkInto _ = true), rfl⟩
        have hbelowName := hbelow _ hname
        rw [if_pos hin] at hbelowName
        exact ih (Prod.ext (hfsAll _ hname) rfl) (Prod.ext (hosAll _ hin) rfl) hbelowName hvisited

theorem osIsSymlink_entryAt {loc : Loc} {order : List Name} {access : Access} {name : Name}
    {target : PosixPath} (hfound : fs.lookup cwd true top = .found loc)
    (hdir : fs.node loc = some (.dir order access)) (hsearch : access.searchable = true)
    (hproper : FileSystem.Proper name) (hlink : fs.node (loc ++ [name]) = some (.link target)) :
    (fs.entryAt cwd top loc name).osIsSymlink = true := by
  have hlstat : fs.stat cwd false (top.slash name) = .ok (Node.link target).mode := by
    obtain ⟨left, hlookup⟩ := FileSystem.lookup_slash hfound hproper.1
    rw [FileSystem.stat, FileSystem.nodeAt, hlookup, FileSystem.resolve_proper hproper hdir,
      hsearch, hlink]
    simp only [Bool.true_eq_false, if_false, if_true, hlink]
    rfl
  have htype : (fs.entryAt cwd top loc name).dType = fs.dTypeAt loc name := rfl
  have hstat : (fs.entryAt cwd top loc name).lstat = ⟨0, (Node.link target).mode⟩ := by
    rw [FileSystem.entryAt, hlstat]
    rfl
  rw [DirEntry.osIsSymlink, htype, hstat, FileSystem.dTypeAt, hlink, if_neg hproper.2]
  by_cases htyped : fs.typed (loc ++ [name]) = false
  · rw [if_pos htyped, if_neg (by simp), Node.fileType_mode]
    rfl
  · rw [if_neg htyped]
    rfl

/-- An entry that is not a link leads one level down, if its path leads anywhere. -/
theorem lookup_join_entry {loc loc' : Loc} {entry : DirEntry} (hfs : fs.WellFormed)
    (hfound : fs.lookup cwd true top = .found loc) (hentries : fs.entries cwd top = .ok entries)
    (hmem : entry ∈ entries) (hdot : ¬ IsDot entry.dName) (hsymlink : entry.osIsSymlink = false)
    (hchild : fs.lookup cwd true (top.join entry.dName) = .found loc') :
    loc' = loc ++ [entry.dName] := by
  obtain ⟨loc'', order, access, hfound', hdir, -, rfl⟩ := FileSystem.entries_eq_ok_iff.mp hentries
  cases hfound.symm.trans hfound'
  obtain ⟨name, hname, rfl⟩ := List.mem_map.mp hmem
  have hproper : FileSystem.Proper name := hfs.proper_of_mem hdir hname hdot
  obtain ⟨left, hlookup⟩ := FileSystem.lookup_join hfound hproper.1
  rw [FileSystem.entryAt_dName, hlookup, FileSystem.resolve_proper hproper hdir] at hchild
  split at hchild
  · cases hchild
  · next hsearch =>
    cases hnode : fs.node (loc ++ [name]) with
    | none =>
      rw [hnode] at hchild
      cases hchild
    | some node =>
      rw [hnode] at hchild
      cases node with
      | link target =>
        rw [osIsSymlink_entryAt hfound hdir (by simpa using hsearch) hproper hnode] at hsymlink
        cases hsymlink
      | dir order access =>
        cases hchild
        rfl
      | file content =>
        cases hchild
        rfl
      | special kind =>
        cases hchild
        rfl

theorem walks_of_treatedAlike {disk : Disk} {loc : Loc} (topdown : Bool) (fuel : ℕ)
    (htreated : ∀ q, Visited disk.toFileSystem cwd top q →
      TreatedAlike disk.toFileSystem platform cwd onerror q)
    (hfound : disk.lookup cwd true top = .found loc) (hfuel : disk.depth < loc.length + fuel) :
    ∃ xs, fsWalks disk.toFileSystem platform cwd topdown onerror fuel top [] = (.ok (), xs) ∧
      osWalks disk.toFileSystem cwd topdown onerror fuel top [] = (.ok (), xs) := by
  induction fuel generalizing top loc with
  | zero =>
    obtain ⟨entries, hentries, -⟩ := htreated top (.here top)
    obtain ⟨loc', order, access, hfound', hdir, -⟩ := FileSystem.entries_eq_ok_iff.mp hentries
    cases hfound.symm.trans hfound'
    have := disk.length_le loc (by rw [hdir]; rfl)
    omega
  | succ fuel ih =>
    have htop := htreated top (.here top)
    obtain ⟨entries, hentries, -, htested⟩ := htop
    obtain ⟨hnodup, -⟩ := entry_names disk.wellFormed hentries
    have hsorted := sorted_of_treated hentries hnodup (htreated top (.here top))
    have hlisted := osScandir_of_entries hentries
    have hinto : namesWith DirEntry.osWalkInto (entries.filter fun entry => ¬ IsDot entry.dName) =
        namesWith DirEntry.osIsDir (entries.filter fun entry => ¬ IsDot entry.dName) := by
      refine congrArg (List.map DirEntry.dName) (List.filter_congr fun entry hentry => ?_)
      obtain ⟨hmem, hdot⟩ := List.mem_filter.mp hentry
      have hnotLink := (htested entry hmem (by simpa using hdot)).2
      rw [DirEntry.osWalkInto]
      cases hdir : entry.osIsDir <;> cases hsymlink : entry.osIsSymlink <;> simp_all
    have hchildren : ∀ name ∈ namesWith DirEntry.osIsDir
        (entries.filter fun entry => ¬ IsDot entry.dName),
        ∃ xs, fsWalks disk.toFileSystem platform cwd topdown onerror fuel (top.join name) [] =
            (.ok (), xs) ∧
          osWalks disk.toFileSystem cwd topdown onerror fuel (top.join name) [] = (.ok (), xs) := by
      intro name hname
      obtain ⟨entry, hentry, hdir, rfl⟩ := mem_namesWith.mp hname
      obtain ⟨hmem, hdot⟩ := List.mem_filter.mp hentry
      have hdot : ¬ IsDot entry.dName := by simpa using hdot
      have hsymlink : entry.osIsSymlink = false := by
        simpa [hdir] using (htested entry hmem hdot).2
      have hdeeper := fun q hvisited => htreated q (.deeper hlisted hentry hdir hsymlink hvisited)
      obtain ⟨entries', hentries', -⟩ := hdeeper _ (.here _)
      obtain ⟨loc', order, access, hchild, -⟩ := FileSystem.entries_eq_ok_iff.mp hentries'
      cases lookup_join_entry disk.wellFormed hfound hentries hmem hdot hsymlink hchild
      exact ih hdeeper hchild (by rw [List.length_append, List.length_singleton]; omega)
    refine ⟨_, fsWalks_succ_eq_ok_iff.mpr ⟨_, _, hsorted, ?_, rfl⟩,
      (osWalks_succ_eq_ok_iff hlisted).mpr ⟨?_, ?_⟩⟩
    · intro name hname
      obtain ⟨xs, hfsRun, -⟩ := hchildren name hname
      rw [hfsRun]
    · intro name hname
      obtain ⟨xs, -, hosRun⟩ := hchildren name (hinto ▸ hname)
      rw [hosRun]
    · rw [hinto]
      refine congrArg _ (List.flatMap_congr fun name hname => ?_)
      obtain ⟨xs, hfsRun, hosRun⟩ := hchildren name hname
      rw [hfsRun, hosRun]

/-- **Walking.** `Fs.walk` yields what `os.walk` yields exactly when every
directory that `os.walk` visits is one that the two treat alike. -/
theorem walksAgree_iff_treatedAlike (disk : Disk) (platform : Platform) (cwd : Loc) (topdown : Bool)
    (onerror : Option (Fault → Except Fault Unit)) (top : PosixPath) :
    WalksAgree disk.toFileSystem platform cwd topdown onerror top ↔
      ∀ q, Visited disk.toFileSystem cwd top q →
        TreatedAlike disk.toFileSystem platform cwd onerror q := by
  constructor
  · rintro ⟨fuel, xs, ys, hfsRun, hosRun, hsame⟩ q hvisited
    exact treatedAlike_of_agree disk.wellFormed hfsRun hosRun hsame hvisited
  · intro htreated
    obtain ⟨entries, hentries, -⟩ := htreated top (.here top)
    obtain ⟨loc, order, access, hfound, -⟩ := FileSystem.entries_eq_ok_iff.mp hentries
    obtain ⟨xs, hfsRun, hosRun⟩ := walks_of_treatedAlike topdown
      (disk.depth + 1) htreated hfound (by omega)
    exact ⟨disk.depth + 1, xs, xs, hfsRun, hosRun,
      List.forall₂_same.mpr fun v _ => ⟨rfl, List.Perm.refl _, List.Perm.refl _⟩⟩

end Agreement

/-- A directory with nothing but a link to another, empty directory. -/
def linkedDisk : Disk :=
  .ofTable
    [([], .dir [".", "..", "t", "d"] ⟨true, true, true⟩),
      (["t"], .dir [".", "..", "l"] ⟨true, true, true⟩),
      (["t", "l"], .link ⟨true, ["d"]⟩),
      (["d"], .dir [".", ".."] ⟨true, true, true⟩)]
    (fun _ => true) (by decide)

/-- `Fs.walk` follows the link, `os.walk` does not. -/
theorem not_walksAgree_linkedDisk :
    fsWalks linkedDisk.toFileSystem .linux [] true none 3 ⟨true, ["t"]⟩ [] =
        (.ok (), [⟨⟨true, ["t"]⟩, ["l"], []⟩, ⟨⟨true, ["t", "l"]⟩, [], []⟩]) ∧
      osWalks linkedDisk.toFileSystem [] true none 3 ⟨true, ["t"]⟩ [] =
        (.ok (), [⟨⟨true, ["t"]⟩, ["l"], []⟩]) ∧
      ¬ WalksAgree linkedDisk.toFileSystem .linux [] true none ⟨true, ["t"]⟩ := by
  refine ⟨rfl, rfl, ?_⟩
  rintro ⟨fuel, xs, ys, hfsRun, hosRun, hsame⟩
  have htop := treatedAlike_of_agree linkedDisk.wellFormed hfsRun hosRun hsame (.here _)
  obtain ⟨entries, hentries, -, htested⟩ := htop
  have hlisted : linkedDisk.entries [] ⟨true, ["t"]⟩ =
      .ok ([".", "..", "l"].map (linkedDisk.entryAt [] ⟨true, ["t"]⟩ ["t"])) := rfl
  cases hlisted.symm.trans hentries
  exact (htested (linkedDisk.entryAt [] ⟨true, ["t"]⟩ ["t"] "l") (by simp) (by decide)).2 ⟨rfl, rfl⟩

end RpcProject.Files
