/-
# The streams of a listing

`routine_listdir` opens its directory twice, one stream after the other. A check that fails
leaves through one label, and this label frees the stream that `dirp` still holds. The memory
of a stream can be given back so, but not its descriptor, and a stream that `closedir` was
called on before is given back a second time.

So all streams are closed once exactly when no stream is open where a check fails.
-/

import RpcProject.Files.Listing
import RpcProject.Foundations.Effects

namespace RpcProject.Server.ListDir

open Foundations Foundations.Effect Files

/-! ## The host -/

/-- What `readdir` yields from one stream. The directory does not change meanwhile, so no name
comes twice. -/
structure Pass where
  entries : List DirEntry
  nodup : (entries.map DirEntry.dName).Nodup

/-- Which allocations of a round succeed. -/
@[ext]
structure EntryAlloc where
  dEntry : Bool
  sStat : Bool
  lStat : Bool
  dName : Bool
  deriving DecidableEq, Repr

/-- What the calls of a listing return: the passes if the directory opens, whether `closedir`
succeeds, and the allocations. -/
structure Host where
  platform : Platform
  replyAlloc : Bool
  first : Option Pass
  firstClosed : Bool
  arrayAlloc : Bool
  second : Option Pass
  entryAlloc : ℕ → EntryAlloc
  secondClosed : Bool

/-! ## The heap -/

/-- How a stream is given back. -/
inductive GiveBack
  | closed
  | closeFailed
  | freed
  deriving DecidableEq, Repr

/-- An entry of the reply. The name and the two records are pointers. -/
structure ReplyEntry where
  dName : Option Name
  dType : ℕ
  stat : Option DirEntryStat
  lstat : Option DirEntryStat
  deriving DecidableEq, Repr

/-- `rpc__api__dir_entry__init` -/
def ReplyEntry.init : ReplyEntry := ⟨none, 0, none, none⟩

/-- All parts of an entry are there. -/
def ReplyEntry.FullyBuilt (e : ReplyEntry) : Prop :=
  e.dName.isSome = true ∧ e.stat.isSome = true ∧ e.lstat.isSome = true

/-- The streams opened so far, which are numbered, how they have been given back, and the
variables of the routine. -/
structure Heap where
  opened : ℕ := 0
  givenBack : List (ℕ × GiveBack) := []
  dirp : Option ℕ := none
  dirEntries : List (Option ReplyEntry) := []
  nDirEntries : ℕ := 0
  deriving DecidableEq, Repr

namespace Heap

/-- The stream is given back. -/
def giveBack (how : GiveBack) (heap : Heap) : Heap :=
  match heap.dirp with
  | none => heap
  | some stream => { heap with givenBack := heap.givenBack ++ [(stream, how)] }

/-- The entries that the reply is packed with. -/
def reply (heap : Heap) : List (Option ReplyEntry) := heap.dirEntries.take heap.nDirEntries

/-- `safe_free(dirp)` and `cleanup_listdir` -/
def error (heap : Heap) : Heap := { heap.giveBack .freed with dirp := none, dirEntries := [] }

end Heap

/-! ## The routine -/

/-- What the routine returns. -/
inductive Status
  | success
  | protocolError
  | serverError
  deriving DecidableEq, Repr

/-- `CHECK`, which goes to the label `error` -/
def check (p : Prop) [Decidable p] : Effect Heap Unit Unit := raiseIf (¬ p) ()

/-- `opendir` -/
def opendir : Option Pass → Effect Heap Unit (Option (List DirEntry))
  | none => do
      modify fun heap => { heap with dirp := none }
      return none
  | some pass => do
      modify fun heap => { heap with opened := heap.opened + 1, dirp := some heap.opened }
      return some pass.entries

/-- `CHECK(closedir(dirp) == 0); dirp = NULL;` -/
def closedir (closes : Bool) : Effect Heap Unit Unit := do
  modify (Heap.giveBack (if closes = true then .closed else .closeFailed))
  -- `dirp` still holds the stream if this check fails
  check (closes = true)
  modify fun heap => { heap with dirp := none }

section Routine

variable (host : Host)

/-- A round of the second pass. -/
def addEntry (path : String) (idx : ℕ) (entry : DirEntry) : Effect Heap Unit Unit := do
  check (PathFits host.platform path entry.dName)
  check ((host.entryAlloc idx).dEntry = true ∧ (host.entryAlloc idx).sStat = true ∧
    (host.entryAlloc idx).lStat = true)
  -- the entry and its records are only leaked if this fails; the stream is left open
  check ((host.entryAlloc idx).dName = true)
  let dEntry := { ReplyEntry.init with
    dType := entry.dType
    dName := some entry.dName
    stat := some entry.stat
    lstat := some entry.lstat }
  modify fun heap => { heap with
    dirEntries := heap.dirEntries.set idx (some dEntry)
    nDirEntries := idx + 1 }

/-- The loop of the second pass. -/
def addEntries (path : String) (entryCount : ℕ) : ℕ → List DirEntry → Effect Heap Unit Unit
  | _, [] => pure ()
  | idx, entry :: rest =>
      if idx < entryCount then do
        addEntry host path idx entry
        addEntries path entryCount (idx + 1) rest
      else pure ()

/-- The second pass. -/
def populate (path : String) (entryCount : ℕ) : Effect Heap Unit Status := do
  check (host.arrayAlloc = true)
  modify fun heap => { heap with dirEntries := List.replicate entryCount none }
  match ← opendir host.second with
  | none => raise ()
  | some entries => do
      addEntries host path entryCount 0 entries
      closedir host.secondClosed
      return .success

/-- The routine up to the label `error`. -/
def passes : Option String → Effect Heap Unit Status
  | none => raise ()
  | some path => do
      check (path ≠ "")
      match ← opendir host.first with
      | none => return .protocolError
      | some counted => do
          closedir host.firstClosed
          -- a null array
          modify fun heap => { heap with dirEntries := [], nDirEntries := 0 }
          if counted.length = 0 then return .success
          else populate host path counted.length

/-- How the routine returns, by itself or by the label `error`. -/
def leave : Except Unit Status × Heap → Status × Heap
  | (.ok status, heap) => (status, heap)
  -- with whatever stream is in `dirp`
  | (.error (), heap) => (.serverError, heap.error)

/-- `routine_listdir` -/
def routineListdir (path : Option String) : Status × Heap :=
  leave ((do check (host.replyAlloc = true); passes host path) {})

end Routine

/-! ## What is asked of it -/

/-- Each stream has been given back once, by a `closedir` that succeeds. -/
def ClosedOnce (opened : ℕ) (givenBack : List (ℕ × GiveBack)) : Prop :=
  ∀ stream < opened, givenBack.filter (fun g => g.1 = stream) = [(stream, .closed)]

instance (opened : ℕ) : DecidablePred (ClosedOnce opened) :=
  fun _ => inferInstanceAs (Decidable (∀ _ < _, _))

/-- The streams are released, and a reply that success is reported with holds built entries,
with different names. -/
structure Releases (outcome : Status × Heap) : Prop where
  closedOnce : ClosedOnce outcome.2.opened outcome.2.givenBack
  built : outcome.1 = .success →
    ∃ entries : List ReplyEntry, outcome.2.reply = entries.map some ∧
      (∀ e ∈ entries, e.FullyBuilt) ∧ (entries.map ReplyEntry.dName).Nodup

/-- The path of an entry fits, and its round has the memory it needs. -/
def RoundPasses (host : Host) (path : String) (idx : ℕ) (entry : DirEntry) : Prop :=
  PathFits host.platform path entry.dName ∧ host.entryAlloc idx = ⟨true, true, true, true⟩

/-- The rounds of the second pass, from one on, are without a fault. -/
def RoundsPass (host : Host) (path : String) (entryCount idx : ℕ) (entries : List DirEntry) :
    Prop :=
  ∀ i entry, entries[i]? = some entry → idx + i < entryCount →
    RoundPasses host path (idx + i) entry

/-- No check fails while a stream is open: the first `closedir` succeeds where the directory
opens, and where it is opened again the rounds and the second `closedir` do. -/
def Orderly (host : Host) : Option String → Prop
  | none => True
  | some path =>
      host.replyAlloc = true → path ≠ "" → ∀ counted, host.first = some counted →
        host.firstClosed = true ∧
          (counted.entries ≠ [] → host.arrayAlloc = true → ∀ pass, host.second = some pass →
            RoundsPass host path counted.entries.length 0 pass.entries ∧
              host.secondClosed = true)

variable {host : Host} {path : String} {entry : DirEntry} {entries done : List DirEntry}
  {entryCount idx : ℕ} {s : Heap} {p : Prop} {status : Status}

/-! ## The steps -/

theorem check_of [Decidable p] (h : p) (s : Heap) : check p s = (.ok (), s) :=
  raiseIf_of_not (not_not.mpr h) () s

theorem check_of_not [Decidable p] (h : ¬ p) (s : Heap) : check p s = (.error (), s) :=
  raiseIf_of h () s

theorem closedir_true (s : Heap) :
    closedir true s = (.ok (), { s.giveBack .closed with dirp := none }) := rfl

theorem closedir_false (s : Heap) : closedir false s = (.error (), s.giveBack .closeFailed) := rfl

/-- What is made of an entry of the directory. -/
def ReplyEntry.of (entry : DirEntry) : ReplyEntry :=
  ⟨some entry.dName, entry.dType, some entry.stat, some entry.lstat⟩

theorem ReplyEntry.fullyBuilt_of (entry : DirEntry) : (ReplyEntry.of entry).FullyBuilt :=
  ⟨rfl, rfl, rfl⟩

/-- A round that passes adds its entry. -/
theorem addEntry_of_passes (h : RoundPasses host path idx entry) (s : Heap) :
    addEntry host path idx entry s =
      (.ok (), { s with
        dirEntries := s.dirEntries.set idx (some (.of entry))
        nDirEntries := idx + 1 }) := by
  obtain ⟨hfits, halloc⟩ := h
  rw [addEntry, halloc, bind_of_ok (check_of hfits s), bind_of_ok (check_of ⟨rfl, rfl, rfl⟩ s),
    bind_of_ok (check_of rfl s)]
  rfl

/-- A round with a fault leaves the heap as it is. -/
theorem addEntry_of_not (h : ¬ RoundPasses host path idx entry) (s : Heap) :
    addEntry host path idx entry s = (.error (), s) := by
  rw [addEntry]
  by_cases hfits : PathFits host.platform path entry.dName
  · rw [bind_of_ok (check_of hfits s)]
    by_cases hblocks : (host.entryAlloc idx).dEntry = true ∧ (host.entryAlloc idx).sStat = true ∧
        (host.entryAlloc idx).lStat = true
    · rw [bind_of_ok (check_of hblocks s)]
      apply bind_of_error
      apply check_of_not
      intro hname
      obtain ⟨hdEntry, hsStat, hlStat⟩ := hblocks
      exact h ⟨hfits, EntryAlloc.ext hdEntry hsStat hlStat hname⟩
    · exact bind_of_error (check_of_not hblocks s)
  · exact bind_of_error (check_of_not hfits s)

/-! ## The second pass -/

/-- The heap when the array has been filled with some entries. -/
def Heap.filled (s : Heap) (entryCount : ℕ) (done : List DirEntry) : Heap :=
  { s with
    dirEntries :=
      done.map (fun entry => some (.of entry)) ++ List.replicate (entryCount - done.length) none
    nDirEntries := done.length }

theorem addEntry_filled (hlt : done.length < entryCount)
    (h : RoundPasses host path done.length entry) :
    addEntry host path done.length entry (s.filled entryCount done) =
      (.ok (), s.filled entryCount (done ++ [entry])) := by
  have hleft : entryCount - done.length = entryCount - (done.length + 1) + 1 := by omega
  rw [addEntry_of_passes h, Heap.filled, Heap.filled, List.length_append, List.length_singleton,
    hleft, List.replicate_succ]
  congr 2
  simp only [List.map_append, List.set_append, List.length_map, lt_irrefl, if_false,
    Nat.sub_self, List.set_cons_zero, List.map_cons, List.map_nil, List.append_assoc,
    List.singleton_append]

/-- When the places are filled no round can fail. -/
theorem roundsPass_of_le (hle : entryCount ≤ idx) : RoundsPass host path entryCount idx entries :=
  fun i _ _ hlt => absurd hlt (by omega)

/-- Rounds pass if the first one does and the others do. -/
theorem roundsPass_cons_iff (hlt : idx < entryCount) :
    RoundsPass host path entryCount idx (entry :: entries) ↔
      RoundPasses host path idx entry ∧ RoundsPass host path entryCount (idx + 1) entries := by
  constructor
  · intro h
    refine ⟨h 0 entry rfl hlt, fun i e hget hi => ?_⟩
    have := h (i + 1) e hget (by omega)
    rwa [show idx + (i + 1) = idx + 1 + i by omega] at this
  · rintro ⟨hfirst, hrest⟩ (_ | i) e hget hi
    · cases hget
      exact hfirst
    · have := hrest i e hget (by omega)
      rwa [show idx + 1 + i = idx + (i + 1) by omega] at this

/-- Rounds without a fault fill the array, at most up to its size. -/
theorem addEntries_of_pass (h : RoundsPass host path entryCount done.length entries) :
    addEntries host path entryCount done.length entries (s.filled entryCount done) =
      (.ok (), s.filled entryCount (done ++ entries.take (entryCount - done.length))) := by
  induction entries generalizing done with
  | nil =>
    rw [List.take_nil, List.append_nil]
    rfl
  | cons entry rest ih =>
    by_cases hlt : done.length < entryCount
    · obtain ⟨hfirst, hrest⟩ := (roundsPass_cons_iff hlt).mp h
      have hlength : (done ++ [entry]).length = done.length + 1 := List.length_append
      have hleft : entryCount - done.length = entryCount - (done.length + 1) + 1 := by omega
      rw [addEntries, if_pos hlt, bind_of_ok (addEntry_filled hlt hfirst), ← hlength,
        ih (hlength ▸ hrest), hlength, hleft, List.take_succ_cons, List.append_assoc,
        List.singleton_append]
    · rw [addEntries, if_neg hlt, Nat.sub_eq_zero_of_le (Nat.le_of_not_lt hlt), List.take_zero,
        List.append_nil]
      rfl

/-- A round with a fault ends the loop with the stream still open. -/
theorem addEntries_of_not (h : ¬ RoundsPass host path entryCount done.length entries) :
    ∃ done', addEntries host path entryCount done.length entries (s.filled entryCount done) =
      (.error (), s.filled entryCount done') := by
  induction entries generalizing done with
  | nil => exact absurd (fun _ _ hget => by cases hget) h
  | cons entry rest ih =>
    have hlt : done.length < entryCount := by
      by_contra hnot
      exact h (roundsPass_of_le (Nat.le_of_not_lt hnot))
    rw [addEntries, if_pos hlt]
    by_cases hfirst : RoundPasses host path done.length entry
    · have hrest : ¬ RoundsPass host path entryCount (done ++ [entry]).length rest := by
        rw [List.length_append]
        exact fun hrest => h ((roundsPass_cons_iff hlt).mpr ⟨hfirst, hrest⟩)
      obtain ⟨done', hdone'⟩ := ih hrest
      rw [List.length_append] at hdone'
      exact ⟨done', by rw [bind_of_ok (addEntry_filled hlt hfirst)]; exact hdone'⟩
    · exact ⟨done, bind_of_error (addEntry_of_not hfirst _)⟩

/-! ## The outcome -/

/-- Of a failure it is only asked that the streams are closed. -/
theorem releases_of_failure {heap : Heap} (h : ClosedOnce heap.opened heap.givenBack)
    (hne : status ≠ .success) : Releases (status, heap) :=
  ⟨h, fun hsuccess => absurd hsuccess hne⟩

/-- The heap when the first stream has been closed. -/
def closedFirst : Heap := { opened := 1, givenBack := [(0, .closed)] }

/-- The heap with the second stream open, when the array has been filled with some entries. -/
def filling (entryCount : ℕ) (done : List DirEntry) : Heap :=
  { opened := 2, givenBack := [(0, .closed)], dirp := some 1 : Heap }.filled entryCount done

/-- The reply holds the entries so far. -/
theorem reply_filling (entryCount : ℕ) (done : List DirEntry) :
    (filling entryCount done).reply = (done.map ReplyEntry.of).map some := by
  rw [Heap.reply, filling, Heap.filled, List.map_map]
  exact List.take_left' (List.length_map _)

theorem addEntries_filling (h : RoundsPass host path entryCount 0 entries) :
    addEntries host path entryCount 0 entries (filling entryCount []) =
      (.ok (), filling entryCount (entries.take entryCount)) :=
  addEntries_of_pass
    (show RoundsPass host path entryCount ([] : List DirEntry).length entries from h)

theorem closedOnce_none : ClosedOnce 0 [] := by decide

theorem closedOnce_first : ClosedOnce 1 [(0, .closed)] := by decide

theorem closedOnce_both : ClosedOnce 2 [(0, .closed), (1, .closed)] := by decide

/-- A stream that is given back in any other way has not been closed once. -/
theorem not_closedOnce_of_mem {opened stream : ℕ} {givenBack : List (ℕ × GiveBack)}
    {how : GiveBack} (hopened : stream < opened) (hmem : (stream, how) ∈ givenBack)
    (hne : how ≠ .closed) : ¬ ClosedOnce opened givenBack := by
  intro hclosed
  have hfilter : (stream, how) ∈ givenBack.filter fun g => g.1 = stream :=
    List.mem_filter.mpr ⟨hmem, decide_eq_true rfl⟩
  rw [hclosed stream hopened, List.mem_singleton, Prod.mk.injEq] at hfilter
  exact hne hfilter.2

/-- The second pass from where its stream is open. -/
theorem populate_of_open {pass : Pass} (harray : host.arrayAlloc = true)
    (hsecond : host.second = some pass) :
    populate host path entryCount closedFirst =
      (do
        addEntries host path entryCount 0 pass.entries
        closedir host.secondClosed
        return Status.success : Effect Heap Unit Status) (filling entryCount []) := by
  rw [populate, bind_of_ok (check_of harray _), modify_bind, hsecond]
  exact bind_of_ok rfl

/-- A directory that cannot be opened again fails. -/
theorem populate_of_unopened (harray : host.arrayAlloc = true) (hsecond : host.second = none) :
    populate host path entryCount closedFirst =
      (.error (), { closedFirst with dirEntries := List.replicate entryCount none }) := by
  rw [populate, bind_of_ok (check_of harray _), modify_bind, hsecond]
  rfl

theorem populate_of_pass {pass : Pass} (harray : host.arrayAlloc = true)
    (hsecond : host.second = some pass)
    (hrounds : RoundsPass host path entryCount 0 pass.entries)
    (hclosed : host.secondClosed = true) :
    populate host path entryCount closedFirst =
      (.ok .success, { filling entryCount (pass.entries.take entryCount) with
        givenBack := [(0, .closed), (1, .closed)]
        dirp := none }) := by
  rw [populate_of_open harray hsecond, bind_of_ok (addEntries_filling hrounds), hclosed,
    bind_of_ok (closedir_true _)]
  rfl

/-- A fault of the second pass leaves its stream to be freed. -/
theorem populate_of_not {pass : Pass} (harray : host.arrayAlloc = true)
    (hsecond : host.second = some pass)
    (h : ¬ (RoundsPass host path entryCount 0 pass.entries ∧ host.secondClosed = true)) :
    ∃ done givenBack, populate host path entryCount closedFirst =
      (.error (), { filling entryCount done with givenBack := givenBack }) := by
  rw [populate_of_open harray hsecond]
  by_cases hrounds : RoundsPass host path entryCount 0 pass.entries
  · have hclosed : host.secondClosed = false :=
      Bool.eq_false_iff.mpr fun hclosed => h ⟨hrounds, hclosed⟩
    refine ⟨pass.entries.take entryCount, [(0, .closed), (1, .closeFailed)], ?_⟩
    rw [bind_of_ok (addEntries_filling hrounds), hclosed]
    exact bind_of_error (closedir_false _)
  · obtain ⟨done, hloop⟩ : ∃ done,
        addEntries host path entryCount 0 pass.entries (filling entryCount []) =
          (.error (), filling entryCount done) :=
      addEntries_of_not (show ¬ RoundsPass host path entryCount ([] : List DirEntry).length
        pass.entries from hrounds)
    exact ⟨done, [(0, .closed)], bind_of_error hloop⟩

/-- A reply that is filled is as it should be. -/
theorem releases_filling {pass : Pass} {heap : Heap}
    (hclosed : ClosedOnce heap.opened heap.givenBack)
    (hreply : heap.reply = ((pass.entries.take entryCount).map ReplyEntry.of).map some) :
    Releases (status, heap) := by
  refine ⟨hclosed, fun _ => ⟨_, hreply, ?_, ?_⟩⟩
  · intro e he
    obtain ⟨entry, -, rfl⟩ := List.mem_map.mp he
    exact ReplyEntry.fullyBuilt_of entry
  · have hnames : ((pass.entries.take entryCount).map ReplyEntry.of).map ReplyEntry.dName =
        ((pass.entries.map DirEntry.dName).take entryCount).map some := by
      rw [← List.map_take, List.map_map, List.map_map]
      rfl
    rw [hnames]
    apply List.Nodup.map (Option.some_injective _)
    exact pass.nodup.sublist (List.take_sublist _ _)

/-- When the second pass is as it should be. -/
theorem populate_releases_iff (host : Host) (path : String) (entryCount : ℕ) :
    Releases (leave (populate host path entryCount closedFirst)) ↔
      (host.arrayAlloc = true → ∀ pass, host.second = some pass →
        RoundsPass host path entryCount 0 pass.entries ∧ host.secondClosed = true) := by
  by_cases harray : host.arrayAlloc = true
  · rcases hsecond : host.second with _ | pass
    · rw [populate_of_unopened harray hsecond]
      constructor
      · intro _ _ pass hpass
        cases hpass
      · exact fun _ => releases_of_failure closedOnce_first Status.noConfusion
    · by_cases hpass : RoundsPass host path entryCount 0 pass.entries ∧ host.secondClosed = true
      · rw [populate_of_pass harray hsecond hpass.1 hpass.2]
        constructor
        · rintro - - pass' ⟨⟩
          exact hpass
        · exact fun _ => releases_filling closedOnce_both (reply_filling _ _)
      · obtain ⟨done, givenBack, hrun⟩ := populate_of_not harray hsecond hpass
        rw [hrun]
        constructor
        · intro hreleases
          -- `dirp` still holds the second stream at the label `error`
          have hfreed : (1, GiveBack.freed) ∈ givenBack ++ [(1, GiveBack.freed)] :=
            List.mem_append_right _ List.mem_cons_self
          exact absurd hreleases.closedOnce
            (not_closedOnce_of_mem Nat.one_lt_two hfreed GiveBack.noConfusion)
        · exact fun h => absurd (h harray pass rfl) hpass
  · have hrun : populate host path entryCount closedFirst = (.error (), closedFirst) := by
      rw [populate, bind_of_error (check_of_not harray _)]
    rw [hrun]
    exact ⟨fun _ h => absurd h harray,
      fun _ => releases_of_failure closedOnce_first Status.noConfusion⟩

/-- A directory that cannot be opened is a protocol error. -/
theorem passes_of_unopened (hpath : path ≠ "") (hfirst : host.first = none) :
    passes host (some path) {} = (.ok .protocolError, {}) := by
  rw [passes, bind_of_ok (check_of hpath _), hfirst]
  rfl

/-- The first pass from where its stream is open. -/
theorem passes_of_open {counted : Pass} (hpath : path ≠ "") (hfirst : host.first = some counted) :
    passes host (some path) {} =
      (do
        closedir host.firstClosed
        modify fun heap => { heap with dirEntries := [], nDirEntries := 0 }
        if counted.entries.length = 0 then return Status.success
        else populate host path counted.entries.length : Effect Heap Unit Status)
      { opened := 1, dirp := some 0 } := by
  rw [passes, bind_of_ok (check_of hpath _), hfirst]
  exact bind_of_ok rfl

theorem passes_of_closed {counted : Pass} (hpath : path ≠ "") (hfirst : host.first = some counted)
    (hclosed : host.firstClosed = true) :
    passes host (some path) {} =
      (if counted.entries.length = 0 then pure .success
        else populate host path counted.entries.length) closedFirst := by
  rw [passes_of_open hpath hfirst, hclosed, bind_of_ok (closedir_true _), modify_bind]
  rfl

/-- A stream whose `closedir` fails is still in `dirp` at the label `error`. -/
theorem not_releases_of_closeFailed {counted : Pass} (hpath : path ≠ "")
    (hfirst : host.first = some counted) (hclosed : host.firstClosed = false) :
    ¬ Releases (leave (passes host (some path) {})) := by
  intro hreleases
  rw [passes_of_open hpath hfirst, hclosed, bind_of_error (closedir_false _)] at hreleases
  have hfreed : (0, GiveBack.freed) ∈ [(0, GiveBack.closeFailed), (0, .freed)] :=
    List.mem_cons_of_mem _ List.mem_cons_self
  exact not_closedOnce_of_mem Nat.one_pos hfreed GiveBack.noConfusion hreleases.closedOnce

theorem passes_releases_iff_of_closed {counted : Pass} (hpath : path ≠ "")
    (hfirst : host.first = some counted) (hclosed : host.firstClosed = true) :
    Releases (leave (passes host (some path) {})) ↔
      (counted.entries ≠ [] → host.arrayAlloc = true → ∀ pass, host.second = some pass →
        RoundsPass host path counted.entries.length 0 pass.entries ∧
          host.secondClosed = true) := by
  rw [passes_of_closed hpath hfirst hclosed]
  by_cases hempty : counted.entries.length = 0
  · rw [if_pos hempty]
    refine iff_of_true ⟨closedOnce_first, fun _ => ?_⟩ fun hne =>
      absurd (List.eq_nil_of_length_eq_zero hempty) hne
    exact ⟨[], rfl, List.forall_mem_nil _, List.nodup_nil⟩
  · have hne : counted.entries ≠ [] := fun hnil => hempty (by rw [hnil, List.length_nil])
    rw [if_neg hempty, populate_releases_iff]
    exact ⟨fun h _ => h, fun h => h hne⟩

/-- When both passes are as they should be. -/
theorem passes_releases_iff (hreply : host.replyAlloc = true) (path : String) :
    Releases (leave (passes host (some path) {})) ↔ Orderly host (some path) := by
  by_cases hpath : path ≠ ""
  · rcases hfirst : host.first with _ | counted
    · rw [passes_of_unopened hpath hfirst]
      apply iff_of_true (releases_of_failure closedOnce_none Status.noConfusion)
      intro _ _ counted hcounted
      cases hfirst.symm.trans hcounted
    · have horderly : Orderly host (some path) ↔ host.firstClosed = true ∧
          (counted.entries ≠ [] → host.arrayAlloc = true → ∀ pass, host.second = some pass →
            RoundsPass host path counted.entries.length 0 pass.entries ∧
              host.secondClosed = true) := by
        constructor
        · exact fun h => h hreply hpath counted hfirst
        · intro h _ _ counted' hcounted
          cases hfirst.symm.trans hcounted
          exact h
      rw [horderly]
      cases hclosed : host.firstClosed with
      | false =>
        exact iff_of_false (not_releases_of_closeFailed hpath hfirst hclosed)
          fun h => Bool.noConfusion h.1
      | true =>
        rw [passes_releases_iff_of_closed hpath hfirst hclosed]
        exact (and_iff_right rfl).symm
  · rw [passes, bind_of_error (check_of_not hpath _)]
    exact iff_of_true (releases_of_failure closedOnce_none Status.noConfusion)
      fun _ h => absurd h hpath

/-- With its record the routine makes both passes. -/
theorem routineListdir_of_reply (hreply : host.replyAlloc = true) (path : Option String) :
    routineListdir host path = leave (passes host path {}) := by
  rw [routineListdir, bind_of_ok (check_of hreply _)]

/-- **Releasing.** A listing closes each stream that it opens once, and succeeds with built
entries of different names only, exactly when no check fails while a stream is open. -/
theorem releases_iff_orderly (host : Host) (path : Option String) :
    Releases (routineListdir host path) ↔ Orderly host path := by
  by_cases hreply : host.replyAlloc = true
  · rw [routineListdir_of_reply hreply]
    cases path with
    | none =>
      exact ⟨fun _ => trivial, fun _ => releases_of_failure closedOnce_none Status.noConfusion⟩
    | some path => exact passes_releases_iff hreply path
  · rw [routineListdir, bind_of_error (check_of_not hreply _)]
    have hreleases : Releases (leave (.error (), {})) :=
      releases_of_failure closedOnce_none Status.noConfusion
    cases path with
    | none => exact ⟨fun _ => trivial, fun _ => hreleases⟩
    | some path => exact ⟨fun _ h => absurd h hreply, fun _ => hreleases⟩

/-- A path of slashes, which leads to the root. -/
def slashes : ℕ → String
  | 0 => ""
  | n + 1 => slashes n ++ "/"

theorem utf8ByteSize_slashes (n : ℕ) : (slashes n).utf8ByteSize = n := by
  induction n with
  | zero => rfl
  | succ n ih =>
    have hslash : "/".utf8ByteSize = 1 := rfl
    rw [slashes, String.utf8ByteSize_append, ih, hslash]

/-- A root directory with one entry more than every directory has. -/
def rootPass : Pass where
  entries := [⟨".", 4, ⟨0, 0o40755⟩, ⟨0, 0o40755⟩⟩, ⟨"..", 4, ⟨0, 0o40755⟩, ⟨0, 0o40755⟩⟩,
    ⟨"bin", 4, ⟨0, 0o40755⟩, ⟨0, 0o40755⟩⟩]
  nodup := by decide

/-- No call fails. -/
def rootHost : Host where
  platform := .linux
  replyAlloc := true
  first := some rootPass
  firstClosed := true
  arrayAlloc := true
  second := some rootPass
  entryAlloc := fun _ => ⟨true, true, true, true⟩
  secondClosed := true

/-- Behind 4092 slashes the path of `bin` does not fit, and the stream is not closed. -/
theorem not_releases_root : ¬ Releases (routineListdir rootHost (some (slashes 4092))) := by
  rw [routineListdir_of_reply rfl, passes_releases_iff rfl]
  intro horderly
  have hpath : slashes 4092 ≠ "" := by
    intro hnil
    have hsize := utf8ByteSize_slashes 4092
    rw [hnil] at hsize
    exact absurd hsize (by decide)
  obtain ⟨-, hsecond⟩ := horderly rfl hpath rootPass rfl
  have hrounds := (hsecond (List.cons_ne_nil _ _) rfl rootPass rfl).1
  have hbin : PathFits .linux (slashes 4092) "bin" :=
    (hrounds 2 ⟨"bin", 4, ⟨0, 0o40755⟩, ⟨0, 0o40755⟩⟩ rfl (by decide)).1
  rw [PathFits, utf8ByteSize_slashes] at hbin
  exact absurd hbin (by decide)

/-! ## The listing -/

/-- What the client is answered with. -/
def answer : Status × Heap → Except RoutineError (List (Option ReplyEntry))
  | (.success, heap) => .ok heap.reply
  | (.protocolError, _) => .error .protocolError
  | (.serverError, _) => .error .serverError

/-- No allocation and no `closedir` fails. -/
structure Host.Unfailing (host : Host) : Prop where
  replyAlloc : host.replyAlloc = true
  firstClosed : host.firstClosed = true
  arrayAlloc : host.arrayAlloc = true
  entryAlloc : ∀ idx, host.entryAlloc idx = ⟨true, true, true, true⟩
  secondClosed : host.secondClosed = true

/-- Where nothing fails the lengths of the paths decide. -/
theorem roundsPass_iff_of_unfailing (h : host.Unfailing) :
    RoundsPass host path entryCount 0 entries ↔
      ∀ entry ∈ entries.take entryCount, PathFits host.platform path entry.dName := by
  constructor
  · intro hrounds entry hmem
    obtain ⟨i, hget⟩ := List.mem_iff_getElem?.mp hmem
    rw [List.getElem?_take] at hget
    split at hget
    · next hlt => exact (hrounds i entry hget (by omega)).1
    · cases hget
  · intro hfits i entry hget hlt
    refine ⟨hfits entry (List.mem_iff_getElem?.mpr ⟨i, ?_⟩), h.entryAlloc _⟩
    rw [List.getElem?_take, if_pos (by omega), hget]

/-- What the second pass answers there. -/
theorem answer_populate (h : host.Unfailing) (path : String) (entryCount : ℕ) :
    answer (leave (populate host path entryCount closedFirst)) =
      Except.map (fun entries => (entries.map ReplyEntry.of).map some)
        (match host.second.map Pass.entries with
        | none => .error .serverError
        | some entries => (entries.take entryCount).mapM (forwardEntry host.platform path)) := by
  rcases hsecond : host.second with _ | pass
  · rw [populate_of_unopened h.arrayAlloc hsecond]
    rfl
  dsimp only [Option.map_some]
  rw [mapM_forwardEntry]
  by_cases hfits : ∀ entry ∈ pass.entries.take entryCount, PathFits host.platform path entry.dName
  · rw [if_pos hfits, populate_of_pass h.arrayAlloc hsecond
      ((roundsPass_iff_of_unfailing h).mpr hfits) h.secondClosed]
    exact congrArg Except.ok (reply_filling _ _)
  · obtain ⟨done, givenBack, hrun⟩ := populate_of_not h.arrayAlloc hsecond
      fun hpass => hfits ((roundsPass_iff_of_unfailing h).mp hpass.1)
    rw [if_neg hfits, hrun]
    rfl

/-- Where only the directory can be at fault, the answer is the listing of its entries. -/
theorem answer_routineListdir (h : host.Unfailing) (path : String) :
    answer (routineListdir host (some path)) =
      (Files.routineListdir host.platform path (host.first.map Pass.entries)
        (host.second.map Pass.entries)).map
          fun entries => (entries.map ReplyEntry.of).map some := by
  rw [routineListdir_of_reply h.replyAlloc, Files.routineListdir.eq_def]
  by_cases hpath : path = ""
  · rw [passes, bind_of_error (check_of_not (not_not.mpr hpath) _), if_pos hpath]
    rfl
  rw [if_neg hpath]
  rcases hfirst : host.first with _ | counted
  · rw [passes_of_unopened hpath hfirst]
    rfl
  rw [passes_of_closed hpath hfirst h.firstClosed, Option.map_some]
  dsimp only
  by_cases hempty : counted.entries.length = 0
  · rw [if_pos hempty, if_pos hempty]
    rfl
  · rw [if_neg hempty, if_neg hempty]
    exact answer_populate h path counted.entries.length

end RpcProject.Server.ListDir
