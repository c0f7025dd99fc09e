/-
# Preference dictionaries

`SCPreference` works on a handle, which holds a copy of the stored dictionary. Its
writes change the copy, a commit stores the copy, and a later commit also stores what
an earlier method has left in it. `CFPreferences` works on the stored dictionary.

Both replace a dictionary by removing its keys one by one and then setting the new
entries one by one. Every call on the way may fail, and so may the serialisation of a
value. A call may also raise after the device has executed it, when its reply is lost
or the task that waits for it is cancelled. A plan of faults says which calls do what;
within one method no call is made twice.

To replace a dictionary ought to be all or nothing. It is exactly when a fault leaves
the old dictionary in place: before a key has been removed, or when the entries that
have been set make it up again, or when the new dictionary is the old one.
-/

import RpcProject.Foundations.DictWrites
import RpcProject.Foundations.Effects

namespace RpcProject.Client

open Foundations Effect Dict

variable {K V : Type}

/-! ## Calls -/

/-- The calls of a method. `cf` serialises a key or a value on the device. -/
inductive PrefCall (K V : Type)
  | copyKeyList
  | cfKeyToRemove (k : K)
  | removeValue (k : K)
  | cfKeyToSet (k : K)
  | cfValue (k : K) (v : V)
  | setValue (k : K) (v : V)
  | commitChanges
  | synchronize
  deriving DecidableEq, Repr

/-- A call raises, or its result makes the method raise, or the device executes it and
the reply does not get back. -/
inductive PrefFault
  | raises
  | refuses
  | replyLost
  deriving DecidableEq, Repr

/-- What the methods raise: the fault of a call, or that a preference is missing. -/
inductive PrefError (K V : Type)
  | fault (call : PrefCall K V) (fault : PrefFault)
  | noSuchPreference
  deriving DecidableEq, Repr

/-- A plan of faults. -/
abbrev Faults (K V : Type) := PrefCall K V → Option PrefFault

variable {σ : Type} {faults : Faults K V}

/-- What a failed call leaves behind. -/
def PrefFault.leaves (fault : PrefFault) (effect : σ → σ) (s : σ) : σ :=
  match fault with
  | .raises => s
  | .refuses => s
  | .replyLost => effect s

/-- A call takes effect unless it fails, and may also when it fails. -/
def perform (faults : Faults K V) (call : PrefCall K V) (effect : σ → σ) :
    Effect σ (PrefError K V) Unit :=
  match faults call with
  | none => modify effect
  | some fault => do
      modify (fault.leaves effect)
      raise (.fault call fault)

variable {call : PrefCall K V} {effect : σ → σ} {s t : σ} {k : K} {v : V}

/-- A call without a fault has its effect and returns. -/
theorem perform_of_none (h : faults call = none) (effect : σ → σ) (s : σ) :
    perform faults call effect s = (.ok (), effect s) := by
  rw [perform, h]
  rfl

/-- The program raises on account of a fault and leaves this state behind. -/
def FaultsTo (m : Effect σ (PrefError K V) Unit) (s t : σ) : Prop :=
  ∃ call fault, m s = (.error (.fault call fault), t)

/-- A call with a fault raises, and leaves what the fault lets through. -/
theorem perform_of_some {fault : PrefFault} (h : faults call = some fault) (effect : σ → σ)
    (s : σ) :
    perform faults call effect s = (.error (.fault call fault), fault.leaves effect s) := by
  rw [perform, h]
  rfl

/-- A call without an effect leaves the state as it is. -/
theorem PrefFault.leaves_id (fault : PrefFault) (s : σ) : fault.leaves id s = s := by
  cases fault <;> rfl

/-- A call without an effect of its own changes nothing when it fails. -/
theorem perform_id_of_ne (h : faults call ≠ none) (s : σ) :
    FaultsTo (perform faults call id) s s := by
  obtain ⟨fault, hfault⟩ := Option.ne_none_iff_exists'.mp h
  refine ⟨call, fault, ?_⟩
  rw [perform_of_some hfault, fault.leaves_id]

/-- A call with a fault raises. It has had its effect just if the reply was lost. -/
theorem perform_of_ne (h : faults call ≠ none) (effect : σ → σ) (s : σ) :
    FaultsTo (perform faults call effect) s
      (if faults call = some .replyLost then effect s else s) := by
  obtain ⟨fault, hfault⟩ := Option.ne_none_iff_exists'.mp h
  refine ⟨call, fault, ?_⟩
  rw [perform_of_some hfault, hfault]
  cases fault <;> rfl

/-- A call that returns has had its effect. -/
theorem perform_eq_ok (h : perform faults call effect s = (.ok (), t)) : t = effect s := by
  by_cases hnone : faults call = none
  · rw [perform_of_none hnone] at h
    exact (Prod.mk.inj h).2.symm
  · obtain ⟨_, _, hfault⟩ := perform_of_ne hnone effect s
    cases hfault.symm.trans h

/-- What comes after such a call starts from there. -/
theorem perform_bind_eq_ok {m : Effect σ (PrefError K V) Unit}
    (h : (perform faults call effect >>= fun _ => m) s = (.ok (), t)) :
    m (effect s) = (.ok (), t) := by
  obtain ⟨⟨⟩, u, hfirst, hrest⟩ := bind_eq_ok_iff.mp h
  rwa [perform_eq_ok hfirst] at hrest

/-- The calls that set a value. -/
def setting (faults : Faults K V) (k : K) (v : V) (effect : σ → σ) :
    Effect σ (PrefError K V) Unit := do
  perform faults (.cfKeyToSet k) id
  perform faults (.cfValue k v) id
  perform faults (.setValue k v) effect

/-- The calls that remove a key return. -/
def Removes (faults : Faults K V) (k : K) : Prop :=
  faults (.cfKeyToRemove k) = none ∧ faults (.removeValue k) = none

/-- The calls that set an entry return. -/
def Sets (faults : Faults K V) (entry : Sigma fun _ : K => V) : Prop :=
  faults (.cfKeyToSet entry.1) = none ∧ faults (.cfValue entry.1 entry.2) = none ∧
    faults (.setValue entry.1 entry.2) = none

/-- The keys that are gone when the removal of a key has failed: this one, when only the
reply to its removal has been lost. -/
def goneUnheard (faults : Faults K V) (k : K) : List K :=
  if faults (.cfKeyToRemove k) = none ∧ faults (.removeValue k) = some .replyLost then [k] else []

/-- The entries that are set when setting an entry has failed. -/
def setUnheard (faults : Faults K V) (entry : Sigma fun _ : K => V) : List (Sigma fun _ : K => V) :=
  if faults (.cfKeyToSet entry.1) = none ∧ faults (.cfValue entry.1 entry.2) = none ∧
    faults (.setValue entry.1 entry.2) = some .replyLost then [entry] else []

/-- A key that is gone unheard is the one that was being removed. -/
theorem eq_of_mem_goneUnheard {j : K} (h : j ∈ goneUnheard faults k) : j = k := by
  rw [goneUnheard] at h
  split at h
  · exact List.mem_singleton.mp h
  · cases h

/-- An entry whose calls have no fault is set. -/
theorem setting_of_sets (h : Sets faults ⟨k, v⟩) (effect : σ → σ) (s : σ) :
    setting faults k v effect s = (.ok (), effect s) := by
  obtain ⟨hkey, hvalue, hset⟩ := h
  rw [setting, bind_of_ok (perform_of_none hkey id s), bind_of_ok (perform_of_none hvalue id _),
    perform_of_none hset]
  rfl

/-- An entry that cannot be set may have been set. -/
theorem setting_of_not_sets (h : ¬Sets faults ⟨k, v⟩) (effect : σ → σ) (s : σ) :
    FaultsTo (setting faults k v effect) s
      (if (setUnheard faults ⟨k, v⟩).isEmpty then s else effect s) := by
  by_cases hkey : faults (.cfKeyToSet k) = none
  · by_cases hvalue : faults (.cfValue k v) = none
    · have hset : faults (.setValue k v) ≠ none := fun hset => h ⟨hkey, hvalue, hset⟩
      obtain ⟨call, fault, hrun⟩ := perform_of_ne hset effect s
      refine ⟨call, fault, ?_⟩
      rw [setting, bind_of_ok (perform_of_none hkey id s), bind_of_ok (perform_of_none hvalue id _),
        id, id, hrun, setUnheard]
      by_cases hlost : faults (.setValue k v) = some .replyLost <;> simp [hkey, hvalue, hlost]
    · obtain ⟨call, fault, hrun⟩ := perform_id_of_ne hvalue s
      refine ⟨call, fault, ?_⟩
      rw [setting, bind_of_ok (perform_of_none hkey id s), id, bind_of_error hrun, setUnheard]
      simp [hvalue]
  · obtain ⟨call, fault, hrun⟩ := perform_id_of_ne hkey s
    refine ⟨call, fault, ?_⟩
    rw [setting, bind_of_error hrun, setUnheard]
    simp [hkey]

/-- A setting that returns has had its effect. -/
theorem setting_eq_ok (h : setting faults k v effect s = (.ok (), t)) : t = effect s := by
  by_cases hsets : Sets faults ⟨k, v⟩
  · rw [setting_of_sets hsets] at h
    exact (Prod.mk.inj h).2.symm
  · obtain ⟨_, _, hfault⟩ := setting_of_not_sets hsets effect s
    cases hfault.symm.trans h

variable [DecidableEq K]

/-! ## SCPreferences -/

/-- An open preferences session: what is stored, and what its writes have made of it so far.
-/
structure Handle (K V : Type) where
  stored : Dict K V
  pending : Dict K V

namespace Handle

/-- A handle on a stored dictionary, as `SCPreferences.open` returns it. -/
def opened (stored : Dict K V) : Handle K V := ⟨stored, stored⟩

/-- A write changes what is pending only. -/
def write (write : DictWrite K V) (s : Handle K V) : Handle K V :=
  { s with pending := write.apply s.pending }

/-- `SCPreferencesCommitChanges` -/
def commit (s : Handle K V) : Handle K V := { s with stored := s.pending }

/-- `SCPreferencesSynchronize`, which drops what was not committed. -/
def synchronize (s : Handle K V) : Handle K V := { s with pending := s.stored }

end Handle

namespace SCPreference

/-- A method of `SCPreference`. -/
abbrev Method (K V α : Type) := Effect (Handle K V) (PrefError K V) α

/-- `keys`, the keys of what is pending -/
def keys (faults : Faults K V) : Method K V (List K) := do
  perform faults .copyKeyList id
  ask fun s => .ok s.pending.keys

/-- `_set` -/
def _set (faults : Faults K V) (k : K) (v : V) : Method K V Unit :=
  setting faults k v (Handle.write (.set k v))

/-- A missing key is refused. -/
def _remove (faults : Faults K V) (k : K) : Method K V Unit := do
  perform faults (.cfKeyToRemove k) id
  -- `SCPreferencesRemoveValue` returns false for a key that is not there
  ask fun s => if k ∈ s.pending then .ok () else .error (.fault (.removeValue k) .refuses)
  perform faults (.removeValue k) (Handle.write (.remove k))

/-- `_commit`: the changes are committed and read again. -/
def _commit (faults : Faults K V) : Method K V Unit := do
  perform faults .commitChanges Handle.commit
  perform faults .synchronize Handle.synchronize

/-- `_update_dict` -/
def _updateDict (faults : Faults K V) (d : Dict K V) : Method K V Unit :=
  forEach (fun entry => _set faults entry.1 entry.2) d.entries

/-- `_clear`: the keys are removed one after the other. -/
def _clear (faults : Faults K V) : Method K V Unit := do
  let ks ← keys faults
  forEach (_remove faults) ks

/-- `set` -/
def set (faults : Faults K V) (k : K) (v : V) : Method K V Unit := do
  _set faults k v
  _commit faults

/-- `set_dict`: everything is removed, then set, then committed. -/
def setDict (faults : Faults K V) (d : Dict K V) : Method K V Unit := do
  _clear faults
  _updateDict faults d
  _commit faults

/-- `update_dict` -/
def updateDict (faults : Faults K V) (d : Dict K V) : Method K V Unit := do
  _updateDict faults d
  _commit faults

/-- `remove` -/
def remove (faults : Faults K V) (k : K) : Method K V Unit := do
  _remove faults k
  _commit faults

end SCPreference

/-! ## CFPreferences -/

namespace CFPreferences

/-- A method of `CFPreferences`, which works on what is stored. -/
abbrev Method (K V α : Type) := Effect (Dict K V) (PrefError K V) α

/-- There is no key list when there are no keys. -/
def getKeys (faults : Faults K V) : Method K V (List K) := do
  perform faults .copyKeyList id
  ask fun s => if s.keys = [] then .error .noSuchPreference else .ok s.keys

/-- `set` -/
def set (faults : Faults K V) (k : K) (v : V) : Method K V Unit :=
  setting faults k v (DictWrite.set k v).apply

/-- A key is removed by setting no value. A missing one is no fault. -/
def remove (faults : Faults K V) (k : K) : Method K V Unit := do
  perform faults (.cfKeyToRemove k) id
  perform faults (.removeValue k) (DictWrite.remove k).apply

/-- `update_dict` -/
def updateDict (faults : Faults K V) (d : Dict K V) : Method K V Unit :=
  forEach (fun entry => set faults entry.1 entry.2) d.entries

/-- `clear` -/
def clear (faults : Faults K V) : Method K V Unit := do
  let ks ← getKeys faults
  forEach (remove faults) ks

/-- `set_dict`. That nothing is stored yet is no obstacle. -/
def setDict (faults : Faults K V) (d : Dict K V) : Method K V Unit := do
  handle (clear faults) fun error =>
    match error with
    | .noSuchPreference => pure ()
    | error => raise error
  updateDict faults d

end CFPreferences

/-! ## All or nothing -/

/-- A later method on the same preference. -/
inductive PrefMethod (K V : Type)
  | set (k : K) (v : V)
  | remove (k : K)
  | updateDict (d : Dict K V)

/-- The changes that the method is asked for. -/
def PrefMethod.writes : PrefMethod K V → List (DictWrite K V)
  | set k v => [.set k v]
  | remove k => [.remove k]
  | updateDict d => settingAll d.entries

/-- The methods that change single preferences, on a session -/
def SCPreference.run (faults : Faults K V) : PrefMethod K V → Method K V Unit
  | .set k v => set faults k v
  | .remove k => remove faults k
  | .updateDict d => updateDict faults d

/-- and on what is stored. -/
def CFPreferences.run (faults : Faults K V) : PrefMethod K V → Method K V Unit
  | .set k v => set faults k v
  | .remove k => remove faults k
  | .updateDict d => updateDict faults d

/-- A program that replaces a dictionary `old`: when it returns the stored dictionary is
the new one. When it raises it is the old one, also with the changes of any methods
that return later. -/
structure AllOrNothing (m : Effect σ (PrefError K V) Unit)
    (run : Faults K V → PrefMethod K V → Effect σ (PrefError K V) Unit) (stored : σ → Dict K V)
    (d old : Dict K V) (s : σ) : Prop where
  returned : ∀ t, m s = (.ok (), t) → Same (stored t) d
  raised : ∀ error t, m s = (.error error, t) → ∀ (later : List (Faults K V × PrefMethod K V)) u,
    forEach (fun method => run method.1 method.2) later t = (.ok (), u) →
      Same (stored u) (writeAll (later.flatMap fun method => method.2.writes) old)

/-- The first fault leaves the old dictionary in place: no key has been removed yet, or
the entries that have been set make it up. -/
structure Harmless (faults : Faults K V) (d old : Dict K V) : Prop where
  removing : ∀ before k after, old.keys = before ++ k :: after →
    (∀ j ∈ before, Removes faults j) → ¬Removes faults k → before ++ goneUnheard faults k = []
  setting : (∀ k ∈ old.keys, Removes faults k) → ∀ before entry after,
    d.entries = before ++ entry :: after → (∀ f ∈ before, Sets faults f) → ¬Sets faults entry →
      Same (writeAll (settingAll (before ++ setUnheard faults entry)) ∅) old

/-- A commit that fails finds the new dictionary to be the old one. -/
def CommitHarmless (faults : Faults K V) (d old : Dict K V) : Prop :=
  (∀ k ∈ old.keys, Removes faults k) → (∀ entry ∈ d.entries, Sets faults entry) →
    faults .commitChanges ≠ none ∨ faults .synchronize ≠ none → Same d old

variable {d old w : Dict K V}

/-! ## What a method does -/

/-- What the programs that remove a key and set an entry do to a dictionary, which is
put into a state. -/
structure Works (faults : Faults K V) (put : Dict K V → σ) (rm : K → Effect σ (PrefError K V) Unit)
    (st : (Sigma fun _ : K => V) → Effect σ (PrefError K V) Unit) : Prop where
  removes : ∀ w k, k ∈ w → Removes faults k → rm k (put w) = (.ok (), put (w.erase k))
  not_removes : ∀ w k, k ∈ w → ¬Removes faults k →
    FaultsTo (rm k) (put w) (put (writeAll ((goneUnheard faults k).map .remove) w))
  sets : ∀ w entry, Sets faults entry → st entry (put w) = (.ok (), put (w.insert entry.1 entry.2))
  not_sets : ∀ w entry, ¬Sets faults entry →
    FaultsTo (st entry) (put w) (put (writeAll (settingAll (setUnheard faults entry)) w))

/-- The methods of a session do what they should to what is pending. -/
theorem SCPreference.works (faults : Faults K V) (stored : Dict K V) :
    Works faults (Handle.mk stored) (_remove faults) fun entry => _set faults entry.1 entry.2 where
  removes w k hmem h := by
    rw [_remove, bind_of_ok (perform_of_none h.1 id _), bind_of_ok (t := ⟨stored, w⟩) (a := ()) ?_,
      perform_of_none h.2]
    · rfl
    · rw [ask, id, if_pos hmem]
  not_removes w k hmem h := by
    by_cases hkey : faults (.cfKeyToRemove k) = none
    · have hremove : faults (.removeValue k) ≠ none := fun hremove => h ⟨hkey, hremove⟩
      obtain ⟨call, fault, hrun⟩ := perform_of_ne hremove (Handle.write (.remove k)) ⟨stored, w⟩
      refine ⟨call, fault, ?_⟩
      rw [_remove, bind_of_ok (perform_of_none hkey id _),
          bind_of_ok (t := ⟨stored, w⟩) (a := ()) ?_,
        hrun, goneUnheard]
      · by_cases hlost : faults (.removeValue k) = some .replyLost <;>
          simp [hkey, hlost, Handle.write]
      · rw [ask, id, if_pos hmem]
    · obtain ⟨call, fault, hrun⟩ := perform_id_of_ne hkey (⟨stored, w⟩ : Handle K V)
      refine ⟨call, fault, ?_⟩
      rw [_remove, bind_of_error hrun, goneUnheard, if_neg fun hlost => hkey hlost.1]
      rfl
  sets w entry h := setting_of_sets h _ _
  not_sets w entry h := by
    obtain ⟨call, fault, hrun⟩ := setting_of_not_sets h
      (Handle.write (.set entry.1 entry.2)) (⟨stored, w⟩ : Handle K V)
    refine ⟨call, fault, hrun.trans ?_⟩
    rw [setUnheard]
    split <;> rfl

theorem CFPreferences.works (faults : Faults K V) :
    Works faults id (remove faults) fun entry => set faults entry.1 entry.2 where
  removes w k _ h := by
    rw [remove, bind_of_ok (perform_of_none h.1 id _), perform_of_none h.2]
    rfl
  not_removes w k _ h := by
    by_cases hkey : faults (.cfKeyToRemove k) = none
    · have hremove : faults (.removeValue k) ≠ none := fun hremove => h ⟨hkey, hremove⟩
      obtain ⟨call, fault, hrun⟩ := perform_of_ne hremove (DictWrite.remove k).apply w
      refine ⟨call, fault, ?_⟩
      rw [remove, bind_of_ok (perform_of_none hkey id _), id, id, hrun, goneUnheard]
      by_cases hlost : faults (.removeValue k) = some .replyLost <;> simp [hkey, hlost]
    · obtain ⟨call, fault, hrun⟩ := perform_id_of_ne hkey w
      refine ⟨call, fault, ?_⟩
      rw [remove, id, bind_of_error hrun, goneUnheard, if_neg fun hlost => hkey hlost.1]
      rfl
  sets w entry h := setting_of_sets h _ _
  not_sets w entry h := by
    obtain ⟨call, fault, hrun⟩ := setting_of_not_sets h (DictWrite.set entry.1 entry.2).apply w
    refine ⟨call, fault, hrun.trans ?_⟩
    rw [setUnheard]
    split <;> rfl

/-! ## Replacing a dictionary -/

/-- No call that removes or sets something fails. -/
def Complete (faults : Faults K V) (d old : Dict K V) : Prop :=
  (∀ k ∈ old.keys, Removes faults k) ∧ ∀ entry ∈ d.entries, Sets faults entry

/-- Where nothing fails, nothing does harm. -/
theorem Complete.harmless (h : Complete faults d old) : Harmless faults d old where
  removing _ k _ hkeys _ hk := absurd (h.1 k (by simp [hkeys])) hk
  setting _ _ entry _ hentries _ hentry := absurd (h.2 entry (by simp [hentries])) hentry

variable {put : Dict K V → σ} {rm : K → Effect σ (PrefError K V) Unit}
  {st : (Sigma fun _ : K => V) → Effect σ (PrefError K V) Unit}

/-- Remove the keys of the old dictionary and set the entries of the new one. -/
def replacing (rm : K → Effect σ (PrefError K V) Unit)
    (st : (Sigma fun _ : K => V) → Effect σ (PrefError K V) Unit) (d old : Dict K V) :
    Effect σ (PrefError K V) Unit := do
  forEach rm old.keys
  forEach st d.entries

/-- A key is still there when those before it have been removed. -/
theorem mem_of_keys_eq {before after : List K} (hkeys : old.keys = before ++ k :: after) :
    k ∈ writeAll (before.map .remove) old := by
  have hnodup := old.keys_nodup
  rw [hkeys, List.nodup_middle] at hnodup
  rw [mem_writeAll_remove, AList.mem_keys, hkeys]
  exact ⟨fun hbefore => (List.nodup_cons.mp hnodup).1 (List.mem_append_left _ hbefore), by simp⟩

theorem Works.remove_next (h : Works faults put rm st) {before after : List K}
    (hkeys : old.keys = before ++ k :: after) (hk : Removes faults k) :
    rm k (put (writeAll (before.map .remove) old)) =
      (.ok (), put (writeAll ((before ++ [k]).map .remove) old)) := by
  rw [h.removes _ k (mem_of_keys_eq hkeys) hk, List.map_append, writeAll_append]
  rfl

theorem Works.set_next (h : Works faults put rm st) {before : List (Sigma fun _ : K => V)}
    {entry : Sigma fun _ : K => V} (hentry : Sets faults entry) :
    st entry (put (writeAll (settingAll before) w)) =
      (.ok (), put (writeAll (settingAll (before ++ [entry])) w)) := by
  rw [h.sets _ entry hentry, settingAll, settingAll, List.map_append, writeAll_append]
  rfl

/-- All keys are removed. -/
theorem Works.forEach_remove (h : Works faults put rm st)
    (hall : ∀ k ∈ old.keys, Removes faults k) :
    forEach rm old.keys (put old) = (.ok (), put (writeAll (old.keys.map .remove) old)) :=
  forEach_of_all (fun done => put (writeAll (done.map .remove) old)) fun _ k _ hkeys =>
    h.remove_next hkeys (hall k (by simp [hkeys]))

/-- The first key that cannot be removed. -/
theorem Works.forEach_remove_of_not (h : Works faults put rm st) {before after : List K}
    (hkeys : old.keys = before ++ k :: after) (hbefore : ∀ j ∈ before, Removes faults j)
    (hk : ¬Removes faults k) :
    FaultsTo (forEach rm old.keys) (put old)
      (put (writeAll ((before ++ goneUnheard faults k).map .remove) old)) := by
  obtain ⟨call, fault, hrun⟩ := h.not_removes _ k (mem_of_keys_eq hkeys) hk
  refine ⟨call, fault, ?_⟩
  rw [hkeys, List.map_append, writeAll_append]
  refine forEach_of_fault (fun done => put (writeAll (done.map .remove) old)) ?_ hrun
  rintro first j rest rfl
  have hkeys : old.keys = first ++ j :: (rest ++ k :: after) := by rw [hkeys]; simp
  exact h.remove_next hkeys (hbefore j (by simp))

/-- The first entry that cannot be set. -/
theorem Works.replacing_of_not_sets (h : Works faults put rm st)
    (hall : ∀ k ∈ old.keys, Removes faults k) {before after : List (Sigma fun _ : K => V)}
    {entry : Sigma fun _ : K => V} (hentries : d.entries = before ++ entry :: after)
    (hbefore : ∀ f ∈ before, Sets faults f) (hentry : ¬Sets faults entry) :
    FaultsTo (replacing rm st d old) (put old)
      (put (writeAll (settingAll (before ++ setUnheard faults entry))
        (writeAll (old.keys.map .remove) old))) := by
  obtain ⟨call, fault, hrun⟩ :=
    h.not_sets (writeAll (settingAll before) (writeAll (old.keys.map .remove) old)) entry hentry
  refine ⟨call, fault, ?_⟩
  rw [replacing, bind_of_ok (h.forEach_remove hall), hentries, settingAll, List.map_append,
    writeAll_append]
  refine forEach_of_fault
    (fun done => put (writeAll (settingAll done) (writeAll (old.keys.map .remove) old))) ?_ hrun
  rintro first f rest rfl
  exact h.set_next (hbefore f (by simp))

/-- Without faults the new entries take the place of the old ones. -/
theorem Works.replacing_of_complete (h : Works faults put rm st)
    (hcomplete : Complete faults d old) :
    ∃ w, Same w d ∧ replacing rm st d old (put old) = (.ok (), put w) := by
  refine ⟨writeAll (settingAll d.entries) (writeAll (old.keys.map .remove) old), ?_, ?_⟩
  · have hempty := same_writeAll_remove_keys old
    exact (hempty.writeAll _).trans (same_writeAll_set_entries d)
  · rw [replacing, bind_of_ok (h.forEach_remove hcomplete.1)]
    exact forEach_of_all
      (fun done => put (writeAll (settingAll done) (writeAll (old.keys.map .remove) old)))
      fun _ entry _ hentries => h.set_next (hcomplete.2 entry (by simp [hentries]))

/-- **Faults.** A fault leaves some dictionary behind, and this is the old one exactly
when the faults are harmless. -/
theorem Works.replacing_of_not_complete (h : Works faults put rm st)
    (hnot : ¬Complete faults d old) :
    ∃ w, FaultsTo (replacing rm st d old) (put old) (put w) ∧
      (Harmless faults d old ↔ Same w old) := by
  rcases forall_or_first (Removes faults) old.keys with hall |
    ⟨before, k, after, hkeys, hbefore, hk⟩
  · rcases forall_or_first (Sets faults) d.entries with
      hsets | ⟨before, entry, after, hentries, hbefore, hentry⟩
    · exact absurd ⟨hall, hsets⟩ hnot
    obtain ⟨call, fault, hrun⟩ := h.replacing_of_not_sets hall hentries hbefore hentry
    -- all keys are gone, so what is left behind is what has been set so far
    have hempty := (same_writeAll_remove_keys old).writeAll
      (settingAll (before ++ setUnheard faults entry))
    refine ⟨_, ⟨call, fault, hrun⟩, fun hharmless => ?_, fun hsame => ⟨?_, ?_⟩⟩
    · exact hempty.trans (hharmless.setting hall before entry after hentries hbefore hentry)
    · intro _ k _ hkeys _ hk
      exact absurd (hall k (by simp [hkeys])) hk
    · -- the first fault is the one that has been met
      intro _ before' entry' after' hentries' hbefore' hentry'
      have heq := hentries.symm.trans hentries'
      obtain rfl := first_unique heq hbefore hentry hbefore' hentry'
      obtain ⟨rfl, -⟩ := List.cons.inj (List.append_cancel_left heq)
      exact hempty.symm.trans hsame
  · obtain ⟨call, fault, hrun⟩ := h.forEach_remove_of_not hkeys hbefore hk
    refine ⟨_, ⟨call, fault, bind_of_error hrun⟩, fun hharmless => ?_, fun hsame => ⟨?_, ?_⟩⟩
    · rw [hharmless.removing before k after hkeys hbefore hk]
      exact Same.refl old
    · intro before' k' after' hkeys' hbefore' hk'
      have heq := hkeys.symm.trans hkeys'
      obtain rfl := first_unique heq hbefore hk hbefore' hk'
      obtain ⟨rfl, -⟩ := List.cons.inj (List.append_cancel_left heq)
      -- a key that has been removed would be missing
      refine List.eq_nil_iff_forall_not_mem.mpr fun j hj => ?_
      have hold : j ∈ old := by
        rw [AList.mem_keys, hkeys]
        rcases List.mem_append.mp hj with hfirst | hlost
        · exact List.mem_append_left _ hfirst
        · rw [eq_of_mem_goneUnheard hlost]
          exact List.mem_append_right _ List.mem_cons_self
      exact ((mem_writeAll_remove _ old).mp (hsame.mem_iff.mpr hold)).1 hj
    · intro hall
      exact absurd (hall k (by simp [hkeys])) hk

/-! ## Later methods -/

/-- Methods after which the stored dictionary has the changes they are asked for. -/
def Follows (run : Faults K V → PrefMethod K V → Effect σ (PrefError K V) Unit)
    (inPlace : Dict K V → σ → Prop) : Prop :=
  ∀ faults method w s t, inPlace w s → run faults method s = (.ok (), t) →
    inPlace (writeAll method.writes w) t

/-- What one method keeps in place is kept by all that come later. -/
theorem Follows.forEach {run : Faults K V → PrefMethod K V → Effect σ (PrefError K V) Unit}
    {inPlace : Dict K V → σ → Prop} (h : Follows run inPlace) (hs : inPlace w s)
    {later : List (Faults K V × PrefMethod K V)}
    (hrun : forEach (fun method => run method.1 method.2) later s = (.ok (), t)) :
    inPlace (writeAll (later.flatMap fun method => method.2.writes) w) t := by
  refine forEach_induction (fun done t =>
    inPlace (writeAll (done.flatMap fun method => method.2.writes) w) t) hs ?_ hrun
  intro before method _ s t _ hbefore hmethod
  rw [List.flatMap_append, writeAll_append]
  simpa using h method.1 method.2 _ s t hbefore hmethod

namespace SCPreference

variable {s t : Handle K V}

omit [DecidableEq K] in
/-- A commit that returns leaves what was pending. -/
theorem _commit_eq_ok (h : _commit faults s = (.ok (), t)) : t = .opened s.pending :=
  perform_eq_ok (perform_bind_eq_ok h)

theorem _remove_eq_ok (h : _remove faults k s = (.ok (), t)) : t = s.write (.remove k) := by
  obtain ⟨⟨⟩, u, hask, hremove⟩ := bind_eq_ok_iff.mp (perform_bind_eq_ok h)
  obtain rfl : s = u := (Prod.mk.inj hask).2
  exact perform_eq_ok hremove

theorem _updateDict_eq_ok (h : _updateDict faults d s = (.ok (), t)) :
    t.pending = writeAll (settingAll d.entries) s.pending := by
  refine forEach_induction (fun done t => t.pending = writeAll (settingAll done) s.pending) rfl ?_ h
  intro before entry _ u v _ hbefore hset
  rw [setting_eq_ok hset, Handle.write, hbefore, settingAll, settingAll, List.map_append,
    writeAll_append]
  rfl

/-- A method that returns has stored what was pending with its own changes. -/
theorem run_eq_ok {method : PrefMethod K V} (h : run faults method s = (.ok (), t)) :
    t = .opened (writeAll method.writes s.pending) := by
  cases method with
  | set k v =>
    obtain ⟨⟨⟩, u, hset, hcommit⟩ := bind_eq_ok_iff.mp h
    rw [_commit_eq_ok hcommit, setting_eq_ok hset]
    rfl
  | remove k =>
    obtain ⟨⟨⟩, u, hremove, hcommit⟩ := bind_eq_ok_iff.mp h
    rw [_commit_eq_ok hcommit, _remove_eq_ok hremove]
    rfl
  | updateDict d =>
    obtain ⟨⟨⟩, u, hupdate, hcommit⟩ := bind_eq_ok_iff.mp h
    rw [_commit_eq_ok hcommit, _updateDict_eq_ok hupdate]
    rfl

/-- Later methods start from what is stored and pending. -/
theorem follows_run :
    Follows (run (K := K) (V := V)) fun w s => Same s.stored w ∧ Same s.pending w := by
  intro faults method w s t hs hrun
  rw [run_eq_ok hrun]
  exact ⟨hs.2.writeAll _, hs.2.writeAll _⟩

/-- When the keys cannot be listed, `set_dict` changes nothing. -/
theorem setDict_of_fault (d : Dict K V) (h : faults .copyKeyList ≠ none) (s : Handle K V) :
    FaultsTo (setDict faults d) s s := by
  obtain ⟨call, fault, hrun⟩ := perform_id_of_ne h s
  exact ⟨call, fault, bind_of_error (bind_of_error (bind_of_error hrun))⟩

/-- Otherwise it replaces what is pending and commits it. -/
theorem setDict_of_none (d old : Dict K V) (h : faults .copyKeyList = none) :
    setDict faults d (.opened old) =
      (replacing (_remove faults) (fun entry => _set faults entry.1 entry.2) d old >>=
        fun _ => _commit faults) (.opened old) := by
  have hkeys : keys faults (.opened old) = (.ok old.keys, .opened old) := by
    rw [keys, bind_of_ok (perform_of_none h id _)]
    rfl
  rw [setDict, _clear, bind_assoc, bind_of_ok hkeys, replacing, bind_assoc]
  rfl

end SCPreference

namespace CFPreferences

variable {s t : Dict K V}

/-- An update that returns has written its entries. -/
theorem updateDict_eq_ok (h : updateDict faults d s = (.ok (), t)) :
    t = writeAll (settingAll d.entries) s := by
  refine forEach_induction (fun done t => t = writeAll (settingAll done) s) rfl ?_ h
  intro before entry _ u v _ hbefore hset
  rw [setting_eq_ok hset, hbefore, settingAll, settingAll, List.map_append, writeAll_append]
  rfl

/-- A method that returns has made its writes. -/
theorem run_eq_ok {method : PrefMethod K V} (h : run faults method s = (.ok (), t)) :
    t = writeAll method.writes s := by
  cases method with
  | set k v => exact setting_eq_ok h
  | remove k => exact perform_eq_ok (perform_bind_eq_ok h)
  | updateDict d => exact updateDict_eq_ok h

/-- Later methods start from what is stored. -/
theorem follows_run : Follows (run (K := K) (V := V)) fun w s => Same s w := by
  intro faults method w s t hs hrun
  rw [run_eq_ok hrun]
  exact hs.writeAll _

/-- When the keys cannot be listed, `set_dict` changes nothing. -/
theorem setDict_of_fault (d : Dict K V) (h : faults .copyKeyList ≠ none) (s : Dict K V) :
    FaultsTo (setDict faults d) s s := by
  obtain ⟨call, fault, hrun⟩ := perform_id_of_ne h s
  -- the handler raises every other error again
  have hclear : clear faults s = (.error (.fault call fault), s) :=
    bind_of_error (bind_of_error hrun)
  refine ⟨call, fault, bind_of_error ?_⟩
  rw [handle, hclear]
  rfl

/-- Otherwise it replaces what is stored. -/
theorem setDict_of_none (d old : Dict K V) (h : faults .copyKeyList = none) :
    setDict faults d old =
      replacing (remove faults) (fun entry => set faults entry.1 entry.2) d old old := by
  have hlist : perform faults .copyKeyList id old = (.ok (), old) := perform_of_none h id old
  rw [setDict, replacing, bind_apply, bind_apply, handle, clear, bind_apply, getKeys,
    bind_of_ok hlist, ask]
  -- an empty dictionary has no key list, which the handler takes for nothing to remove
  by_cases hempty : old.keys = []
  · rw [if_pos hempty, hempty]
    rfl
  rw [if_neg hempty]
  -- a fault while the keys are removed is raised again
  rcases forall_or_first (Removes faults) old.keys with hall |
    ⟨before, k, after, hkeys, hbefore, hk⟩
  · have hrun := (works faults).forEach_remove hall
    rw [id] at hrun
    simp only [hrun]
    rfl
  · obtain ⟨call, fault, hrun⟩ := (works faults).forEach_remove_of_not hkeys hbefore hk
    rw [id] at hrun
    simp only [hrun]
    rfl

end CFPreferences

/-! ## The law -/

section AllOrNothing

variable {m : Effect σ (PrefError K V) Unit}
  {run : Faults K V → PrefMethod K V → Effect σ (PrefError K V) Unit} {stored : σ → Dict K V}
  {inPlace : Dict K V → σ → Prop}

/-- A call that returns with the new dictionary in place is as it should be. -/
theorem allOrNothing_of_ok (hrun : m s = (.ok (), t)) (hd : Same (stored t) d) :
    AllOrNothing m run stored d old s where
  returned u hu := by
    cases hrun.symm.trans hu
    exact hd
  raised error u hu := by cases hrun.symm.trans hu

/-- What raises with the old dictionary in place is followed by methods that find it. -/
theorem allOrNothing_of_error {error : PrefError K V} (hfollows : Follows run inPlace)
    (hstored : ∀ w s, inPlace w s → Same (stored s) w) (hrun : m s = (.error error, t))
    (ht : inPlace old t) : AllOrNothing m run stored d old s where
  returned u hu := by cases hrun.symm.trans hu
  raised error' u hu later v hlater := by
    cases hrun.symm.trans hu
    exact hstored _ v (hfollows.forEach ht hlater)

end AllOrNothing

/-- How a replacement ends. A fault leaves some dictionary pending, and this is the old
one exactly when the faults are harmless. -/
theorem SCPreference.setDict_cases (d old : Dict K V) (hlist : faults .copyKeyList = none) :
    (∃ w, Same w d ∧ setDict faults d (.opened old) = (.ok (), .opened w) ∧
        Harmless faults d old ∧ CommitHarmless faults d old) ∨
      ∃ stored w call fault,
        setDict faults d (.opened old) = (.error (.fault call fault), ⟨stored, w⟩) ∧
          (stored = old ∨ stored = w) ∧
          (Harmless faults d old ∧ CommitHarmless faults d old ↔ Same w old) := by
  have hworks := works faults old
  have hset := setDict_of_none d old hlist
  by_cases hcomplete : Complete faults d old
  · obtain ⟨w, hw, hrun⟩ := hworks.replacing_of_complete hcomplete
    rw [Handle.opened, bind_of_ok hrun] at hset
    -- only the commit is left to fail, with the new dictionary pending
    have hiff (hfault : faults .commitChanges ≠ none ∨ faults .synchronize ≠ none) :
        Harmless faults d old ∧ CommitHarmless faults d old ↔ Same w old :=
      ⟨fun h => hw.trans (h.2 hcomplete.1 hcomplete.2 hfault),
        fun hsame => ⟨hcomplete.harmless, fun _ _ _ => hw.symm.trans hsame⟩⟩
    by_cases hcommit : faults .commitChanges = none
    · rw [_commit, bind_of_ok (perform_of_none hcommit _ _)] at hset
      by_cases hsync : faults .synchronize = none
      · refine .inl ⟨w, hw, hset.trans (perform_of_none hsync _ _), hcomplete.harmless,
          fun _ _ hfault => ?_⟩
        exact absurd hfault (not_or.mpr ⟨not_not_intro hcommit, not_not_intro hsync⟩)
      · -- the new dictionary has been stored
        obtain ⟨call, fault, hfault⟩ := perform_of_ne hsync Handle.synchronize (⟨w, w⟩ : Handle K V)
        -- whether it has been read back makes no difference
        rw [show (⟨w, w⟩ : Handle K V).synchronize = ⟨w, w⟩ from rfl, ite_self] at hfault
        exact .inr ⟨w, w, call, fault, hset.trans hfault, .inr rfl, hiff (.inr hsync)⟩
    · obtain ⟨call, fault, hfault⟩ := perform_of_ne hcommit Handle.commit (⟨old, w⟩ : Handle K V)
      have hrun := hset.trans (bind_of_error hfault)
      -- the new dictionary has been stored, or only is pending
      split at hrun
      · exact .inr ⟨w, w, call, fault, hrun, .inr rfl, hiff (.inl hcommit)⟩
      · exact .inr ⟨old, w, call, fault, hrun, .inl rfl, hiff (.inl hcommit)⟩
  · obtain ⟨w, ⟨call, fault, hrun⟩, hiff⟩ := hworks.replacing_of_not_complete hcomplete
    refine .inr ⟨old, w, call, fault, hset.trans (bind_of_error hrun), .inl rfl, ?_⟩
    rw [← hiff]
    exact and_iff_left fun hremoves hsets => absurd ⟨hremoves, hsets⟩ hcomplete

/-- A session replaces all or nothing just if no fault does harm, the commit's included. -/
theorem SCPreference.allOrNothing_iff (faults : Faults K V) (d old : Dict K V) :
    AllOrNothing (setDict faults d) run Handle.stored d old (.opened old) ↔
      (faults .copyKeyList = none → Harmless faults d old ∧ CommitHarmless faults d old) := by
  have hstored : ∀ w (s : Handle K V), Same s.stored w ∧ Same s.pending w → Same s.stored w :=
    fun _ _ => And.left
  constructor
  · intro hall hlist
    rcases setDict_cases d old hlist with
      ⟨w, -, -, hharmless⟩ | ⟨stored, w, call, fault, hrun, -, hiff⟩
    · exact hharmless
    · -- the next method that returns stores what is pending
      exact hiff.mpr (hall.raised _ _ hrun [(fun _ => none, .updateDict ∅)] (.opened w) rfl)
  · intro hharmless
    by_cases hlist : faults .copyKeyList = none
    · rcases setDict_cases d old hlist with
        ⟨w, hw, hrun, -⟩ | ⟨stored, w, call, fault, hrun, hwhich, hiff⟩
      · exact allOrNothing_of_ok hrun hw
      · have hold := hiff.mp (hharmless hlist)
        refine allOrNothing_of_error follows_run hstored hrun ⟨?_, hold⟩
        rcases hwhich with rfl | rfl
        · exact Same.refl _
        · exact hold
    · obtain ⟨call, fault, hfault⟩ := setDict_of_fault d hlist (.opened old)
      exact allOrNothing_of_error follows_run hstored hfault ⟨Same.refl old, Same.refl old⟩

/-- Without a session only the single writes can do harm. -/
theorem CFPreferences.allOrNothing_iff (faults : Faults K V) (d old : Dict K V) :
    AllOrNothing (setDict faults d) run id d old old ↔
      (faults .copyKeyList = none → Harmless faults d old) := by
  have hworks := works faults
  have hstored : ∀ w s : Dict K V, Same s w → Same (id s) w := fun _ _ => id
  constructor
  · intro hall hlist
    by_cases hcomplete : Complete faults d old
    · exact hcomplete.harmless
    obtain ⟨w, ⟨call, fault, hrun⟩, hiff⟩ := hworks.replacing_of_not_complete hcomplete
    exact hiff.mpr (hall.raised _ w ((setDict_of_none d old hlist).trans hrun) [] w rfl)
  · intro hharmless
    by_cases hlist : faults .copyKeyList = none
    · by_cases hcomplete : Complete faults d old
      · obtain ⟨w, hw, hrun⟩ := hworks.replacing_of_complete hcomplete
        exact allOrNothing_of_ok ((setDict_of_none d old hlist).trans hrun) hw
      · obtain ⟨w, ⟨call, fault, hrun⟩, hiff⟩ := hworks.replacing_of_not_complete hcomplete
        exact allOrNothing_of_error follows_run hstored ((setDict_of_none d old hlist).trans hrun)
          (hiff.mp (hharmless hlist))
    · obtain ⟨call, fault, hfault⟩ := setDict_of_fault d hlist old
      exact allOrNothing_of_error follows_run hstored hfault (Same.refl old)

/-- **All or nothing.** With any plan of faults, replacing a dictionary is all or nothing
exactly when listing the keys fails, or the faults of removing keys and setting entries
are harmless and, for `SCPreference`, those of the commit are. -/
theorem allOrNothing_iff_harmless (faults : Faults K V) (d old : Dict K V) :
    (AllOrNothing (SCPreference.setDict faults d) SCPreference.run Handle.stored d old
        (.opened old) ↔
        (faults .copyKeyList = none → Harmless faults d old ∧ CommitHarmless faults d old)) ∧
      (AllOrNothing (CFPreferences.setDict faults d) CFPreferences.run id d old old ↔
        (faults .copyKeyList = none → Harmless faults d old)) :=
  ⟨SCPreference.allOrNothing_iff faults d old, CFPreferences.allOrNothing_iff faults d old⟩

/-- A dictionary with one key is replaced by a value that cannot be serialised. The
handle keeps the empty dictionary, and the next method stores it. -/
theorem not_allOrNothing_bad_value :
    let faults : Faults ℕ ℕ := fun call => if call = .cfValue 2 20 then some .raises else none
    let old : Dict ℕ ℕ := AList.singleton 1 10
    let d : Dict ℕ ℕ := AList.singleton 2 20
    ¬AllOrNothing (SCPreference.setDict faults d) SCPreference.run Handle.stored d old
        (.opened old) ∧
      ¬AllOrNothing (CFPreferences.setDict faults d) CFPreferences.run id d old old := by
  intro faults old d
  refine ⟨fun h => ?_, fun h => ?_⟩
  · have hstored := h.raised _ _ rfl [(fun _ => none, .set 3 30)] _ rfl 1
    exact absurd hstored (by decide)
  · have hstored := h.raised _ _ rfl [] _ rfl 1
    exact absurd hstored (by decide)

end RpcProject.Client
