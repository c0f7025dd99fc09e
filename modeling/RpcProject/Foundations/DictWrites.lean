/-
# Dictionaries and their writes

A dictionary lists its keys in some order, each with a value. Two dictionaries are
the same when they agree on every key. A write removes a key or sets its value, and a
list of writes is performed in order.

To remove all keys of a dictionary leaves the empty one, and to set all entries of a
dictionary there leaves that dictionary.
-/

import Mathlib.Data.List.AList

namespace RpcProject.Foundations

/-- A dictionary. -/
abbrev Dict (K V : Type) := AList fun _ : K => V

variable {K V : Type} [DecidableEq K] {a b c : Dict K V} {k : K} {v : V}

namespace Dict

theorem mem_of_lookup (h : a.lookup k = some v) : k ∈ a :=
  AList.lookup_isSome.mp (by rw [h]; rfl)

theorem exists_lookup (h : k ∈ a) : ∃ v, a.lookup k = some v :=
  Option.isSome_iff_exists.mp (AList.lookup_isSome.mpr h)

/-- What is found after a removal was there before. -/
theorem lookup_of_erase {j : K} (h : (a.erase j).lookup k = some v) :
    k ≠ j ∧ a.lookup k = some v := by
  by_cases heq : k = j
  · rw [heq, AList.lookup_erase] at h
    cases h
  · rw [AList.lookup_erase_ne heq] at h
    exact ⟨heq, h⟩

/-- The dictionaries agree on every key. -/
def Same (a b : Dict K V) : Prop := ∀ k, a.lookup k = b.lookup k

theorem Same.refl (a : Dict K V) : Same a a := fun _ => rfl

theorem Same.symm (h : Same a b) : Same b a := fun k => (h k).symm

theorem Same.trans (h : Same a b) (h' : Same b c) : Same a c := fun k => (h k).trans (h' k)

/-- The same dictionaries have the same keys. -/
theorem Same.mem_iff (h : Same a b) : k ∈ a ↔ k ∈ b := by
  rw [← AList.lookup_isSome, ← AList.lookup_isSome, h k]

end Dict

open Dict

/-- A change of a single key. -/
inductive DictWrite (K V : Type)
  | remove (k : K)
  | set (k : K) (v : V)
  deriving DecidableEq, Repr

variable {write : DictWrite K V} {writes : List (DictWrite K V)}

/-- The dictionary after a change. -/
def DictWrite.apply : DictWrite K V → Dict K V → Dict K V
  | remove k, dict => dict.erase k
  | set k v, dict => dict.insert k v

/-- The dictionary after several changes, one after the other. -/
def writeAll (writes : List (DictWrite K V)) (dict : Dict K V) : Dict K V :=
  writes.foldl (fun dict write => write.apply dict) dict

@[simp] theorem writeAll_nil (dict : Dict K V) : writeAll [] dict = dict := rfl

@[simp] theorem writeAll_cons (dict : Dict K V) :
    writeAll (write :: writes) dict = writeAll writes (write.apply dict) := rfl

theorem writeAll_append (first second : List (DictWrite K V)) (dict : Dict K V) :
    writeAll (first ++ second) dict = writeAll second (writeAll first dict) :=
  List.foldl_append

/-- The same dictionaries stay so after a change. -/
theorem Dict.Same.apply (h : Same a b) (write : DictWrite K V) :
    Same (write.apply a) (write.apply b) := by
  intro j
  cases write with
  | remove k =>
    by_cases hj : j = k
    · rw [hj, DictWrite.apply, DictWrite.apply, AList.lookup_erase, AList.lookup_erase]
    · rw [DictWrite.apply, DictWrite.apply, AList.lookup_erase_ne hj, AList.lookup_erase_ne hj, h j]
  | set k v =>
    by_cases hj : j = k
    · rw [hj, DictWrite.apply, DictWrite.apply, AList.lookup_insert, AList.lookup_insert]
    · rw [DictWrite.apply, DictWrite.apply, AList.lookup_insert_ne hj, AList.lookup_insert_ne hj,
        h j]

theorem Dict.Same.writeAll (h : Same a b) (writes : List (DictWrite K V)) :
    Same (writeAll writes a) (writeAll writes b) := by
  induction writes generalizing a b with
  | nil => exact h
  | cons write writes ih => exact ih (h.apply write)

/-! ## Clearing a dictionary and filling it -/

/-- Which keys are left after removals. -/
theorem mem_writeAll_remove (keys : List K) (dict : Dict K V) :
    k ∈ writeAll (keys.map .remove) dict ↔ k ∉ keys ∧ k ∈ dict := by
  induction keys generalizing dict with
  | nil => simp
  | cons j keys ih =>
    rw [List.map_cons, writeAll_cons, ih, DictWrite.apply, AList.mem_erase, List.mem_cons, not_or]
    exact ⟨fun ⟨hkeys, hne, hmem⟩ => ⟨⟨hne, hkeys⟩, hmem⟩, fun ⟨⟨hne, hkeys⟩, hmem⟩ =>
      ⟨hkeys, hne, hmem⟩⟩

/-- A dictionary without its keys is empty. -/
theorem same_writeAll_remove_keys (dict : Dict K V) :
    Same (writeAll (dict.keys.map .remove) dict) ∅ := by
  intro k
  rw [AList.lookup_empty, AList.lookup_eq_none, mem_writeAll_remove]
  exact fun ⟨hkeys, hmem⟩ => hkeys (AList.mem_keys.mp hmem)

/-- The writes that set the entries of a list. -/
def settingAll (entries : List (Sigma fun _ : K => V)) : List (DictWrite K V) :=
  entries.map fun entry => .set entry.1 entry.2

/-- What is found after several keys are set. -/
theorem lookup_writeAll_set {entries : List (Sigma fun _ : K => V)} (hnodup : entries.NodupKeys)
    (dict : Dict K V) :
    (writeAll (settingAll entries) dict).lookup k = (entries.dlookup k).or (dict.lookup k) := by
  induction entries generalizing dict with
  | nil => rfl
  | cons entry entries ih =>
    obtain ⟨j, v⟩ := entry
    rw [List.nodupKeys_cons] at hnodup
    rw [settingAll, List.map_cons, writeAll_cons, ← settingAll, ih hnodup.2, DictWrite.apply]
    by_cases hk : k = j
    · -- the key is not set again
      subst hk
      rw [AList.lookup_insert, List.dlookup_cons_eq, List.dlookup_eq_none.mpr hnodup.1]
      rfl
    · rw [AList.lookup_insert_ne hk, List.dlookup_cons_ne _ _ hk]

/-- The empty dictionary with the entries of another one is that one. -/
theorem same_writeAll_set_entries (dict : Dict K V) :
    Same (writeAll (settingAll dict.entries) ∅) dict := by
  intro k
  rw [lookup_writeAll_set dict.nodupKeys, AList.lookup_empty, Option.or_none]
  rfl

end RpcProject.Foundations
