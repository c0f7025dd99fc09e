/-
# Regions of memory

A region reaches from its start up to its end, which is not part of it: its size is the
difference of the two. `region` looks for the region of an address in the regions of the
client's process, takes the first one that matches, and takes the end of a region to be
part of it.
-/

import RpcProject.Client.Symbol

namespace RpcProject.Darwin

open Client

/-- A region of memory. Its end is no part of it. -/
structure Region where
  start : Symbol
  endAddress : ℤ
  deriving DecidableEq, Repr

namespace Region

variable {region : Region} {address : Symbol}

/-- `Region.size` -/
def size (region : Region) : ℤ := region.endAddress - region.start.int

/-- As many addresses as the size says are in a region. -/
def Contains (region : Region) (address : Symbol) : Prop :=
  region.start.int ≤ address.int ∧ address.int < region.start.int + region.size

instance (region : Region) (address : Symbol) : Decidable (region.Contains address) :=
  inferInstanceAs (Decidable (_ ∧ _))

theorem contains_iff :
    region.Contains address ↔ region.start.int ≤ address.int ∧ address.int < region.endAddress := by
  rw [Contains, size, add_sub_cancel]

/-- The address is the one right behind the region. -/
def EndsAt (region : Region) (address : Symbol) : Prop :=
  region.start.int ≤ address.int ∧ region.endAddress = address.int

instance (region : Region) (address : Symbol) : Decidable (region.EndsAt address) :=
  inferInstanceAs (Decidable (_ ∧ _))

/-- No address is in both, though one may begin where the other ends. -/
def Disjoint (region region' : Region) : Prop :=
  region.endAddress ≤ region'.start.int ∨ region'.endAddress ≤ region.start.int

instance (region region' : Region) : Decidable (region.Disjoint region') :=
  inferInstanceAs (Decidable (_ ∨ _))

theorem Disjoint.not_contains {region' : Region}
    (h : region.Disjoint region' ∨ region'.Disjoint region) (hcontains : region.Contains address) :
    ¬ region'.Contains address := by
  rw [contains_iff] at hcontains ⊢
  rcases h with (h | h) | (h | h) <;> omega

/-- The test of `region`. -/
def Matches (region : Region) (address : Symbol) : Prop :=
  address.int ≥ region.start.int ∧ address.int ≤ region.endAddress

instance (region : Region) (address : Symbol) : Decidable (region.Matches address) :=
  inferInstanceAs (Decidable (_ ∧ _))

/-- What `get_region` takes for a match. -/
theorem matches_iff : region.Matches address ↔ region.Contains address ∨ region.EndsAt address := by
  rw [contains_iff, Matches, EndsAt]
  omega

/-- A region that ends at the address matches it, so that the lookup gets no further. -/
theorem EndsAt.decide_matches (h : region.EndsAt address) :
    decide (region.Matches address) = true :=
  decide_eq_true (matches_iff.mpr (Or.inr h))

theorem EndsAt.not_contains (h : region.EndsAt address) : ¬ region.Contains address := by
  rw [contains_iff, ← h.2]
  exact fun hin => Int.lt_irrefl _ hin.2

end Region

/-- `region()` of an address, among the regions of the process. -/
def region (regions : List Region) (address : Symbol) : Option Region :=
  regions.find? fun region => region.Matches address

/-- A region that contains the address, or none if there is none. -/
def IsRegionOf (regions : List Region) (address : Symbol) : Option Region → Prop
  | some region => region ∈ regions ∧ region.Contains address
  | none => ∀ region ∈ regions, ¬ region.Contains address

instance (regions : List Region) (address : Symbol) (found : Option Region) :
    Decidable (IsRegionOf regions address found) := by
  cases found
  · exact inferInstanceAs (Decidable (∀ region ∈ regions, _))
  · exact inferInstanceAs (Decidable (_ ∧ _))

variable {regions : List Region} {address : Symbol}

/-- An address has at most one region among disjoint ones. -/
theorem IsRegionOf.unique (hdisjoint : regions.Pairwise Region.Disjoint)
    {found found' : Option Region}
    (h : IsRegionOf regions address found) (h' : IsRegionOf regions address found') :
    found = found' := by
  have heq : ∀ r ∈ regions, ∀ r' ∈ regions, r.Contains address → r'.Contains address → r = r' := by
    intro r hr r' hr' hcontains hcontains'
    by_contra hne
    obtain ⟨i, hi, rfl⟩ := List.mem_iff_getElem.mp hr
    obtain ⟨j, hj, rfl⟩ := List.mem_iff_getElem.mp hr'
    refine Region.Disjoint.not_contains ?_ hcontains hcontains'
    rcases Nat.lt_trichotomy i j with hlt | rfl | hlt
    · exact Or.inl (List.pairwise_iff_getElem.mp hdisjoint i j hi hj hlt)
    · exact absurd rfl hne
    · exact Or.inr (List.pairwise_iff_getElem.mp hdisjoint j i hj hi hlt)
  cases found with
  | none =>
    cases found' with
    | none => rfl
    | some r' => exact absurd h'.2 (h r' h'.1)
  | some r =>
    cases found' with
    | none => exact absurd h.2 (h' r h.1)
    | some r' => rw [heq r h.1 r' h'.1 h.2 h'.2]

/-- If what is found is right, a region that ends at the address is not the first match. -/
theorem exists_contains_before {before after : List Region} {last : Region}
    (hends : last.EndsAt address) (hregion : IsRegionOf (before ++ last :: after) address
      (region (before ++ last :: after) address)) :
    ∃ other ∈ before, other.Contains address := by
  cases hfound : region (before ++ last :: after) address with
  | none =>
    rw [region, List.find?_eq_none] at hfound
    have hlast := hfound last (List.mem_append_right before List.mem_cons_self)
    exact absurd hends.decide_matches hlast
  | some found =>
    rw [hfound] at hregion
    rw [region, List.find?_append] at hfound
    cases hbefore : before.find? fun region => region.Matches address with
    | some other =>
      rw [hbefore] at hfound
      obtain rfl := Option.some.inj hfound
      exact ⟨_, List.mem_of_find?_eq_some hbefore, hregion.2⟩
    | none =>
      rw [hbefore, Option.none_or, List.find?_cons_of_pos] at hfound
      · obtain rfl := Option.some.inj hfound
        exact absurd hregion.2 hends.not_contains
      · exact hends.decide_matches

/-- **Region lookup.** Exactly if each region that ends at the address is listed behind one that
contains it, the region is found that contains the address, or none if there is none. -/
theorem region_isRegionOf_iff (regions : List Region) (address : Symbol) :
    IsRegionOf regions address (region regions address) ↔
      ∀ before last after, regions = before ++ last :: after → last.EndsAt address →
        ∃ other ∈ before, other.Contains address := by
  constructor
  · rintro hregion before last after rfl hends
    exact exists_contains_before hends hregion
  · intro hends
    cases hfound : region regions address with
    | none =>
      rw [region, List.find?_eq_none] at hfound
      intro other hother hcontains
      exact hfound other hother (decide_eq_true (Region.matches_iff.mpr (Or.inl hcontains)))
    | some found =>
      rw [region, List.find?_eq_some_iff_append] at hfound
      obtain ⟨hmatches, before, after, rfl, hbefore⟩ := hfound
      refine ⟨List.mem_append_right before List.mem_cons_self, ?_⟩
      rcases Region.matches_iff.mp (of_decide_eq_true hmatches) with hcontains | hlast
      · exact hcontains
      · -- no region before it matches, but one of them has to contain the address
        obtain ⟨other, hother, hcontains⟩ := hends before found after rfl hlast
        have hnot := hbefore other hother
        simp [Region.matches_iff, hcontains] at hnot

/-- At the border of two regions the first one is found, and behind the last region that one. -/
theorem not_isRegionOf_border :
    [(⟨⟨0x1000⟩, 0x2000⟩ : Region), ⟨⟨0x2000⟩, 0x3000⟩].Pairwise Region.Disjoint ∧
    ¬ IsRegionOf [⟨⟨0x1000⟩, 0x2000⟩, ⟨⟨0x2000⟩, 0x3000⟩] ⟨0x2000⟩
        (region [⟨⟨0x1000⟩, 0x2000⟩, ⟨⟨0x2000⟩, 0x3000⟩] ⟨0x2000⟩) ∧
      ¬ IsRegionOf [⟨⟨0x1000⟩, 0x2000⟩, ⟨⟨0x2000⟩, 0x3000⟩] ⟨0x3000⟩
        (region [⟨⟨0x1000⟩, 0x2000⟩, ⟨⟨0x2000⟩, 0x3000⟩] ⟨0x3000⟩) := by
  decide

end RpcProject.Darwin
