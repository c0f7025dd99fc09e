/-
# Navigation between accessibility elements

`next` looks for the neighbour of an element in a direction: it asks the hierarchy
that the element is part of, then for a list of neighbours, and then does the same
for the parent. What the hierarchy answers may be an element to be skipped, from
which the search goes on.

Where it goes on, the direction is not passed along: the search from a skipped
element is always one for the next element. So a backward search keeps its direction
exactly where none of the elements that it gets to has a skipped element before it
from which there is a way on.
-/

import Mathlib.Logic.Relation
import RpcProject.Foundations.Effects

namespace RpcProject.Ios

open Foundations

/-- The two directions. -/
inductive AXDirection
  | next
  | previous
  deriving DecidableEq, Repr

/-- The address of an element, zero for none. -/
abbrev Element := ℕ

/-- What the device answers about its elements. A message to no element gives zero. -/
structure Graph where
  isProvider : Element → Bool
  elementForAttribute : ℕ → Element → Element
  /-- the element for the attribute 95225, with a direction -/
  opaqueNeighbour : AXDirection → Element → Element
  /-- what `nextElementsWithCount:` or `previousElementsWithCount:` lists for one element -/
  neighbours : AXDirection → Element → List Element
  /-- the element for the attribute 95226 -/
  focused : Element → Element
  uiElement : Element → ℕ
  /-- the attribute 2046 of a user interface element -/
  isContainer : ℕ → Bool
  enabled : Bool
  primaryApp : Element
  isProvider_zero : isProvider 0 = false

/-- A question for the neighbour of an element. -/
inductive Query
  | opaqueNeighbour (direction : AXDirection) (element : Element)
  | list (direction : AXDirection) (element : Element)
  deriving DecidableEq, Repr

/-- The direction of a query. -/
def Query.direction : Query → AXDirection
  | opaqueNeighbour direction _ => direction
  | list direction _ => direction

/-- What the methods raise. -/
inductive Raised
  /-- an argument of a call has a type that cannot be sent -/
  | assertNever
  | recursion
  | firstElementNotFound
  | lastElementNotFound
  | accessibilityTurnedOff
  | failedToGetPrimaryApp
  deriving DecidableEq, Repr

/-- Whether a result is true: an element, and not none. -/
def Present (result : Option Element) : Prop := result ≠ none ∧ result ≠ some 0

instance : DecidablePred Present := fun _ => inferInstanceAs (Decidable (_ ∧ _))

/-- Calls on the device, with the questions asked so far. The calls of one of these
functions in another are as deep as the fuel. -/
abbrev Call := Effect (List Query) Raised

namespace Graph

variable (g : Graph)

/-- An element from which the search goes on. -/
def Skipped (element : Element) : Prop :=
  element ≠ 0 ∧ g.uiElement element ≠ 0 ∧ g.isContainer (g.uiElement element) = true

instance : DecidablePred g.Skipped := fun _ => inferInstanceAs (Decidable (_ ∧ _))

/-- `_parent`: the element's own, or that of the one it leads to. -/
def parent : ℕ → Element → Except Raised (Option Element)
  | 0, _ => .error .recursion
  | fuel + 1, element =>
      if g.elementForAttribute 2066 element ≠ 0 then .ok (some (g.elementForAttribute 2066 element))
      else if g.elementForAttribute 2092 element ≠ 0 then
        parent fuel (g.elementForAttribute 2092 element)
      else .ok none

/-- The element whose hierarchy is asked. -/
def host (fuel : ℕ) (element : Element) : Except Raised (Option Element) :=
  if g.isProvider element = true then .ok (some element) else g.parent fuel element

/-- `_element_for_attribute` with the attribute 95225 -/
def askOpaque (direction : AXDirection) (element : Element) : Call Element := do
  Effect.emit (.opaqueNeighbour direction element)
  return g.opaqueNeighbour direction element

/-- `_next_elements_with_count` or `_previous_elements_with_count`, with one -/
def elementsWithCount (direction : AXDirection) (element : Element) : Call (List Element) := do
  Effect.emit (.list direction element)
  return g.neighbours direction element

/-- `_element_for_attribute` with the attribute 95226. The object with the text "AXAudit"
is not awaited, and a coroutine cannot be sent. -/
def focusedElement (element : Element) : Call Element := do
  Effect.raise .assertNever
  return g.focused element

/-- `set_assistive_focus`, which goes the same way up. -/
def setAssistiveFocus : ℕ → Element → Except Raised Unit
  | 0, _ => .error .recursion
  | fuel + 1, element =>
      if g.elementForAttribute 2092 element ≠ 0 then
        setAssistiveFocus fuel (g.elementForAttribute 2092 element)
      else .ok ()

/-- `_next_opaque` -/
def nextOpaque : ℕ → AXDirection → Element → Call (Option Element)
  | 0, _, _ => Effect.raise .recursion
  | fuel + 1, direction, element => do
      let host ← Effect.ask fun _ => g.host fuel element
      match host with
      | none => return none
      | some host => do
          let element ← g.askOpaque direction host
          -- the direction takes its default where the search goes on
          if g.Skipped element then nextOpaque fuel .next element
          else return some element

/-- Move the focus to an element with a hierarchy of its own, and search that. -/
def enterProvider (fuel : ℕ) (direction : AXDirection) (element provider : Element) :
    Call (Option Element) := do
  let focused ← g.focusedElement element
  Effect.ask fun _ => if focused ≠ 0 then g.setAssistiveFocus fuel focused else .ok ()
  Effect.ask fun _ => g.setAssistiveFocus fuel provider
  g.nextOpaque fuel direction provider

/-- What the head of a list leads to. -/
def fromHead (fuel : ℕ) (direction : AXDirection) (element head : Element) :
    Call (Option Element) :=
  if g.isProvider head = true then g.enterProvider fuel direction element head
  else pure (some head)

/-- The element of a list that `next` returns, if it does. -/
def fromList (fuel : ℕ) (direction : AXDirection) (element : Element) :
    List Element → Call (Option Element)
  | [] => pure none
  | head :: _ => do
      let result ← g.fromHead fuel direction element head
      return result.filter fun result => result ≠ 0 ∧ g.isProvider result = false

/-- `first_element` and `last_element` -/
def endElement (axattribute : ℕ) (missing : Raised) (element : Element) :
    Except Raised (Option Element) :=
  let result := g.elementForAttribute axattribute element
  if result = 0 then .error missing
  else if g.isContainer (g.uiElement result) = true then
    .ok (some (g.elementForAttribute axattribute result))
  else .ok (some result)

/-- `get_primary_app` -/
def getPrimaryApp : Except Raised Element :=
  if g.enabled = false then .error .accessibilityTurnedOff
  else if g.primaryApp = 0 then .error .failedToGetPrimaryApp
  else .ok g.primaryApp

/-- Where the search starts again at the other end. -/
def cycle (direction : AXDirection) (cyclic : Bool) : Except Raised (Option Element) :=
  if cyclic = true then do
    let app ← g.getPrimaryApp
    match direction with
    | .next => g.endElement 3000 .firstElementNotFound app
    | .previous => g.endElement 3016 .lastElementNotFound app
  else .ok none

/-- `next` -/
def next : ℕ → AXDirection → Bool → Element → Call (Option Element)
  | 0, _, _, _ => Effect.raise .recursion
  | fuel + 1, direction, cyclic, element => do
      let nextOpaque ← g.nextOpaque fuel direction element
      if g.isProvider element = false ∧ Present nextOpaque then return nextOpaque
      else do
        let nextOrPrevList ← g.elementsWithCount direction element
        let listed ← g.fromList fuel direction element nextOrPrevList
        if Present listed then return listed
        else do
          let result ← g.nextOpaque fuel direction element
          if Present result then return result
          else do
            let parent ← Effect.ask fun _ =>
              if g.isProvider element = true then .ok none else g.parent fuel element
            match parent with
            | some parent => next fuel direction cyclic parent
            | none => Effect.ask fun _ => g.cycle direction cyclic

/-! ## Elements on the way -/

/-- Where the search for a parent ends: at one, or at none. -/
inductive ParentIs : Element → Option Element → Prop
  | near {element : Element} (hnear : g.elementForAttribute 2066 element ≠ 0) :
      ParentIs element (some (g.elementForAttribute 2066 element))
  | far {element : Element} {parent : Option Element}
      (hnear : g.elementForAttribute 2066 element = 0)
      (hfar : g.elementForAttribute 2092 element ≠ 0)
        (hparent : ParentIs (g.elementForAttribute 2092 element) parent) :
      ParentIs element parent
  | none {element : Element} (hnear : g.elementForAttribute 2066 element = 0)
      (hfar : g.elementForAttribute 2092 element = 0) : ParentIs element none

/-- The element whose hierarchy an element is part of, or none. -/
def HostIs (element : Element) (host : Option Element) : Prop :=
  if g.isProvider element = true then host = some element else g.ParentIs element host

/-- Before the element there is one to be skipped, from which there is a way on. -/
def Turns (element : Element) : Prop :=
  ∃ host host', g.HostIs element (some host) ∧ g.Skipped (g.opaqueNeighbour .previous host) ∧
    g.HostIs (g.opaqueNeighbour .previous host) (some host')

/-- A backward search that finds nothing before an element goes on with its parent. -/
def HandsOver (element parent : Element) : Prop :=
  g.isProvider element = false ∧ g.ParentIs element (some parent) ∧
    (g.opaqueNeighbour .previous parent = 0 ∨ g.Skipped (g.opaqueNeighbour .previous parent) ∧
      g.HostIs (g.opaqueNeighbour .previous parent) none) ∧
    ∀ head ∈ (g.neighbours .previous element).head?, head = 0

/-- A search in a direction does not turn round. -/
def Straight (direction : AXDirection) (element : Element) : Prop :=
  direction = .next ∨ ∀ x, Relation.ReflTransGen g.HandsOver element x → ¬ g.Turns x

section Hosts

variable {g : Graph} {element parent : Element} {result result' : Option Element} {fuel : ℕ}

theorem ParentIs.unique (hresult : g.ParentIs element result)
    (hresult' : g.ParentIs element result') :
    result = result' := by
  induction hresult with
  | near hnear =>
    cases hresult' with
    | near hnear' => rfl
    | far hnear' hfar' hparent' => exact absurd hnear' hnear
    | none hnear' hfar' => exact absurd hnear' hnear
  | far hnear hfar hparent ih =>
    cases hresult' with
    | near hnear' => exact absurd hnear hnear'
    | far hnear' hfar' hparent' => exact ih hparent'
    | none hnear' hfar' => exact absurd hfar' hfar
  | none hnear hfar =>
    cases hresult' with
    | near hnear' => exact absurd hnear hnear'
    | far hnear' hfar' hparent' => exact absurd hfar hfar'
    | none hnear' hfar' => rfl

theorem parentIs_of_parent (hparent : g.parent fuel element = .ok result) :
    g.ParentIs element result := by
  induction fuel generalizing element with
  | zero => cases hparent
  | succ fuel ih =>
    rw [Graph.parent] at hparent
    split at hparent
    · next hnear =>
      cases hparent
      exact .near hnear
    · next hnear =>
      split at hparent
      · next hfar => exact .far (not_not.mp hnear) hfar (ih hparent)
      · next hfar =>
        cases hparent
        exact .none (not_not.mp hnear) (not_not.mp hfar)

theorem parent_of_parentIs (hparent : g.ParentIs element result) :
    ∃ n, ∀ fuel, n ≤ fuel → g.parent fuel element = .ok result := by
  induction hparent with
  | near hnear =>
    refine ⟨1, fun fuel hfuel => ?_⟩
    obtain ⟨fuel, rfl⟩ := Nat.exists_eq_add_of_le' hfuel
    exact if_pos hnear
  | far hnear hfar _ ih =>
    obtain ⟨n, hn⟩ := ih
    refine ⟨n + 1, fun fuel hfuel => ?_⟩
    obtain ⟨more, rfl⟩ := Nat.exists_eq_add_of_le' hfuel
    rw [← Nat.add_assoc, Graph.parent, if_neg (not_not.mpr hnear), if_pos hfar]
    exact hn _ (Nat.le_add_left n more)
  | none hnear hfar =>
    refine ⟨1, fun fuel hfuel => ?_⟩
    obtain ⟨fuel, rfl⟩ := Nat.exists_eq_add_of_le' hfuel
    rw [Graph.parent, if_neg (not_not.mpr hnear), if_neg (not_not.mpr hfar)]

/-- The host that is found is the host. -/
theorem hostIs_of_host (hhost : g.host fuel element = .ok result) : g.HostIs element result := by
  rw [Graph.host] at hhost
  rw [HostIs]
  split at hhost
  · next hprovider =>
    rw [if_pos hprovider]
    exact (Except.ok.inj hhost).symm
  · next hprovider =>
    rw [if_neg hprovider]
    exact parentIs_of_parent hhost

theorem host_of_hostIs (hhost : g.HostIs element result) :
    ∃ n, ∀ fuel, n ≤ fuel → g.host fuel element = .ok result := by
  rw [HostIs] at hhost
  split at hhost
  · next hprovider => exact ⟨0, fun fuel _ => by rw [Graph.host, if_pos hprovider, hhost]⟩
  · next hprovider =>
    obtain ⟨n, hn⟩ := parent_of_parentIs hhost
    exact ⟨n, fun fuel hfuel => by rw [Graph.host, if_neg hprovider, hn fuel hfuel]⟩

theorem HostIs.unique (hresult : g.HostIs element result) (hresult' : g.HostIs element result') :
    result = result' := by
  rw [HostIs] at hresult hresult'
  split at hresult
  · next hprovider => rw [hresult, (if_pos hprovider).mp hresult']
  · next hprovider => exact hresult.unique ((if_neg hprovider).mp hresult')

end Hosts

/-! ## Searches that keep their direction -/

/-- All questions added have the direction. -/
def SameDirection (direction : AXDirection) (s t : List Query) : Prop :=
  (∀ query ∈ s, query.direction = direction) → ∀ query ∈ t, query.direction = direction

instance (direction : AXDirection) : Std.Refl (SameDirection direction) := ⟨fun _ h => h⟩

instance (direction : AXDirection) : IsTrans (List Query) (SameDirection direction) :=
  ⟨fun _ _ _ hfirst hsecond h => hsecond (hfirst h)⟩

section Keeps

variable {g : Graph} {direction : AXDirection} {element parent : Element}
  {result : Option Element} {fuel : ℕ} {s t : List Query}

/-- A query in a direction keeps to it. -/
theorem keeps_emit (query : Query) (hquery : query.direction = direction) :
    Effect.Keeps (SameDirection direction)
      (Effect.emit query : Effect (List Query) Raised Unit) := by
  intro s h query' hmem
  rcases List.mem_append.mp hmem with hold | hnew
  · exact h query' hold
  · rw [List.mem_singleton.mp hnew, hquery]

theorem keeps_askOpaque (g : Graph) (direction : AXDirection) (element : Element) :
    Effect.Keeps (SameDirection direction) (g.askOpaque direction element) := by
  apply Effect.Keeps.bind (keeps_emit (.opaqueNeighbour direction element) rfl)
  exact fun _ => Effect.keeps_pure _

theorem keeps_elementsWithCount (g : Graph) (direction : AXDirection) (element : Element) :
    Effect.Keeps (SameDirection direction) (g.elementsWithCount direction element) := by
  apply Effect.Keeps.bind (keeps_emit (.list direction element) rfl)
  exact fun _ => Effect.keeps_pure _

/-- What the hierarchy answers is its neighbour. -/
theorem eq_of_askOpaque {answer : Element}
    (hrun : g.askOpaque direction element s = (.ok answer, t)) :
    g.opaqueNeighbour direction element = answer := by
  obtain ⟨⟨⟩, u, -, hpure⟩ := Effect.bind_eq_ok_iff.mp hrun
  exact (Effect.pure_eq_ok_iff.mp hpure).1

/-- The list that is returned is the list of neighbours. -/
theorem eq_of_elementsWithCount {list : List Element}
    (hrun : g.elementsWithCount direction element s = (.ok list, t)) :
    g.neighbours direction element = list := by
  obtain ⟨⟨⟩, u, -, hpure⟩ := Effect.bind_eq_ok_iff.mp hrun
  exact (Effect.pure_eq_ok_iff.mp hpure).1

/-- How the search goes on from a host. -/
theorem nextOpaque_of_host {host : Element} (hhost : g.host fuel element = .ok (some host))
    (direction : AXDirection) (s : List Query) :
    g.nextOpaque (fuel + 1) direction element s =
      (if g.Skipped (g.opaqueNeighbour direction host) then
        g.nextOpaque fuel .next (g.opaqueNeighbour direction host)
      else pure (some (g.opaqueNeighbour direction host)))
        (s ++ [.opaqueNeighbour direction host]) := by
  rw [Graph.nextOpaque, Effect.ask_bind_of_ok hhost]
  rfl

/-- One search of a hierarchy: what it asks first, and how it goes on. -/
theorem keeps_nextOpaque_of {R : List Query → List Query → Prop} [Std.Refl R]
    [IsTrans (List Query) R] (hask : ∀ host, Effect.Keeps R (g.askOpaque direction host))
    (hnext : ∀ host, g.HostIs element (some host) → g.Skipped (g.opaqueNeighbour direction host) →
      Effect.Keeps R (g.nextOpaque fuel .next (g.opaqueNeighbour direction host))) :
    Effect.Keeps R (g.nextOpaque (fuel + 1) direction element) := by
  rw [Graph.nextOpaque]
  refine Effect.keeps_bind_of (Effect.keeps_ask _) fun s host t hhost => ?_
  cases host with
  | none => exact Effect.keeps_pure _ t
  | some host =>
    have hhost' : g.HostIs element (some host) := hostIs_of_host (Prod.mk.inj hhost).1
    refine Effect.keeps_bind_of (hask host) (fun s' answer t' hanswer => ?_) t
    obtain rfl := eq_of_askOpaque hanswer
    split
    · next hskipped => exact hnext host hhost' hskipped t'
    · exact Effect.keeps_pure _ t'

/-- Forwards the search keeps its direction. -/
theorem keeps_nextOpaque_next (g : Graph) (fuel : ℕ) (element : Element) :
    Effect.Keeps (SameDirection .next) (g.nextOpaque fuel .next element) := by
  induction fuel generalizing element with
  | zero => exact Effect.keeps_raise _
  | succ fuel ih => exact keeps_nextOpaque_of (keeps_askOpaque g .next) fun _ _ _ => ih _

/-- A search without a way on asks nothing. -/
theorem keeps_nextOpaque_of_not_host {R : List Query → List Query → Prop} [Std.Refl R]
    (hhost : ∀ host, ¬ g.HostIs element (some host)) :
    Effect.Keeps R (g.nextOpaque fuel direction element) := by
  intro s
  cases fuel with
  | zero => exact refl_of R s
  | succ fuel =>
    rw [Graph.nextOpaque]
    cases hfound : g.host fuel element with
    | error e =>
      rw [Effect.ask_bind_of_error rfl]
      exact refl_of R s
    | ok host =>
      rw [Effect.ask_bind_of_ok rfl]
      cases host with
      | none => exact refl_of R s
      | some host => exact absurd (hostIs_of_host hfound) (hhost host)

theorem keeps_nextOpaque (hturns : direction = .next ∨ ¬ g.Turns element) :
    Effect.Keeps (SameDirection direction) (g.nextOpaque fuel direction element) := by
  cases direction with
  | next => exact keeps_nextOpaque_next g fuel element
  | previous =>
    have hnot : ¬ g.Turns element := hturns.resolve_left (by simp)
    cases fuel with
    | zero => exact Effect.keeps_raise _
    | succ fuel =>
      apply keeps_nextOpaque_of (keeps_askOpaque g .previous)
      intro host hhost hskipped
      exact keeps_nextOpaque_of_not_host fun host' hhost' =>
        hnot ⟨host, host', hhost, hskipped, hhost'⟩

/-- What is taken from a list asks nothing in a direction. -/
theorem keeps_fromList {R : List Query → List Query → Prop} [Std.Refl R] [IsTrans (List Query) R]
    (g : Graph) (fuel : ℕ) (direction : AXDirection) (element : Element) (list : List Element) :
    Effect.Keeps R (g.fromList fuel direction element list) := by
  cases list with
  | nil => exact Effect.keeps_pure _
  | cons head list =>
    rw [Graph.fromList]
    refine Effect.Keeps.bind (R := R) ?_ fun _ => Effect.keeps_pure _
    rw [Graph.fromHead]
    split
    · -- the call for the focused element raises before anything else is asked
      intro s
      exact refl_of R s
    · exact Effect.keeps_pure _

/-- A search that comes back knows whose hierarchy to ask, or that there is none. -/
theorem exists_hostIs_of_nextOpaque
    (hrun : g.nextOpaque fuel direction element s = (.ok result, t)) :
    ∃ host, g.HostIs element host := by
  cases fuel with
  | zero => cases hrun
  | succ fuel =>
    rw [Graph.nextOpaque] at hrun
    obtain ⟨host, hhost, -⟩ := Effect.ask_bind_eq_ok_iff.mp hrun
    exact ⟨host, hostIs_of_host hhost⟩

/-- A backward search of the hierarchy that an element is part of through its parent
finds nothing only if there is nothing before the parent. -/
theorem blank_of_nextOpaque (hparent : g.HostIs element (some parent)) (hturns : ¬ g.Turns element)
    (hrun : g.nextOpaque fuel .previous element s = (.ok result, t)) (hresult : ¬ Present result) :
    g.opaqueNeighbour .previous parent = 0 ∨ g.Skipped (g.opaqueNeighbour .previous parent) ∧
      g.HostIs (g.opaqueNeighbour .previous parent) none := by
  cases fuel with
  | zero => cases hrun
  | succ fuel =>
    rw [Graph.nextOpaque] at hrun
    obtain ⟨host, hhost, hrun⟩ := Effect.ask_bind_eq_ok_iff.mp hrun
    obtain rfl := (hostIs_of_host hhost).unique hparent
    obtain ⟨answer, u, hask, hrun⟩ := Effect.bind_eq_ok_iff.mp hrun
    obtain rfl := eq_of_askOpaque hask
    split at hrun
    · next hskipped =>
      right
      refine ⟨hskipped, ?_⟩
      obtain ⟨host', hhost'⟩ := exists_hostIs_of_nextOpaque hrun
      cases host' with
      | none => exact hhost'
      | some host' => exact absurd ⟨parent, host', hparent, hskipped, hhost'⟩ hturns
    · left
      obtain ⟨rfl, -⟩ := Effect.pure_eq_ok_iff.mp hrun
      by_contra hne
      exact hresult ⟨by simp, by simpa using hne⟩

/-- Only an empty list, or one without an element, leads nowhere. -/
theorem head_of_fromList {list : List Element}
    (hrun : g.fromList fuel direction element list s = (.ok result, t))
    (hresult : ¬ Present result) :
    ∀ head ∈ list.head?, head = 0 := by
  cases list with
  | nil => exact fun head hhead => (by cases hhead)
  | cons head list =>
    intro head' hhead
    obtain rfl := Option.some.inj hhead
    rw [Graph.fromList] at hrun
    obtain ⟨answer, u, hhead', hpure⟩ := Effect.bind_eq_ok_iff.mp hrun
    rw [Graph.fromHead] at hhead'
    split at hhead'
    · cases hhead'
    · next hprovider =>
      obtain ⟨rfl, -⟩ := Effect.pure_eq_ok_iff.mp hhead'
      obtain ⟨rfl, -⟩ := Effect.pure_eq_ok_iff.mp hpure
      by_contra hne
      apply hresult
      simp [Present, Option.filter, hne, Bool.eq_false_iff.mpr hprovider]

/-- Once both searches have found nothing, what is left is to ask the parent. -/
theorem handsOver_of_run {listed : Option Element} {s' t' : List Query}
    (hturns : ¬ g.Turns element)
    (hparent : (if g.isProvider element = true then .ok none else g.parent fuel element) =
      .ok (some parent))
    (hrun : g.nextOpaque fuel .previous element s = (.ok result, t)) (hresult : ¬ Present result)
    (hlist : g.fromList fuel .previous element (g.neighbours .previous element) s' =
    (.ok listed, t'))
    (hlisted : ¬ Present listed) : g.HandsOver element parent := by
  split at hparent
  · cases hparent
  · next hprovider =>
    have hparentIs := parentIs_of_parent hparent
    have hhost : g.HostIs element (some parent) := by rwa [HostIs, if_neg hprovider]
    exact ⟨Bool.eq_false_iff.mpr hprovider, hparentIs,
        blank_of_nextOpaque hhost hturns hrun hresult,
      head_of_fromList hlist hlisted⟩

/-- What `next` does once its first search has come back. -/
def searchOn (g : Graph) (fuel : ℕ) (direction : AXDirection) (cyclic : Bool) (element : Element)
    (nextOpaque : Option Element) : Call (Option Element) :=
  if g.isProvider element = false ∧ Present nextOpaque then pure nextOpaque
  else do
    let nextOrPrevList ← g.elementsWithCount direction element
    let listed ← g.fromList fuel direction element nextOrPrevList
    if Present listed then return listed
    else do
      let result ← g.nextOpaque fuel direction element
      if Present result then return result
      else do
        let parent ← Effect.ask fun _ =>
          if g.isProvider element = true then .ok none else g.parent fuel element
        match parent with
        | some parent => g.next fuel direction cyclic parent
        | none => Effect.ask fun _ => g.cycle direction cyclic

/-- A search is a neighbour, and what is done with it. -/
theorem next_succ (g : Graph) (fuel : ℕ) (direction : AXDirection) (cyclic : Bool)
    (element : Element) : g.next (fuel + 1) direction cyclic element =
      g.nextOpaque fuel direction element >>= g.searchOn fuel direction cyclic element := rfl

/-- What a search does until it is handed over. -/
theorem keeps_searchOn_of {R : List Query → List Query → Prop} [Std.Refl R] [IsTrans (List Query) R]
    {cyclic : Bool} (hneighbour : Effect.Keeps R (g.nextOpaque fuel direction element))
    (hlist : Effect.Keeps R (g.elementsWithCount direction element))
    (hnext : ∀ parent result s t listed s' t',
      (if g.isProvider element = true then .ok none else g.parent fuel element) =
        .ok (some parent) →
      g.nextOpaque fuel direction element s = (.ok result, t) → ¬ Present result →
      g.fromList fuel direction element (g.neighbours direction element) s' = (.ok listed, t') →
      ¬ Present listed → Effect.Keeps R (g.next fuel direction cyclic parent))
    (found : Option Element) : Effect.Keeps R (g.searchOn fuel direction cyclic element found) := by
  rw [searchOn]
  split
  · exact Effect.keeps_pure _
  · apply Effect.keeps_bind_of hlist
    intro s₁ list t₁ hrun
    obtain rfl := eq_of_elementsWithCount hrun
    refine Effect.keeps_bind_of (keeps_fromList g fuel direction element _)
      (fun s₂ listed t₂ hlisted => ?_) t₁
    split
    · exact Effect.keeps_pure _ t₂
    · next hnotListed =>
      refine Effect.keeps_bind_of hneighbour (fun s₃ result t₃ hresult => ?_) t₂
      split
      · exact Effect.keeps_pure _ t₃
      · next hnotResult =>
        refine Effect.keeps_bind_of (Effect.keeps_ask _) (fun s₄ parent t₄ hparent => ?_) t₃
        cases parent with
        | none => exact Effect.keeps_ask _ t₄
        | some parent =>
          exact hnext parent _ _ _ _ _ _ (Prod.mk.inj hparent).1 hresult hnotResult hlisted
            hnotListed t₄

/-- A search that keeps its direction where it starts, and wherever it is handed over to. -/
theorem keeps_next (cyclic : Bool) (hstraight : g.Straight direction element) :
    Effect.Keeps (SameDirection direction) (g.next fuel direction cyclic element) := by
  induction fuel generalizing element with
  | zero => exact Effect.keeps_raise _
  | succ fuel ih =>
    have hturns : direction = .next ∨ ¬ g.Turns element :=
      hstraight.imp_right fun hall => hall element .refl
    rw [next_succ]
    apply (keeps_nextOpaque hturns).bind
    apply keeps_searchOn_of (keeps_nextOpaque hturns) (keeps_elementsWithCount g direction element)
    intro parent result s t listed s' t' hparent hrun hresult hlist hlisted
    apply ih
    cases direction with
    | next => exact Or.inl rfl
    | previous =>
      have hall := hstraight.resolve_left (by simp)
      have hhands := handsOver_of_run (hall element .refl) hparent hrun hresult hlist hlisted
      exact Or.inr fun x hreach => hall x (.head hhands hreach)

end Keeps

/-! ## Searches that turn round -/

/-- A question for the next element was asked. -/
def Turned (s : List Query) : Prop := ∃ query ∈ s, query.direction = .next

/-- Nothing that was asked is forgotten. -/
def Remembers (s t : List Query) : Prop := Turned s → Turned t

instance : Std.Refl Remembers := ⟨fun _ h => h⟩

instance : IsTrans (List Query) Remembers := ⟨fun _ _ _ hfirst hsecond h => hsecond (hfirst h)⟩

section Turned

variable {g : Graph} {direction : AXDirection} {element parent : Element}
  {result : Option Element} {fuel : ℕ} {cyclic : Bool} {s t : List Query}

theorem remembers_emit (query : Query) :
    Effect.Keeps Remembers (Effect.emit query : Effect (List Query) Raised Unit) := by
  rintro s ⟨query', hmem, hnext⟩
  exact ⟨query', List.mem_append_left _ hmem, hnext⟩

theorem remembers_askOpaque (g : Graph) (direction : AXDirection) (element : Element) :
    Effect.Keeps Remembers (g.askOpaque direction element) :=
  (remembers_emit _).bind fun _ => Effect.keeps_pure _

theorem remembers_elementsWithCount (g : Graph) (direction : AXDirection) (element : Element) :
    Effect.Keeps Remembers (g.elementsWithCount direction element) :=
  (remembers_emit _).bind fun _ => Effect.keeps_pure _

theorem remembers_nextOpaque (g : Graph) (fuel : ℕ) (direction : AXDirection) (element : Element) :
    Effect.Keeps Remembers (g.nextOpaque fuel direction element) := by
  induction fuel generalizing direction element with
  | zero => exact Effect.keeps_raise _
  | succ fuel ih => exact keeps_nextOpaque_of (remembers_askOpaque g direction) fun _ _ _ => ih _ _

/-- A turn once made is there ever after. -/
theorem turned_bind {α β : Type} {m : Call α} {f : α → Call β} (hm : Turned (m s).2)
    (hf : ∀ a, Effect.Keeps Remembers (f a)) : Turned ((m >>= f) s).2 := by
  rw [Effect.bind_apply]
  rcases hrun : m s with ⟨_ | a, t⟩
  · rwa [hrun] at hm
  · rw [hrun] at hm
    exact hf a t hm

/-- A search for the next element with a host asks for it. -/
theorem turned_nextOpaque_next {host : Element} (hhost : g.host fuel element = .ok (some host)) :
    Turned (g.nextOpaque (fuel + 1) .next element s).2 := by
  rw [nextOpaque_of_host hhost]
  have hasked : Turned (s ++ [.opaqueNeighbour .next host]) :=
    ⟨_, List.mem_append_right _ (List.mem_singleton_self _), rfl⟩
  split
  · exact remembers_nextOpaque g fuel .next _ _ hasked
  · exact hasked

/-- A search from an element that turns round asks for a next element. -/
theorem turned_nextOpaque (hturns : g.Turns element) :
    ∃ n, ∀ fuel, n ≤ fuel → ∀ s, Turned (g.nextOpaque fuel .previous element s).2 := by
  obtain ⟨host, host', hhost, hskipped, hhost'⟩ := hturns
  obtain ⟨n, hn⟩ := host_of_hostIs hhost
  obtain ⟨n', hn'⟩ := host_of_hostIs hhost'
  refine ⟨max n n' + 2, fun fuel hfuel s => ?_⟩
  obtain ⟨more, rfl⟩ := Nat.exists_eq_add_of_le' hfuel
  rw [← Nat.add_assoc, nextOpaque_of_host (hn _ (by omega)), if_pos hskipped]
  exact turned_nextOpaque_next (hn' _ (by omega))

/-- What comes after the first search takes no turn back, if the searches from parents do not. -/
theorem remembers_searchOn
    (hnext : ∀ parent, Effect.Keeps Remembers (g.next fuel direction cyclic parent))
    (element : Element) (found : Option Element) :
    Effect.Keeps Remembers (g.searchOn fuel direction cyclic element found) := by
  apply keeps_searchOn_of (remembers_nextOpaque g fuel direction element)
    (remembers_elementsWithCount g direction element)
  exact fun parent _ _ _ _ _ _ _ _ _ _ _ => hnext parent

theorem remembers_next (g : Graph) (fuel : ℕ) (direction : AXDirection) (cyclic : Bool)
    (element : Element) : Effect.Keeps Remembers (g.next fuel direction cyclic element) := by
  induction fuel generalizing element with
  | zero => exact Effect.keeps_raise _
  | succ fuel ih =>
    rw [next_succ]
    apply (remembers_nextOpaque g fuel direction element).bind
    exact remembers_searchOn ih element

/-- A blank search finds nothing, with enough fuel. -/
theorem nextOpaque_of_handsOver (hhands : g.HandsOver element parent) :
    ∃ n, ∀ fuel, n ≤ fuel → ∀ s, ∃ result t,
      g.nextOpaque fuel .previous element s = (.ok result, t) ∧ ¬ Present result := by
  obtain ⟨hprovider, hparent, hblank, -⟩ := hhands
  have hhost : g.HostIs element (some parent) := by
    rwa [HostIs, if_neg (Bool.eq_false_iff.mp hprovider)]
  obtain ⟨n, hn⟩ := host_of_hostIs hhost
  rcases hblank with hzero | ⟨hskipped, hnone⟩
  · refine ⟨n + 1, fun fuel hfuel s => ?_⟩
    obtain ⟨more, rfl⟩ := Nat.exists_eq_add_of_le' hfuel
    rw [← Nat.add_assoc, nextOpaque_of_host (hn _ (by omega)), if_neg fun h => h.1 hzero, hzero]
    exact ⟨_, _, rfl, fun h => h.2 rfl⟩
  · obtain ⟨n', hn'⟩ := host_of_hostIs hnone
    refine ⟨max n n' + 2, fun fuel hfuel s => ?_⟩
    obtain ⟨more, rfl⟩ := Nat.exists_eq_add_of_le' hfuel
    rw [← Nat.add_assoc, nextOpaque_of_host (hn _ (by omega)), if_pos hskipped, Graph.nextOpaque,
      Effect.ask_bind_of_ok (hn' _ (by omega))]
    exact ⟨_, _, rfl, fun h => h.1 rfl⟩

/-- A list that starts with nothing gives nothing. -/
theorem fromList_of_blank {list : List Element} (hhead : ∀ head ∈ list.head?, head = 0)
    (s : List Query) : g.fromList fuel direction element list s = (.ok none, s) := by
  cases list with
  | nil => rfl
  | cons head list =>
    obtain rfl := hhead head rfl
    rw [Graph.fromList, Graph.fromHead, if_neg (by simp [g.isProvider_zero])]
    rfl

/-- With enough fuel, the search is handed over. -/
theorem next_of_handsOver (cyclic : Bool) (hhands : g.HandsOver element parent) :
    ∃ n, ∀ fuel, n ≤ fuel → ∀ s, ∃ t,
      g.next (fuel + 1) .previous cyclic element s = g.next fuel .previous cyclic parent t := by
  obtain ⟨n, hn⟩ := nextOpaque_of_handsOver hhands
  obtain ⟨hprovider, hparent, -, hhead⟩ := hhands
  obtain ⟨n', hn'⟩ := parent_of_parentIs hparent
  refine ⟨max n n', fun fuel hfuel s => ?_⟩
  obtain ⟨result, t, hrun, hresult⟩ := hn fuel (by omega) s
  have hlist : g.elementsWithCount .previous element t =
      (.ok (g.neighbours .previous element), t ++ [.list .previous element]) := rfl
  obtain ⟨result', t', hrun', hresult'⟩ := hn fuel (by omega) (t ++ [.list .previous element])
  have hparent' : (if g.isProvider element = true then .ok none else g.parent fuel element) =
      .ok (some parent) := by
    rw [if_neg (Bool.eq_false_iff.mp hprovider), hn' fuel (by omega)]
  refine ⟨t', ?_⟩
  rw [Graph.next, Effect.bind_of_ok hrun, if_neg fun h => hresult h.2, Effect.bind_of_ok hlist,
    Effect.bind_of_ok (fromList_of_blank hhead _), if_neg fun h => h.1 rfl,
    Effect.bind_of_ok hrun', if_neg hresult', Effect.ask_bind_of_ok hparent']

/-- A search that gets to an element that turns round turns round itself. -/
theorem turned_next (cyclic : Bool) {x : Element}
    (hreach : Relation.ReflTransGen g.HandsOver element x)
    (hturns : g.Turns x) :
    ∃ n, ∀ fuel, n ≤ fuel → ∀ s, Turned (g.next fuel .previous cyclic element s).2 := by
  induction hreach using Relation.ReflTransGen.head_induction_on with
  | refl =>
    obtain ⟨n, hn⟩ := turned_nextOpaque hturns
    refine ⟨n + 1, fun fuel hfuel s => ?_⟩
    obtain ⟨more, rfl⟩ := Nat.exists_eq_add_of_le' hfuel
    rw [← Nat.add_assoc, next_succ]
    exact turned_bind (hn _ (Nat.le_add_left n more) s)
      (remembers_searchOn (remembers_next g _ .previous cyclic) _)
  | head hhands _ ih =>
    obtain ⟨n, hn⟩ := ih
    obtain ⟨n', hn'⟩ := next_of_handsOver cyclic hhands
    refine ⟨max n n' + 1, fun fuel hfuel s => ?_⟩
    obtain ⟨more, rfl⟩ := Nat.exists_eq_add_of_le' hfuel
    obtain ⟨t, hnext⟩ := hn' (more + max n n') (by omega) s
    rw [← Nat.add_assoc, hnext]
    exact hn _ (by omega) t

end Turned

end Graph

/-- **Directions.** Every question for a neighbour that `next` asks is in its direction
exactly when the direction is that to the next element, or no element that the backward
search gets to turns it round. -/
theorem next_keeps_direction_iff (g : Graph) (direction : AXDirection) (cyclic : Bool)
    (element : Element) :
    (∀ fuel, ∀ query ∈ (g.next fuel direction cyclic element []).2, query.direction = direction) ↔
      g.Straight direction element := by
  constructor
  · intro hsame
    cases direction with
    | next => exact Or.inl rfl
    | previous =>
      right
      intro x hreach hturns
      obtain ⟨n, hn⟩ := Graph.turned_next cyclic hreach hturns
      obtain ⟨query, hmem, hnext⟩ := hn n (Nat.le_refl n) []
      cases hnext.symm.trans (hsame n query hmem)
  · exact fun hstraight fuel => Graph.keeps_next cyclic hstraight [] (List.forall_mem_nil _)

/-- The element 1, before it the container 3, and the parent 2 of both. -/
def containerBefore : Graph where
  isProvider _ := false
  elementForAttribute axattribute element :=
    if axattribute = 2066 ∧ (element = 1 ∨ element = 3) then 2 else 0
  opaqueNeighbour
    | .previous, element => if element = 2 then 3 else 0
    | .next, element => if element = 2 then 1 else 0
  neighbours _ _ := []
  focused _ := 0
  uiElement element := element
  isContainer uiElement := uiElement = 3
  enabled := true
  primaryApp := 2
  isProvider_zero := rfl

/-- The backward search from the element comes back to the element. -/
theorem turned_containerBefore :
    (∀ fuel, containerBefore.next (fuel + 4) .previous false 1 [] =
      (.ok (some 1), [.opaqueNeighbour .previous 2, .opaqueNeighbour .next 2])) ∧
      ¬ ∀ (g : Graph) (direction : AXDirection) (cyclic : Bool) (element : Element) (fuel : ℕ),
        ∀ query ∈ (g.next fuel direction cyclic element []).2, query.direction = direction := by
  have hrun : ∀ fuel, containerBefore.next (fuel + 4) .previous false 1 [] =
      (.ok (some 1), [.opaqueNeighbour .previous 2, .opaqueNeighbour .next 2]) := fun _ => rfl
  refine ⟨hrun, fun hclaim => ?_⟩
  have hsame := hclaim containerBefore .previous false 1 4 (.opaqueNeighbour .next 2)
  rw [hrun 0] at hsame
  cases hsame (by simp)

end RpcProject.Ios
