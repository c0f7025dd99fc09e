/-
# Selectors as Python names

A selector is listed for completion with each colon written as an underscore. An attribute
of such a name is looked up under the name with each underscore written as a colon, except
for one at the start. So a selector comes back from its Python name only if it has no
underscore behind its first character and no colon in front.

A name that the lookup of Python finds on the wrapper itself never gets as far.
-/

import RpcProject.Darwin.Methods

namespace RpcProject.Darwin

open Client

/-! ## Names -/

/-- `name.replace(old, new)` for single characters. -/
def replaceChar (old new : Char) (name : Name) : Name :=
  name.map fun c => if c = old then new else c

/-- The Python name under which a selector is listed. -/
def pythonName (sel : Name) : Name := replaceChar ':' '_' sel

/-- Sanitize python name to ObjectiveC name. -/
def sanitizeName : Name → Name
  | '_' :: rest => '_' :: replaceChar '_' ':' rest
  | name => replaceChar '_' ':' name

section Names

variable {old new first : Char} {name sel rest : Name}

theorem replaceChar_cons : replaceChar old new (first :: rest) =
    (if first = old then new else first) :: replaceChar old new rest := rfl

/-- A replacement is undone if the new character was not there before. -/
theorem replaceChar_replaceChar (name : Name) (h : new ∉ name) :
    replaceChar new old (replaceChar old new name) = name := by
  have hsame : ∀ c ∈ name,
      ((fun c => if c = new then old else c) ∘ fun c => if c = old then new else c) c = id c := by
    intro c hc
    have hne : c ≠ new := fun heq => h (heq ▸ hc)
    by_cases hold : c = old <;> simp [hold, hne]
  rw [replaceChar, replaceChar, List.map_map]
  exact (List.map_congr_left hsame).trans (List.map_id name)

/-- The old character is gone after it. -/
theorem not_mem_replaceChar (hne : new ≠ old) : old ∉ replaceChar old new name := by
  rw [replaceChar, List.mem_map]
  rintro ⟨c, -, hc⟩
  split at hc
  · exact hne hc
  · contradiction

/-- Writing a character back gives the name if the character was not in it before. -/
theorem replaceChar_replaceChar_iff (hne : new ≠ old) :
    replaceChar new old (replaceChar old new name) = name ↔ new ∉ name := by
  constructor
  · intro h
    rw [← h]
    exact not_mem_replaceChar hne.symm
  · exact replaceChar_replaceChar name

/-- A name that starts with no underscore. -/
theorem sanitizeName_of_head (hfirst : first ≠ '_') :
    sanitizeName (first :: rest) = replaceChar '_' ':' (first :: rest) := by
  rw [sanitizeName.eq_def]
  split
  · next heq => exact absurd (List.cons.inj heq).1 hfirst
  · rfl

/-- The Python name is that of the sanitised name, whatever it stands for. -/
theorem pythonName_sanitizeName (h : ':' ∉ name) : pythonName (sanitizeName name) = name := by
  cases name with
  | nil => rfl
  | cons first rest =>
    have hrest : ':' ∉ rest := fun hmem => h (List.mem_cons_of_mem _ hmem)
    by_cases hfirst : first = '_'
    · subst hfirst
      rw [sanitizeName, pythonName, replaceChar_cons, if_neg (by decide),
        replaceChar_replaceChar _ hrest]
    · rw [sanitizeName_of_head hfirst, pythonName, replaceChar_replaceChar _ h]

theorem not_mem_pythonName (sel : Name) : ':' ∉ pythonName sel := not_mem_replaceChar (by decide)

/-- A Python name survives the way back and forth. -/
theorem pythonName_sanitizeName_pythonName (sel : Name) :
    pythonName (sanitizeName (pythonName sel)) = pythonName sel :=
  pythonName_sanitizeName (not_mem_pythonName sel)

/-- A selector comes back from its Python name exactly if it does not begin with a colon and has
no underscore behind its first character. -/
theorem sanitizeName_pythonName_iff : sanitizeName (pythonName (first :: rest)) = first :: rest ↔
    first ≠ ':' ∧ '_' ∉ rest := by
  by_cases hcolon : first = ':'
  · subst hcolon
    have hpython : pythonName (':' :: rest) = '_' :: pythonName rest := rfl
    rw [hpython, sanitizeName]
    simp
  · have hpython : pythonName (first :: rest) = first :: pythonName rest := by
      rw [pythonName, replaceChar_cons, if_neg hcolon]
      rfl
    have hrest : replaceChar '_' ':' (pythonName rest) = rest ↔ '_' ∉ rest :=
      replaceChar_replaceChar_iff (by decide)
    rw [hpython]
    by_cases hfirst : first = '_'
    · subst hfirst
      rw [sanitizeName, List.cons.injEq]
      simp [hrest]
    · rw [sanitizeName_of_head hfirst, replaceChar_cons, if_neg hfirst, List.cons.injEq]
      simp [hrest, hcolon]

end Names

/-! ## Attributes -/

/-- What an attribute access gives: what Python finds on the wrapper by itself, or what its
`__getattr__` makes of the name. -/
inductive Attribute (β : Type)
  | ordinary (name : Name)
  | resolved (value : β)
  deriving DecidableEq, Repr

variable {ordinary : Name → Bool} {c : Class} {l : Layout} {sel name : Name}
  {isObjcType : Symbol → Bool}

namespace Class

/-- `__getattr__` -/
def getAttr (c : Class) (item : Name) : Except AttributeError BoundObjectiveCMethod :=
  c.getItem (sanitizeName item)

/-- An attribute of a class wrapper. `__getattr__` is asked only for names that are not found. -/
def getAttribute (ordinary : Name → Bool) (c : Class) (item : Name) :
    Except AttributeError (Attribute BoundObjectiveCMethod) :=
  if ordinary item = true then .ok (.ordinary item) else (c.getAttr item).map .resolved

/-- The names of methods that `__dir__` lists: those of class methods of the chain. -/
def dirNames (c : Class) : List Name :=
  c.chain.flatMap fun k => (k.methods.filter Method.isClass).map fun method =>
    pythonName method.name

/-- The attribute under the Python name of a selector is bound to the class, with that selector
or with one that is listed under the same name. -/
def RoundTrips (ordinary : Name → Bool) (c : Class) (sel : Name) : Prop :=
  ∃ bound, c.getAttribute ordinary (pythonName sel) = .ok (.resolved bound) ∧
    bound.target = .class c ∧ c.HasClassMethod bound.sel ∧ pythonName bound.sel = pythonName sel

end Class

namespace Layout

/-- Whether a name is a member of the loaded class. -/
def hasMember (l : Layout) (name : Name) : Bool :=
  l.ivars.any (fun ivar => ivar.name = name) || l.properties.any
      (fun property => property = name) ||
    l.class_.methods.any (fun method => method.name = name) ||
    l.class_.iterSupers.any fun sup => sup.methods.any fun method => method.name = name

/-- `__getattr__` of a loaded object, with the coroutine that it returns awaited. -/
def getAttr (isObjcType : Symbol → Bool) (l : Layout) (name : Name) :
    Except AttributeError Member :=
  if name.head? = some '_' then .error (.noMember name)
  else if l.hasMember (sanitizeName name) = false then .error (.noMember name)
  else l.get isObjcType (sanitizeName name)

/-- An attribute of a loaded object. -/
def getAttribute (isObjcType : Symbol → Bool) (ordinary : Name → Bool) (l : Layout) (name : Name) :
    Except AttributeError (Attribute Member) :=
  if ordinary name = true then .ok (.ordinary name) else (l.getAttr isObjcType name).map .resolved

/-- The names of methods that `__dir__` lists. -/
def dirNames (l : Layout) : List Name :=
  l.class_.chain.flatMap fun k => k.methods.map fun method => pythonName method.name

end Layout

/-- The selector that a member sends, if it sends one. -/
def Member.selector : Member → Option Name
  | .objcSymbol _ => none
  | .symbol _ => none
  | .sent sel => some sel
  | .method bound => some bound.sel

/-- Some class of the chain defines a method of the name, of either kind. -/
def Class.HasMethod (c : Class) (sel : Name) : Prop := ∃ k ∈ c.chain, k.Defines sel

instance (c : Class) (sel : Name) : Decidable (c.HasMethod sel) :=
  inferInstanceAs (Decidable (∃ k ∈ c.chain, _))

/-- The attribute under the Python name of a selector sends that selector or one that is listed
under the same name. -/
def Layout.RoundTrips (isObjcType : Symbol → Bool) (ordinary : Name → Bool) (l : Layout)
    (sel : Name) : Prop :=
  ∃ member sel', l.getAttribute isObjcType ordinary (pythonName sel) = .ok (.resolved member) ∧
    member.selector = some sel' ∧ l.class_.HasMethod sel' ∧ pythonName sel' = pythonName sel

/-! ## Round trips -/

theorem methods_isClass (k : Class) (method : Method) :
    method ∈ k.methods ↔ method.name ∈
      if method.isClass = true then k.table.classMethods else k.table.instanceMethods := by
  rcases method with ⟨name, _ | _⟩ <;> simp [Class.methods, MethodTable.methods]

/-- The names that `__dir__` of a class wrapper lists for methods. -/
theorem Class.mem_dirNames_iff :
    name ∈ c.dirNames ↔ ∃ sel, c.HasClassMethod sel ∧ pythonName sel = name := by
  rw [dirNames, List.mem_flatMap]
  constructor
  · rintro ⟨k, hk, hname⟩
    obtain ⟨method, hmethod, rfl⟩ := List.mem_map.mp hname
    obtain ⟨hmem, hclass⟩ := List.mem_filter.mp hmethod
    rw [methods_isClass, if_pos hclass] at hmem
    exact ⟨method.name, ⟨k, hk, hmem⟩, rfl⟩
  · rintro ⟨sel, ⟨k, hk, hmem⟩, rfl⟩
    refine ⟨k, hk, List.mem_map.mpr ⟨⟨sel, true⟩, List.mem_filter.mpr ⟨?_, rfl⟩, rfl⟩⟩
    exact (methods_isClass k _).mpr hmem

/-- The names that `__dir__` of a loaded object lists for methods. -/
theorem Layout.mem_dirNames_iff :
    name ∈ l.dirNames ↔ ∃ sel, l.class_.HasMethod sel ∧ pythonName sel = name := by
  rw [dirNames, List.mem_flatMap]
  constructor
  · rintro ⟨k, hk, hname⟩
    obtain ⟨method, hmem, rfl⟩ := List.mem_map.mp hname
    rw [methods_isClass] at hmem
    refine ⟨method.name, ⟨k, hk, ?_⟩, rfl⟩
    split at hmem
    · exact Or.inl hmem
    · exact Or.inr hmem
  · rintro ⟨sel, ⟨k, hk, hdefines⟩, rfl⟩
    refine ⟨k, hk, List.mem_map.mpr ?_⟩
    rcases hdefines with hmem | hmem
    · exact ⟨⟨sel, true⟩, (methods_isClass k _).mpr hmem, rfl⟩
    · exact ⟨⟨sel, false⟩, (methods_isClass k _).mpr hmem, rfl⟩

/-- The attribute of a class wrapper resolves if the nearest class that defines the sanitised name
has it as a class method. -/
theorem Class.roundTrips_iff : c.RoundTrips ordinary sel ↔
    ordinary (pythonName sel) = false ∧ ∃ k, c.nearest (sanitizeName (pythonName sel)) = some k ∧
      sanitizeName (pythonName sel) ∈ k.table.classMethods := by
  cases hordinary : ordinary (pythonName sel) with
  | true => simp [RoundTrips, getAttribute, hordinary]
  | false =>
    have hattr : ∀ bound, c.getAttribute ordinary (pythonName sel) = .ok (.resolved bound) ↔
        c.getItem (sanitizeName (pythonName sel)) = .ok bound := by
      intro bound
      rw [getAttribute, hordinary, getAttr]
      cases c.getItem (sanitizeName (pythonName sel)) <;> simp [Except.map]
    simp only [RoundTrips, hattr, getItem_eq_ok_iff, true_and]
    constructor
    · rintro ⟨bound, ⟨hnearest, -⟩, -⟩
      exact hnearest
    · rintro ⟨k, hnearest, hmem⟩
      exact ⟨_, ⟨⟨k, hnearest, hmem⟩, rfl⟩, rfl, ⟨k, mem_chain_of_nearest hnearest, hmem⟩,
        pythonName_sanitizeName_pythonName sel⟩

/-- A method is one that some class of the chain defines. -/
theorem Class.hasMethod_iff : c.HasMethod sel ↔ ∃ k, c.nearest sel = some k := by
  constructor
  · rintro ⟨k, hk, hdefines⟩
    exact Option.isSome_iff_exists.mp (List.find?_isSome.mpr ⟨k, hk, by simpa using hdefines⟩)
  · rintro ⟨k, hnearest⟩
    exact ⟨k, mem_chain_of_nearest hnearest, defines_of_nearest hnearest⟩

namespace Layout

theorem hasMember_iff : l.hasMember name = true ↔
    (∃ ivar ∈ l.ivars, ivar.name = name) ∨ name ∈ l.properties ∨ l.class_.HasMethod name := by
  have hany : ∀ k : Class, (k.methods.any fun method => method.name = name) = true ↔
      k.Defines name := by
    intro k
    rw [List.any_eq_true, ← List.find?_isSome, ← methodOf, methodOf_methods]
    split <;> simp [*]
  simp only [hasMember, Bool.or_eq_true, hany, Class.HasMethod, Class.chain]
  simp [hany, or_assoc]

/-- What is read out of an ivar sends nothing. -/
theorem get_of_ivar {ivar : Ivar} (hivar : (l.ivars.find? fun ivar => ivar.name = name) = some ivar)
    {member : Member} (hget : l.get isObjcType name = .ok member) : member.selector = none := by
  rw [get, hivar] at hget
  simp only at hget
  split at hget <;> cases hget <;> rfl

/-- A method that is found for an object sends the name it has been looked up by. -/
theorem selector_bindMethod (l : Layout) (name : Name) (method : Method) :
    (l.bindMethod name method).selector = some name := by
  rw [bindMethod]
  split <;> rfl

/-- A member that sends a selector sends the name itself, and no ivar is in its way. -/
theorem get_sends_iff {sel' : Name} :
    (∃ member, l.get isObjcType name = .ok member ∧ member.selector = some sel') ↔
      sel' = name ∧ (∀ ivar ∈ l.ivars, ivar.name ≠ name) ∧
        (name ∈ l.properties ∨ l.class_.HasMethod name) := by
  cases hivar : l.ivars.find? fun ivar => ivar.name = name with
  | some ivar =>
    have hmem : ivar ∈ l.ivars := List.mem_of_find?_eq_some hivar
    have hname : ivar.name = name := by simpa using List.find?_some hivar
    constructor
    · rintro ⟨member, hget, hsel⟩
      rw [get_of_ivar hivar hget] at hsel
      cases hsel
    · rintro ⟨-, hnone, -⟩
      exact absurd hname (hnone ivar hmem)
  | none =>
    have hnone : ∀ ivar ∈ l.ivars, ivar.name ≠ name := fun ivar hmem => by
      simpa using List.find?_eq_none.mp hivar ivar hmem
    by_cases hproperty : name ∈ l.properties
    · have hget : l.get isObjcType name = .ok (.sent name) := by
        rw [get, hivar]
        exact if_pos hproperty
      simp only [hget, hproperty, true_or, and_true, eq_true hnone]
      simp [Member.selector, eq_comm]
    · rw [get_eq hnone hproperty]
      simp only [hproperty, false_or, Class.hasMethod_iff, eq_true hnone, true_and]
      cases hnearest : l.class_.nearest name with
      | none => simp
      | some k => simp [selector_bindMethod, eq_comm]

/-- The attribute of a loaded object resolves if the sanitised name is that of a method of the
chain and of no ivar. -/
theorem roundTrips_iff (hhead : (pythonName sel).head? ≠ some '_') :
    l.RoundTrips isObjcType ordinary sel ↔
      ordinary (pythonName sel) = false ∧
        (∀ ivar ∈ l.ivars, ivar.name ≠ sanitizeName (pythonName sel)) ∧
        l.class_.HasMethod (sanitizeName (pythonName sel)) := by
  cases hordinary : ordinary (pythonName sel) with
  | true => simp [RoundTrips, getAttribute, hordinary]
  | false =>
    have hattr : ∀ member, l.getAttribute isObjcType ordinary (pythonName sel) =
        .ok (.resolved member) ↔ l.hasMember (sanitizeName (pythonName sel)) = true ∧
          l.get isObjcType (sanitizeName (pythonName sel)) = .ok member := by
      intro member
      rw [getAttribute, hordinary, getAttr, if_neg hhead]
      cases hmember : l.hasMember (sanitizeName (pythonName sel)) with
      | false => simp [Except.map]
      | true => cases l.get isObjcType (sanitizeName (pythonName sel)) <;> simp [Except.map]
    simp only [RoundTrips, hattr, true_and]
    constructor
    · rintro ⟨member, sel', ⟨-, hget⟩, hsel, hmethod, -⟩
      obtain ⟨rfl, hnone, -⟩ := get_sends_iff.mp ⟨member, hget, hsel⟩
      exact ⟨hnone, hmethod⟩
    · rintro ⟨hnone, hmethod⟩
      obtain ⟨member, hget, hsel⟩ := get_sends_iff.mpr ⟨rfl, hnone, Or.inr hmethod⟩
      exact ⟨member, _, ⟨hasMember_iff.mpr (Or.inr (Or.inr hmethod)), hget⟩, hsel, hmethod,
        pythonName_sanitizeName_pythonName sel⟩

end Layout

/-- **Selectors as Python names.** On a class wrapper the Python name of a listed selector resolves
exactly if it is no ordinary attribute and the nearest class that defines the sanitised name has
it as a class method. On a loaded object, where names that begin with an underscore are left to
`get`, it resolves exactly if it is no ordinary attribute and the sanitised name is that of a
method of the chain and of no ivar. -/
theorem selector_round_trip_iff (isObjcType : Symbol → Bool) (ordinary ordinary' : Name → Bool)
    (c : Class) (l : Layout) :
    (∀ sel, c.HasClassMethod sel → (c.RoundTrips ordinary sel ↔
      ordinary (pythonName sel) = false ∧ ∃ k, c.nearest (sanitizeName (pythonName sel)) = some k ∧
        sanitizeName (pythonName sel) ∈ k.table.classMethods)) ∧
    ∀ sel, l.class_.HasMethod sel → (pythonName sel).head? ≠ some '_' →
      (l.RoundTrips isObjcType ordinary' sel ↔
        ordinary' (pythonName sel) = false ∧
          (∀ ivar ∈ l.ivars, ivar.name ≠ sanitizeName (pythonName sel)) ∧
          l.class_.HasMethod (sanitizeName (pythonName sel))) :=
  ⟨fun _ _ => Class.roundTrips_iff, fun _ _ hhead => Layout.roundTrips_iff hhead⟩

/-- A selector with two colons, of a class method and of an instance method. -/
theorem roundTrips_setKey :
    let c : Class := .root "Table".toList ⟨["set:key:".toList], []⟩
    let l : Layout := ⟨[], [], .root "Table".toList ⟨[], ["set:key:".toList]⟩⟩
    c.RoundTrips (fun _ => false) "set:key:".toList ∧
      l.RoundTrips (fun _ => false) (fun _ => false) "set:key:".toList := by
  intro c l
  have hiff := selector_round_trip_iff (fun _ => false) (fun _ => false) (fun _ => false) c l
  constructor
  · exact (hiff.1 _ (by decide)).mpr ⟨rfl, c, by decide, by decide⟩
  · exact (hiff.2 _ (by decide) (by decide)).mpr ⟨rfl, by decide, by decide⟩

/-- A selector with an underscore in it. -/
def underscored : Class := .root "Window".toList ⟨["bg_color:".toList], ["bg_color:".toList]⟩

/-- It is listed under a name that both wrappers refuse. -/
theorem not_roundTrips_underscored :
    "bg_color_".toList ∈ underscored.dirNames ∧
      underscored.getAttribute (fun _ => false) "bg_color_".toList =
        .error (.noAttribute "Window".toList "bg:color:".toList) ∧
      ¬ underscored.RoundTrips (fun _ => false) "bg_color:".toList ∧
      "bg_color_".toList ∈ (⟨[], [], underscored⟩ : Layout).dirNames ∧
      (⟨[], [], underscored⟩ : Layout).getAttribute (fun _ => false) (fun _ => false)
        "bg_color_".toList = .error (.noMember "bg_color_".toList) := by
  refine ⟨by decide, by decide, ?_, by decide, by decide⟩
  rintro ⟨bound, hattr, -⟩
  have herror : underscored.getAttribute (fun _ => false) (pythonName "bg_color:".toList) =
      .error (.noAttribute "Window".toList "bg:color:".toList) := by decide
  rw [herror] at hattr
  cases hattr

end RpcProject.Darwin
