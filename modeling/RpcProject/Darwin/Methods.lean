/-
# Methods of Objective-C classes

The server lists the methods of a class with its class methods before its instance methods.
The client keeps one list for each class of a chain and looks a selector up in them by its
name alone, first in the list of the class itself and then in those of its superclasses, and
takes what kind of method it is from the first one of that name.

So the kind that is found is that of the nearest class which defines the selector in either
kind, and a class method if that class has both.
-/

import Mathlib.Tactic.Common
import RpcProject.Client.Symbol

namespace RpcProject.Darwin

open Client

/-- A name, as the characters of a Python string. -/
abbrev Name := List Char

/-! ## Classes -/

/-- A method of a class, by its selector. -/
structure Method where
  name : Name
  isClass : Bool
  deriving DecidableEq, Repr

/-- The methods that the runtime has for a class. -/
structure MethodTable where
  classMethods : List Name
  instanceMethods : List Name
  deriving DecidableEq, Repr

/-- `addMethodsToDictionary` -/
def MethodTable.methods (table : MethodTable) : List Method :=
  table.classMethods.map (fun name => ⟨name, true⟩) ++
    table.instanceMethods.map fun name => ⟨name, false⟩

/-- A class with its chain of superclasses. -/
inductive Class
  | root (name : Name) (table : MethodTable)
  | sub (name : Name) (table : MethodTable) (super : Class)
  deriving DecidableEq, Repr

namespace Class

/-- The name of a class. -/
def name : Class → Name
  | root name _ => name
  | sub name _ _ => name

/-- The methods that the class itself defines. -/
def table : Class → MethodTable
  | root _ table => table
  | sub _ table _ => table

/-- `methods` of a class -/
def methods (c : Class) : List Method := c.table.methods

/-- Iterate over the super classes of the class. -/
def iterSupers : Class → List Class
  | root _ _ => []
  | sub _ _ super => super :: super.iterSupers

/-- The class and its superclasses. -/
def chain (c : Class) : List Class := c :: c.iterSupers

end Class

/-! ## Lookups -/

/-- The exceptions for names that are no attributes, with what their texts tell. -/
inductive AttributeError
  | noAttribute (className name : Name)
  | instanceMethod (className name : Name)
  | noMember (name : Name)
  deriving DecidableEq, Repr

/-- What a method is bound to: a class, or the object it has been looked up on. -/
inductive Target
  | class (c : Class)
  | object
  deriving DecidableEq, Repr

/-- A method with what it is sent to. -/
structure BoundObjectiveCMethod where
  target : Target
  sel : Name
  deriving DecidableEq, Repr

/-- The first method of a name in a list. -/
def methodOf (name : Name) (methods : List Method) : Option Method :=
  methods.find? fun method => method.name = name

namespace Class

/-- Bind a method of a class that has been found for a name. -/
def bindMethod (c : Class) (item : Name) (method : Method) :
    Except AttributeError BoundObjectiveCMethod :=
  if method.isClass = true then .ok ⟨.class c, item⟩ else .error (.instanceMethod c.name item)

/-- `__getitem__` -/
def getItem (c : Class) (item : Name) : Except AttributeError BoundObjectiveCMethod :=
  match methodOf item c.methods with
  | some method => c.bindMethod item method
  | none =>
      match c.iterSupers.findSome? fun sup => methodOf item sup.methods with
      | some method => c.bindMethod item method
      | none => .error (.noAttribute c.name item)

end Class

/-- An ivar with its value. -/
structure Ivar where
  name : Name
  value : Symbol
  offset : ℤ
  deriving DecidableEq, Repr

/-- What the server has told about an object. The methods are those of its class. -/
structure Layout where
  ivars : List Ivar
  properties : List Name
  class_ : Class
  deriving DecidableEq, Repr

/-- What an attribute of an object comes to. -/
inductive Member
  | objcSymbol (value : Symbol)
  | symbol (value : Symbol)
  /-- the result of sending a property's name -/
  | sent (sel : Name)
  | method (bound : BoundObjectiveCMethod)
  deriving DecidableEq, Repr

namespace Layout

/-- Bind a method that has been found for an object. -/
def bindMethod (l : Layout) (name : Name) (method : Method) : Member :=
  .method (if method.isClass = true then ⟨.class l.class_, name⟩ else ⟨.object, name⟩)

/-- `get` of an object that is loaded. -/
def get (isObjcType : Symbol → Bool) (l : Layout) (name : Name) : Except AttributeError Member :=
  match l.ivars.find? fun ivar => ivar.name = name with
  | some ivar =>
      if isObjcType ivar.value = true then .ok (.objcSymbol ivar.value)
      else .ok (.symbol ivar.value)
  | none =>
      if name ∈ l.properties then .ok (.sent name)
      else
        match methodOf name l.class_.methods with
        | some method => .ok (l.bindMethod name method)
        | none =>
            match l.class_.iterSupers.findSome? fun sup => methodOf name sup.methods with
            | some method => .ok (l.bindMethod name method)
            | none => .error (.noAttribute l.class_.name name)

end Layout

/-- An object, and what is known of it once it is loaded. -/
structure ObjectiveCSymbol where
  value : Symbol
  layout : Option Layout
  deriving DecidableEq, Repr

namespace ObjectiveCSymbol

/-- The layout of an object, which is loaded with what the server reports unless that has been
done. -/
def loaded (reported : Layout) (self : ObjectiveCSymbol) : Layout := self.layout.getD reported

/-- `__getattr__` of an object, which is loaded first. -/
def get (isObjcType : Symbol → Bool) (reported : Layout) (self : ObjectiveCSymbol) (name : Name) :
    Except AttributeError Member :=
  (self.loaded reported).get isObjcType name

end ObjectiveCSymbol

/-! ## The first method of a name -/

variable {table : MethodTable} {c : Class} {l : Layout} {sel : Name} {isObjcType : Symbol → Bool}

namespace Class

/-- The class has a method of the name, of either kind. -/
def Defines (c : Class) (sel : Name) : Prop :=
  sel ∈ c.table.classMethods ∨ sel ∈ c.table.instanceMethods

instance (c : Class) (sel : Name) : Decidable (c.Defines sel) := inferInstanceAs (Decidable (_ ∨ _))

/-- Some class of the chain defines a class method. -/
def HasClassMethod (c : Class) (sel : Name) : Prop := ∃ k ∈ c.chain, sel ∈ k.table.classMethods

/-- Some class of the chain has the method for its instances. -/
def HasInstanceMethod (c : Class) (sel : Name) : Prop :=
  ∃ k ∈ c.chain, sel ∈ k.table.instanceMethods

instance (c : Class) (sel : Name) : Decidable (c.HasClassMethod sel) :=
  inferInstanceAs (Decidable (∃ k ∈ c.chain, _))

instance (c : Class) (sel : Name) : Decidable (c.HasInstanceMethod sel) :=
  inferInstanceAs (Decidable (∃ k ∈ c.chain, _))

/-- The nearest class of the chain that has a method of the name. -/
def nearest (c : Class) (sel : Name) : Option Class := c.chain.find? fun k => k.Defines sel

end Class

/-- The method with a selector, among methods of one kind. -/
theorem methodOf_map (sel : Name) (isClass : Bool) (names : List Name) :
    methodOf sel (names.map fun name => ⟨name, isClass⟩) =
      if sel ∈ names then some ⟨sel, isClass⟩ else none := by
  induction names with
  | nil => rfl
  | cons name names ih =>
    rw [methodOf, List.map_cons]
    by_cases hname : name = sel
    · rw [List.find?_cons_of_pos (by simpa using hname), if_pos (hname ▸ List.mem_cons_self), hname]
    · rw [List.find?_cons_of_neg (by simpa using hname), ← methodOf, ih]
      simp [List.mem_cons, Ne.symm hname]

/-- The method that the list of a class has first: the class method, if there are both. -/
def firstIn (sel : Name) (k : Class) : Method := ⟨sel, decide (sel ∈ k.table.classMethods)⟩

/-- The method that a class itself defines. -/
theorem methodOf_methods (k : Class) (sel : Name) :
    methodOf sel k.methods = if k.Defines sel then some (firstIn sel k) else none := by
  rw [Class.methods, MethodTable.methods, methodOf, List.find?_append, ← methodOf, ← methodOf,
    methodOf_map, methodOf_map]
  by_cases hclass : sel ∈ k.table.classMethods <;>
    by_cases hinst : sel ∈ k.table.instanceMethods <;>
    simp [hclass, hinst, Class.Defines, firstIn]

/-- The method that is found is defined by the nearest class that defines one. -/
theorem findSome?_methodOf (classes : List Class) (sel : Name) :
    (classes.findSome? fun k => methodOf sel k.methods) =
      (classes.find? fun k => k.Defines sel).map (firstIn sel) := by
  induction classes with
  | nil => rfl
  | cons k classes ih =>
    rw [List.findSome?_cons, methodOf_methods]
    by_cases hdefines : k.Defines sel
    · rw [List.find?_cons_of_pos (by simpa using hdefines), if_pos hdefines]
      rfl
    · rw [List.find?_cons_of_neg (by simpa using hdefines), if_neg hdefines]
      exact ih

/-- Both loops of a lookup, over the class itself and over its superclasses, as one. -/
theorem methodOf_chain {β : Type} (c : Class) (sel : Name) (found : Method → β) (missing : β) :
    (match methodOf sel c.methods with
      | some method => found method
      | none =>
          match c.iterSupers.findSome? fun sup => methodOf sel sup.methods with
          | some method => found method
          | none => missing) =
      ((c.nearest sel).map fun k => found (firstIn sel k)).getD missing := by
  have hchain : (c.chain.findSome? fun k => methodOf sel k.methods) =
      (c.nearest sel).map (firstIn sel) := findSome?_methodOf c.chain sel
  rw [Class.chain, List.findSome?_cons] at hchain
  cases hown : methodOf sel c.methods with
  | some method =>
    rw [hown] at hchain
    cases hnearest : c.nearest sel with
    | none => rw [hnearest] at hchain; cases hchain
    | some k =>
      rw [hnearest] at hchain
      rw [Option.some.inj hchain]
      rfl
  | none =>
    rw [hown] at hchain
    simp only at hchain ⊢
    rw [hchain]
    cases c.nearest sel <;> rfl

namespace Class

/-- What `__getitem__` makes of the nearest class that defines the name. -/
theorem getItem_eq (c : Class) (sel : Name) :
    c.getItem sel = ((c.nearest sel).map fun k => c.bindMethod sel (firstIn sel k)).getD
      (.error (.noAttribute c.name sel)) :=
  methodOf_chain c sel (c.bindMethod sel) _

/-- For a class method there is a nearest class that defines it. -/
theorem HasClassMethod.exists_nearest (h : c.HasClassMethod sel) : ∃ k, c.nearest sel = some k := by
  obtain ⟨k, hk, hmem⟩ := h
  exact Option.isSome_iff_exists.mp (List.find?_isSome.mpr ⟨k, hk, by simp [Defines, hmem]⟩)

theorem HasInstanceMethod.exists_nearest (h : c.HasInstanceMethod sel) :
    ∃ k, c.nearest sel = some k := by
  obtain ⟨k, hk, hmem⟩ := h
  exact Option.isSome_iff_exists.mp (List.find?_isSome.mpr ⟨k, hk, by simp [Defines, hmem]⟩)

theorem mem_chain_of_nearest {k : Class} (h : c.nearest sel = some k) : k ∈ c.chain :=
  List.mem_of_find?_eq_some h

theorem defines_of_nearest {k : Class} (h : c.nearest sel = some k) : k.Defines sel := by
  simpa using List.find?_some h

/-- `Class[sel]` is a class method if the nearest class that defines the name has one. -/
theorem getItem_eq_ok_iff {bound : BoundObjectiveCMethod} : c.getItem sel = .ok bound ↔
    (∃ k, c.nearest sel = some k ∧ sel ∈ k.table.classMethods) ∧ bound = ⟨.class c, sel⟩ := by
  rw [getItem_eq]
  cases hnearest : c.nearest sel with
  | none => simp
  | some k =>
    by_cases hclass : sel ∈ k.table.classMethods
    · simp [bindMethod, firstIn, hclass, eq_comm]
    · simp [bindMethod, firstIn, hclass]

/-- A class method is found just if the nearest class has it as such. -/
theorem HasClassMethod.getItem_iff (hhas : c.HasClassMethod sel) :
    c.getItem sel = .ok ⟨.class c, sel⟩ ↔
    ∀ k, c.nearest sel = some k → sel ∈ k.table.classMethods := by
  obtain ⟨k, hk⟩ := hhas.exists_nearest
  rw [getItem_eq_ok_iff]
  simp [hk]

end Class

namespace Layout

/-- An attribute that is neither ivar nor property is a method of the nearest class. -/
theorem get_eq (hivar : ∀ ivar ∈ l.ivars, ivar.name ≠ sel) (hproperty : sel ∉ l.properties) :
    l.get isObjcType sel =
      ((l.class_.nearest sel).map fun k => Except.ok (l.bindMethod sel (firstIn sel k))).getD
        (.error (.noAttribute l.class_.name sel)) := by
  have hnone : (l.ivars.find? fun ivar => ivar.name = sel) = none :=
    List.find?_eq_none.mpr fun ivar hmem => by simpa using hivar ivar hmem
  rw [get, hnone]
  simp only [if_neg hproperty]
  exact methodOf_chain l.class_ sel (fun method => Except.ok (l.bindMethod sel method)) _

/-- A method is bound to the object if the nearest class that defines the name has it as an
instance method only. -/
theorem get_eq_object_iff (hivar : ∀ ivar ∈ l.ivars, ivar.name ≠ sel)
    (hproperty : sel ∉ l.properties) :
    l.get isObjcType sel = .ok (.method ⟨.object, sel⟩) ↔
      ∃ k, l.class_.nearest sel = some k ∧ sel ∉ k.table.classMethods := by
  rw [get_eq hivar hproperty]
  cases hnearest : l.class_.nearest sel with
  | none => simp
  | some k => by_cases hclass : sel ∈ k.table.classMethods <;> simp [bindMethod, firstIn, hclass]

end Layout

/-- **Method resolution.** An instance method of the chain is bound to the object exactly if the
nearest class that defines its name in either kind has no class method of that name, and a class
method of the chain is bound to the class exactly if that class has one. So both are right only
for names that are not defined in both kinds. -/
theorem resolution_iff (isObjcType : Symbol → Bool) (reported : Layout) (self : ObjectiveCSymbol)
    {c : Class} (sel : Name) (hloaded : (self.loaded reported).class_ = c)
    (hivar : ∀ ivar ∈ (self.loaded reported).ivars, ivar.name ≠ sel)
    (hproperty : sel ∉ (self.loaded reported).properties) :
    ((c.HasInstanceMethod sel →
        self.get isObjcType reported sel = .ok (.method ⟨.object, sel⟩)) ↔
      (c.HasInstanceMethod sel → ∀ k, c.nearest sel = some k → sel ∉ k.table.classMethods)) ∧
    ((c.HasClassMethod sel → c.getItem sel = .ok ⟨.class c, sel⟩) ↔
      (c.HasClassMethod sel → ∀ k, c.nearest sel = some k → sel ∈ k.table.classMethods)) ∧
    ((c.HasInstanceMethod sel → self.get isObjcType reported sel = .ok (.method ⟨.object, sel⟩)) ∧
        (c.HasClassMethod sel → c.getItem sel = .ok ⟨.class c, sel⟩) ↔
      ¬ (c.HasInstanceMethod sel ∧ c.HasClassMethod sel)) := by
  subst hloaded
  have hobject : (self.loaded reported).class_.HasInstanceMethod sel →
      (self.get isObjcType reported sel = .ok (.method ⟨.object, sel⟩) ↔
        ∀ k, (self.loaded reported).class_.nearest sel = some k → sel ∉ k.table.classMethods) := by
    intro hhas
    obtain ⟨k, hk⟩ := hhas.exists_nearest
    rw [ObjectiveCSymbol.get, Layout.get_eq_object_iff hivar hproperty]
    simp [hk]
  have hclass : (self.loaded reported).class_.HasClassMethod sel →
      ((self.loaded reported).class_.getItem sel = .ok ⟨.class (self.loaded reported).class_, sel⟩ ↔
        ∀ k, (self.loaded reported).class_.nearest sel = some k → sel ∈ k.table.classMethods) :=
    Class.HasClassMethod.getItem_iff
  refine ⟨forall_congr' hobject, forall_congr' hclass, ?_⟩
  rw [forall_congr' hobject, forall_congr' hclass]
  constructor
  · rintro ⟨hinstance, hof⟩ ⟨hhas, hhas'⟩
    obtain ⟨k, hk⟩ := hhas.exists_nearest
    exact hinstance hhas k hk (hof hhas' k hk)
  · intro hnot
    refine ⟨fun hhas k hk hmem => ?_, fun hhas k hk => ?_⟩
    · exact hnot ⟨hhas, k, Class.mem_chain_of_nearest hk, hmem⟩
    · apply (Class.defines_of_nearest hk).resolve_right
      intro hmem
      exact hnot ⟨⟨k, Class.mem_chain_of_nearest hk, hmem⟩, hhas⟩

/-- A class that has `description` in both kinds, as a string class of the runtime does. -/
def described : Layout :=
  ⟨[], [], .root "Base".toList ⟨["description".toList], ["description".toList]⟩⟩

/-- A class with a superclass, an instance variable and a property. -/
def derived : Layout where
  ivars := [⟨"_length".toList, ⟨7⟩, 8⟩]
  properties := ["hash".toList]
  class_ := .sub "Derived".toList ⟨["string".toList], ["length".toList]⟩
    (.root "Base".toList ⟨["alloc".toList], ["description".toList]⟩)

/-- The superclass's instance method `description` and its class method `alloc`. -/
theorem resolution_iff_derived :
    (⟨⟨0x10⟩, none⟩ : ObjectiveCSymbol).get (fun _ => false) derived "description".toList =
        .ok (.method ⟨.object, "description".toList⟩) ∧
      derived.class_.getItem "alloc".toList =
        .ok ⟨.class derived.class_, "alloc".toList⟩ := by
  have hdescription := (resolution_iff (fun _ => false) derived ⟨⟨0x10⟩, none⟩
    "description".toList rfl (by decide) (by decide)).2.2.mpr (by decide)
  have halloc := (resolution_iff (fun _ => false) derived ⟨⟨0x10⟩, none⟩
    "alloc".toList rfl (by decide) (by decide)).2.2.mpr (by decide)
  exact ⟨hdescription.1 (by decide), halloc.2 (by decide)⟩

/-- `get` of an instance method is bound to the class, and a class method of a superclass is not
found behind an instance method of the class. -/
theorem not_resolved :
    described.class_.HasInstanceMethod "description".toList ∧
      (⟨⟨0x10⟩, some described⟩ : ObjectiveCSymbol).get (fun _ => false) described
          "description".toList = .ok (.method ⟨.class described.class_, "description".toList⟩) ∧
      (Class.sub "Derived".toList ⟨[], ["hash".toList]⟩
          (.root "Base".toList ⟨["hash".toList], []⟩)).HasClassMethod "hash".toList ∧
      (Class.sub "Derived".toList ⟨[], ["hash".toList]⟩
          (.root "Base".toList ⟨["hash".toList], []⟩)).getItem "hash".toList =
        .error (.instanceMethod "Derived".toList "hash".toList) := by
  decide

end RpcProject.Darwin
