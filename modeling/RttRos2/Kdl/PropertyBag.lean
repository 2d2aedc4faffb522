/-
  RttRos2.Kdl.PropertyBag — RTT's property bags, as the KDL typekit uses them.

  A bag has a type name and properties in the order added. Several may have one name;
  a lookup returns the first. A bag put into a property is copied. `composeType` hands
  a property that holds a bag to the typekit's `composeProperty`.
-/

import Mathlib.Data.List.Basic

namespace RttRos2.Kdl

structure Property (V : Type) where
  name : String
  description : String
  value : V

structure Bag (V : Type) where
  type : String
  properties : List (Property V)

/-- What a property holds. -/
inductive Value (D : Type) where
  | double (d : D)
  | string (s : String)
  | bag (b : Bag (Value D))
  /-- A value of any other type. -/
  | other
  /-- No data source: the property is not `ready()`. -/
  | unready

abbrev PropertyBag (D : Type) := Bag (Value D)

variable {D T : Type}

namespace Value

def ready : Value D → Bool
  | .unready => false
  | _ => true

def asDouble : Value D → Option D
  | .double d => some d
  | _ => none

def asString : Value D → Option String
  | .string s => some s
  | _ => none

def asBag : Value D → Option (PropertyBag D)
  | .bag b => some b
  | _ => none

end Value

namespace PropertyBag

def empty : PropertyBag D := ⟨"type_less", []⟩

def setType (bag : PropertyBag D) (type : String) : PropertyBag D := { bag with type := type }

/-- `add(new Property(..))`; `ownProperty` appends in the same way. -/
def add (bag : PropertyBag D) (name description : String) (value : Value D) : PropertyBag D :=
  { bag with properties := bag.properties ++ [⟨name, description, value⟩] }

def find (bag : PropertyBag D) (name : String) : Option (Property (Value D)) :=
  bag.properties.find? fun p => p.name = name

/-- `dynamic_cast<Property<double>*>(bag.find(name))` -/
def findDouble (bag : PropertyBag D) (name : String) : Option D := (bag.find name).bind fun p => p.value.asDouble

/-- `getPropertyType<T>(name)`: the first property of that name and type. -/
def getPropertyType {β : Type} (as : Value D → Option β) (bag : PropertyBag D) (name : String) : Option β :=
  bag.properties.findSome? fun p => if p.name = name then as p.value else none

/-! ## Lookups after an addition -/

section
variable {β : Type} {as : Value D → Option β} {bag : PropertyBag D} {name name' description : String}
  {value : Value D} {x : β}

@[simp] theorem type_setType : (bag.setType name).type = name := rfl

@[simp] theorem properties_setType : (bag.setType name).properties = bag.properties := rfl

@[simp] theorem properties_add :
    (bag.add name description value).properties = bag.properties ++ [⟨name, description, value⟩] := rfl

/-- A loop of additions. -/
theorem foldl_add {I : Type} (name : I → String) (value : I → Value D) (is : List I) (bag : PropertyBag D) :
    is.foldl (fun bag i => bag.add (name i) description (value i)) bag =
      { bag with properties := bag.properties ++ is.map fun i => ⟨name i, description, value i⟩ } := by
  induction is generalizing bag with
  | nil => simp
  | cons i is ih => rw [List.foldl_cons, ih, properties_add, List.append_assoc]; rfl

/-- What a lookup finds stays what it finds. -/
theorem getPropertyType_add_of_some (h : getPropertyType as bag name = some x) :
    getPropertyType as (bag.add name' description value) name = some x := by
  unfold getPropertyType at h ⊢
  rw [properties_add, List.findSome?_append, h]
  rfl

theorem getPropertyType_add_of_none (h : getPropertyType as bag name = none) (hv : as value = some x) :
    getPropertyType as (bag.add name description value) name = some x := by
  unfold getPropertyType at h ⊢
  rw [properties_add, List.findSome?_append, h]
  simp [hv]

theorem getPropertyType_add_of_ne (hne : name' ≠ name) :
    getPropertyType as (bag.add name' description value) name = getPropertyType as bag name := by
  unfold getPropertyType
  rw [properties_add, List.findSome?_append]
  simp [hne]

end

end PropertyBag

/-- `composeType(source, result)` of a type of the typekit. -/
def composeType (composeProperty : PropertyBag D → T → Bool × T) (source : Value D) (result : T) : Bool × T :=
  match source.asBag with
  | some bag => composeProperty bag result
  | none => (false, result)

/-- `first(r) || second(r)`, both filling in `r`. -/
def orElse (first second : T → Bool × T) (r : T) : Bool × T :=
  match first r with
  | (true, r) => (true, r)
  | (false, r) => second r

end RttRos2.Kdl
