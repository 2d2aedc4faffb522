/-
  RttRos2.Typekit.DataSource — fields reached through a getter and a setter
  (getter_setter_datasource.hpp), and parts of such fields.

  A `GetterSetterDataSource` keeps a copy of the field in `value_`: `get` and `evaluate`
  load it, `updated` writes the whole copy back to the object. The reference that `set()`
  returns is to the copy and does not load it. RTT's `PartDataSource` keeps a reference to
  a member of the copy: it reads and writes it there and calls its parent's `updated`.

  So a part is read from the copy, and writing it writes the copy's other members back as
  well. It is transparent, that is it shows the object's own field, exactly while the copy
  is the field (`transparent_iff`).
-/

import RttRos2.Lib.Lens

namespace RttRos2.Typekit

open RttRos2.Lib

/-- Accessors of a field: what was set is what the getter returns. -/
structure Field (ObjectT FieldT : Type) where
  getter : ObjectT → FieldT
  setter : ObjectT → FieldT → ObjectT
  getter_setter : ∀ o v, getter (setter o v) = v

structure GetterSetterDataSource (ObjectT FieldT : Type) where
  field : Field ObjectT FieldT
  /-- What the data source in `object_` holds. -/
  object : ObjectT
  /-- `value_` -/
  value : FieldT

namespace GetterSetterDataSource

variable {ObjectT FieldT V : Type}

/-- The constructor; `na` is the default value, `NA<FieldT>::na()`. -/
def create (object : ObjectT) (field : Field ObjectT FieldT) (na : FieldT) : GetterSetterDataSource ObjectT FieldT :=
  ⟨field, object, na⟩

variable (s : GetterSetterDataSource ObjectT FieldT)

def load : GetterSetterDataSource ObjectT FieldT := { s with value := s.field.getter s.object }

def get : FieldT × GetterSetterDataSource ObjectT FieldT := (s.load.value, s.load)

/-- `evaluated`: what the object's data source answers. -/
def evaluate (evaluated : Bool) : Bool × GetterSetterDataSource ObjectT FieldT :=
  if evaluated then (true, s.load) else (false, s)

def updated : GetterSetterDataSource ObjectT FieldT := { s with object := s.field.setter s.object s.value }

def set (t : FieldT) : GetterSetterDataSource ObjectT FieldT := updated { s with value := t }

def clone (na : FieldT) : GetterSetterDataSource ObjectT FieldT := create s.object s.field na

/-- The object gets another value from elsewhere. -/
def elsewhere (o : ObjectT) : GetterSetterDataSource ObjectT FieldT := { s with object := o }

/-- `get` of a part data source for the member. -/
def getPart (m : Lens FieldT V) : V := m.get s.value

/-- An assignment to a part data source for the member, with `updated` of its parent. -/
def setPart (m : Lens FieldT V) (x : V) : GetterSetterDataSource ObjectT FieldT :=
  updated { s with value := m.set s.value x }

/-- The part is read from the object's field, and writing it changes nothing else of it. -/
structure Transparent (m : Lens FieldT V) : Prop where
  reads : s.getPart m = m.get (s.field.getter s.object)
  writes : ∀ x, (s.setPart m x).object = s.field.setter s.object (m.set (s.field.getter s.object) x)

variable {s} {m : Lens FieldT V}

theorem setPart_object (x : V) : s.field.getter (s.setPart m x).object = m.set s.value x :=
  s.field.getter_setter ..

theorem transparent_iff : s.Transparent m ↔ s.value = s.field.getter s.object := by
  rw [m.eq_iff]
  constructor
  · intro h
    refine ⟨h.reads, fun x => ?_⟩
    have hx := congrArg s.field.getter (h.writes x)
    rwa [setPart_object, s.field.getter_setter] at hx
  · intro ⟨hr, hw⟩
    refine ⟨hr, fun x => ?_⟩
    rw [← hw x]
    rfl

/-- After `evaluate` every part is transparent. -/
theorem evaluate_transparent : (s.evaluate true).2.Transparent m := transparent_iff.mpr rfl

/-- So it is after a write to any part. -/
theorem setPart_transparent (x : V) : (s.setPart m x).Transparent m := transparent_iff.mpr (setPart_object x).symm

/-! ## A data source that was just created -/

theorem elsewhere_value (changes : List ObjectT) :
    (changes.foldl elsewhere s).value = s.value ∧ (changes.foldl elsewhere s).field = s.field := by
  induction changes generalizing s with
  | nil => exact ⟨rfl, rfl⟩
  | cons o changes ih => exact ih

/-- Whatever the object was when the data source was created, and became since. -/
theorem created_transparent_iff (o : ObjectT) (field : Field ObjectT FieldT) (na : FieldT) (changes : List ObjectT)
    (m : Lens FieldT V) :
    (changes.foldl elsewhere (create o field na)).Transparent m ↔
      na = field.getter (changes.foldl elsewhere (create o field na)).object := by
  obtain ⟨hv, hf⟩ := elsewhere_value (s := create o field na) changes
  rw [transparent_iff, hv, hf]
  rfl

end GetterSetterDataSource

end RttRos2.Typekit
