/-
  RttRos2.Kdl.Legacy — bags with the type names of the older typekit, MotCon::X for KDL.X.

  The composers for vectors, rotations, twists, wrenches and frames test for both names,
  each by hand. That of a wrench has "Motcon::Wrench": no bag was ever written under this
  name, and one called MotCon::Wrench is refused (`legacy_wrench_is_refused`).

  `legacy_read_iff`: a bag is read as the one with the older names is, into any target, but
  for a KDL.Wrench of which at least the force can be read, and is not what the target has
  already while the torque cannot be read (`Refused`).
-/

import RttRos2.Kdl.Targets

namespace RttRos2.Kdl

open RttRos2.Lib

variable {D : Type}

/-! ## Older names -/

/-- "KDL.X", and "MotCon::X". -/
def Renamed (type type' : String) : Prop := ∃ X, type = "KDL." ++ X ∧ type' = "MotCon::" ++ X

mutual

/-- Names in it may be the older ones. -/
inductive LegacyValue : Value D → Value D → Prop
  | same (value : Value D) : LegacyValue value value
  | bag {type type' : String} {items items' : List (Property (Value D))} :
      (type' = type ∨ Renamed type type') → LegacyItems items items' →
        LegacyValue (.bag ⟨type, items⟩) (.bag ⟨type', items'⟩)

inductive LegacyItems : List (Property (Value D)) → List (Property (Value D)) → Prop
  | nil : LegacyItems [] []
  | cons {name description : String} {value value' : Value D} {items items' : List (Property (Value D))} :
      LegacyValue value value' → LegacyItems items items' →
        LegacyItems (⟨name, description, value⟩ :: items) (⟨name, description, value'⟩ :: items')

end

/-- The bag under its older name, the names in it changed or not. -/
structure Legacy (bag bag' : PropertyBag D) : Prop where
  type : Renamed bag.type bag'.type ∨ (bag'.type = bag.type ∧ ∀ X, bag.type ≠ "KDL." ++ X)
  items : LegacyItems bag.properties bag'.properties

/-- A bag inside: its own name is changed or not, too. -/
structure LegacyPart (bag bag' : PropertyBag D) : Prop where
  type : bag'.type = bag.type ∨ Renamed bag.type bag'.type
  items : LegacyItems bag.properties bag'.properties

theorem Legacy.part {bag bag' : PropertyBag D} (h : Legacy bag bag') : LegacyPart bag bag' := by
  refine ⟨?_, h.items⟩
  rcases h.type with htype | ⟨htype, -⟩
  · exact Or.inr htype
  · exact Or.inl htype

theorem kdl_ne_motCon (X Y : String) : "KDL." ++ X ≠ "MotCon::" ++ Y := by
  intro h
  have hchars := congrArg String.toList h
  simp at hchars

/-- A test for both names gives the same. -/
theorem accepted_iff {type type' : String} (h : type' = type ∨ Renamed type type') (X : String) :
    (type' = "KDL." ++ X ∨ type' = "MotCon::" ++ X) ↔ (type = "KDL." ++ X ∨ type = "MotCon::" ++ X) := by
  rcases h with rfl | ⟨Y, rfl, rfl⟩
  · exact Iff.rfl
  · simp [kdl_ne_motCon, (kdl_ne_motCon X Y).symm]

/-! ## Lookups -/

theorem LegacyItems.refl (items : List (Property (Value D))) : LegacyItems items items := by
  induction items with
  | nil => exact .nil
  | cons item items ih => exact .cons (.same item.value) ih

theorem LegacyValue.asDouble {value value' : Value D} (h : LegacyValue value value') : value'.asDouble = value.asDouble := by
  cases h <;> rfl

theorem LegacyValue.asBag {value value' : Value D} (h : LegacyValue value value') :
    Option.Rel LegacyPart value.asBag value'.asBag := by
  cases h with
  | same =>
    cases value with
    | bag b => exact .some ⟨Or.inl rfl, LegacyItems.refl _⟩
    | _ => exact .none
  | bag htype hitems => exact .some ⟨htype, hitems⟩

theorem LegacyItems.find {items items' : List (Property (Value D))} (h : LegacyItems items items') (name : String) :
    (items'.find? fun p => p.name = name).bind (fun p => p.value.asDouble) =
      (items.find? fun p => p.name = name).bind fun p => p.value.asDouble := by
  induction items generalizing items' with
  | nil => cases h; rfl
  | cons item items ih =>
    cases h with
    | @cons name' _ _ _ _ _ hvalue hrest =>
      by_cases hname : name' = name
      · simpa [hname] using hvalue.asDouble
      · simpa [hname] using ih hrest

theorem LegacyItems.findSome {items items' : List (Property (Value D))} (h : LegacyItems items items') (name : String) :
    Option.Rel LegacyPart (items.findSome? fun p => if p.name = name then p.value.asBag else none)
      (items'.findSome? fun p => if p.name = name then p.value.asBag else none) := by
  induction items generalizing items' with
  | nil => cases h; exact .none
  | cons item items ih =>
    cases h with
    | @cons name' _ value value' _ _ hvalue hrest =>
      by_cases hname : name' = name
      · have hbag := hvalue.asBag
        simp only [List.findSome?_cons, hname, if_true]
        cases hv : value.asBag <;> cases hv' : value'.asBag <;> rw [hv, hv'] at hbag
        · exact ih hrest
        · cases hbag
        · cases hbag
        · exact hbag
      · simpa [hname] using ih hrest

/-! ## What is read -/

variable {bag bag' : PropertyBag D}

theorem LegacyPart.findDouble (h : LegacyPart bag bag') (name : String) : bag'.findDouble name = bag.findDouble name :=
  h.items.find name

theorem LegacyPart.read_vector (h : LegacyPart bag bag') : Vector.read bag' = Vector.read bag := by
  have htype : bag'.type = "MotCon::Vector" ∨ bag'.type = "KDL.Vector" ↔
      bag.type = "MotCon::Vector" ∨ bag.type = "KDL.Vector" := by
    rw [or_comm, or_comm (a := bag.type = _)]
    exact accepted_iff h.type "Vector"
  simp only [Vector.read, htype, h.findDouble]

theorem LegacyPart.read_rotation (h : LegacyPart bag bag') (kdl : Library D) :
    Rotation.read kdl bag' = Rotation.read kdl bag := by
  have htype : Rotation.typeFits bag' ↔ Rotation.typeFits bag := accepted_iff h.type "Rotation"
  simp only [Rotation.read, htype, Rotation.readRPY, Rotation.readEulerZYX, Rotation.readMatrix, h.findDouble]

theorem LegacyPart.getBag (h : LegacyPart bag bag') (name : String) :
    Option.Rel LegacyPart (bag.getPropertyType Value.asBag name) (bag'.getPropertyType Value.asBag name) :=
  h.items.findSome name

theorem LegacyPart.partsOf {A B : Type} {first : PropertyBag D → Option A} {second : PropertyBag D → Option B}
    (h : LegacyPart bag bag') (hfirst : ∀ {p p' : PropertyBag D}, LegacyPart p p' → first p' = first p)
    (hsecond : ∀ {p p' : PropertyBag D}, LegacyPart p p' → second p' = second p) (x y : String) :
    Kdl.partsOf first second x y bag' = Kdl.partsOf first second x y bag := by
  have hx := h.getBag x
  have hy := h.getBag y
  unfold Kdl.partsOf
  generalize bag.getPropertyType Value.asBag x = px at hx ⊢
  generalize bag'.getPropertyType Value.asBag x = px' at hx ⊢
  generalize bag.getPropertyType Value.asBag y = py at hy ⊢
  generalize bag'.getPropertyType Value.asBag y = py' at hy ⊢
  cases hx with
  | none => rfl
  | some hp =>
    cases hy with
    | none => rfl
    | some hq => simp [hfirst hp, hsecond hq]

/-! ## The composers -/

theorem LegacyPart.vector (h : LegacyPart bag bag') : Vector.getResult bag' = Vector.getResult bag := by
  rw [Vector.getResult_eq_put, Vector.getResult_eq_put, h.read_vector]

theorem LegacyPart.rotation (h : LegacyPart bag bag') (kdl : Library D) :
    Rotation.composeProperty kdl bag' = Rotation.composeProperty kdl bag := by
  rw [Rotation.composeProperty_eq_put, Rotation.composeProperty_eq_put, h.read_rotation kdl]

theorem LegacyPart.twist (h : LegacyPart bag bag') (t : Twist D) :
    Twist.composeProperty bag' t = Twist.composeProperty bag t := by
  have htype : bag'.type = "KDL.Twist" ∨ bag'.type = "MotCon::Twist" ↔
      bag.type = "KDL.Twist" ∨ bag.type = "MotCon::Twist" := accepted_iff h.type "Twist"
  rw [Twist.composeProperty_eq_fillParts, Twist.composeProperty_eq_fillParts]
  simp only [Twist.parts, htype, h.partsOf LegacyPart.read_vector LegacyPart.read_vector]

theorem LegacyPart.frame (h : LegacyPart bag bag') (kdl : Library D) (f : Frame D) :
    Frame.composeProperty kdl bag' f = Frame.composeProperty kdl bag f := by
  have htype : bag'.type = "KDL.Frame" ∨ bag'.type = "MotCon::Frame" ↔
      bag.type = "KDL.Frame" ∨ bag.type = "MotCon::Frame" := accepted_iff h.type "Frame"
  rw [Frame.composeProperty_eq_fillParts, Frame.composeProperty_eq_fillParts]
  simp only [Frame.parts, htype, h.partsOf LegacyPart.read_vector fun hM => hM.read_rotation kdl]

/-! ## The wrench -/

/-- "Motcon" is neither "KDL" nor "MotCon". -/
theorem Wrench.parts_of_motCon (X : String) (h : bag.type = "MotCon::" ++ X) : parts bag = none := by
  have hkdl : bag.type ≠ "KDL.Wrench" := fun heq => kdl_ne_motCon "Wrench" X (heq.symm.trans h)
  have hmotcon : bag.type ≠ "Motcon::Wrench" := by
    intro heq
    have hchars := congrArg String.toList (heq.symm.trans h)
    simp at hchars
  simp [parts, hkdl, hmotcon]

theorem Wrench.parts_of_legacy (h : Legacy bag bag') :
    parts bag' = if bag.type = "KDL.Wrench" then none else parts bag := by
  rcases h.type with ⟨X, htype, htype'⟩ | ⟨htype, hne⟩
  · rw [parts_of_motCon X htype']
    split
    · rfl
    · rename_i hwrench
      have hmotcon : bag.type ≠ "Motcon::Wrench" := by
        intro heq
        have hchars := congrArg String.toList (heq.symm.trans htype)
        simp at hchars
      simp [parts, hwrench, hmotcon]
  · have hwrench : bag.type ≠ "KDL.Wrench" := hne "Wrench"
    rw [if_neg hwrench]
    simp only [parts, htype, h.part.partsOf LegacyPart.read_vector LegacyPart.read_vector]

/-- A target that would have been changed, or read with success, is not when the bag is refused. -/
theorem fillParts_eq_none_iff {A B T : Type} {mk : A → B → T} {parts : Option (Option A × Option B)} {a : A} {b : B}
    (hmk : ∀ v, mk v b = mk a b → v = a) :
    fillParts mk none a b = fillParts mk parts a b ↔
      ¬ ∃ v y, parts = some (some v, y) ∧ (v ≠ a ∨ y.isSome) := by
  rcases parts with _ | ⟨_ | v, _ | w⟩
  · simp
  · simp [fillParts, both, put]
  · simp [fillParts, both, put]
  · simp only [fillParts, both, put, Prod.mk.injEq, true_and]
    constructor
    · rintro h ⟨v', y, hparts, hdiff⟩
      cases hparts
      rcases hdiff with hdiff | hdiff
      · exact hdiff (hmk v h.symm)
      · cases hdiff
    · intro h
      by_contra hne
      exact h ⟨v, none, rfl, Or.inl fun heq => hne (by rw [heq])⟩
  · simp [fillParts, both, put]

/-! ## All five -/

namespace Overload

/-- The types that had other names. -/
def geometric : List Overload := [.vector, .rotation, .twist, .wrench, .frame]

/-- A KDL.Wrench that is read, or leaves its force in the target. -/
def Refused (bag : PropertyBag D) : (o : Overload) → o.Target D → Prop
  | .wrench, w => bag.type = "KDL.Wrench" ∧ ∃ force torque, Wrench.parts bag = some (some force, torque) ∧
      (force ≠ w.force ∨ torque.isSome)
  | _, _ => False

end Overload

/-- What is written for a wrench, under its older name. -/
theorem legacy_wrench_is_refused :
    let bag := (⟨⟨0, 0, 5⟩, Vector.zero⟩ : Wrench Int).decomposeProperty PropertyBag.empty
    let bag' := bag.setType "MotCon::Wrench"
    Legacy bag bag' ∧
      Wrench.composeProperty bag ⟨Vector.zero, Vector.zero⟩ = (true, ⟨⟨0, 0, 5⟩, Vector.zero⟩) ∧
      Wrench.composeProperty bag' ⟨Vector.zero, Vector.zero⟩ = (false, ⟨Vector.zero, Vector.zero⟩) :=
  ⟨⟨Or.inl ⟨"Wrench", rfl, rfl⟩, LegacyItems.refl _⟩, rfl, rfl⟩

variable [Zero D] [One D]

theorem legacy_read_iff (kdl : Library D) {o : Overload} (ho : o ∈ Overload.geometric) (h : Legacy bag bag')
    (target : o.Target D) :
    o.composeProperty kdl bag' target = o.composeProperty kdl bag target ↔ ¬ o.Refused bag target := by
  cases o with
  | vector => exact iff_of_true (congrFun h.part.vector target) not_false
  | rotation => exact iff_of_true (congrFun (h.part.rotation kdl) target) not_false
  | twist => exact iff_of_true (h.part.twist target) not_false
  | frame => exact iff_of_true (h.part.frame kdl target) not_false
  | wrench =>
    obtain ⟨force, torque⟩ := target
    show Wrench.composeProperty bag' ⟨force, torque⟩ = Wrench.composeProperty bag ⟨force, torque⟩ ↔ _
    rw [Wrench.composeProperty_eq_fillParts, Wrench.composeProperty_eq_fillParts, Wrench.parts_of_legacy h]
    by_cases hwrench : bag.type = "KDL.Wrench"
    · rw [if_pos hwrench, fillParts_eq_none_iff fun v heq => (Wrench.mk.inj heq).1]
      simp [Overload.Refused, hwrench]
    · rw [if_neg hwrench]
      simp [Overload.Refused, hwrench]
  | joint | segment | chain | jntArray | jacobian => simp [Overload.geometric] at ho

/-- A twist, and one of its vectors, under the older names. -/
def legacyTwist : PropertyBag Int :=
  ⟨"MotCon::Twist", [⟨"vel", "Translational Velocity", .bag ((Vector.decompose ⟨1, 2, 3⟩).setType "MotCon::Vector")⟩,
    ⟨"rot", "Rotational Velocity", .bag (Vector.decompose Vector.zero)⟩]⟩

theorem legacy_read_iff_twist :
    let bag := (⟨⟨1, 2, 3⟩, Vector.zero⟩ : Twist Int).decomposeProperty PropertyBag.empty
    let target : Overload.Target Int .twist := (⟨Vector.zero, Vector.zero⟩ : Twist Int)
    Overload.twist.composeProperty Chain.translations legacyTwist target =
      Overload.twist.composeProperty Chain.translations bag target ↔ ¬ Overload.twist.Refused bag target := by
  refine legacy_read_iff Chain.translations (by decide) ⟨Or.inl ⟨"Twist", rfl, rfl⟩, ?_⟩ _
  exact .cons (.bag (Or.inr ⟨"Vector", rfl, rfl⟩) (LegacyItems.refl _)) (.cons (.same _) .nil)

end RttRos2.Kdl
