/-
  RttRos2.Kdl.Motion — vectors, rotations, twists, wrenches and frames as property bags
  (motionproperties.cpp, built with ROTATION_PROPERTIES_RPY).

  A rotation is written as its roll, pitch and yaw. Reading tries the three formats in
  turn: RPY, EulerZYX, the nine matrix entries. The composers fill in a result that they
  get by reference, so each takes the old value and returns the new one; a frame whose
  `p` was read keeps it when its `M` cannot be, and so do a twist and a wrench with the
  first of their two vectors.

  The numbers and KDL's conversions between angles and matrices are parameters.
-/

import RttRos2.Kdl.PropertyBag
import RttRos2.Lib.Target
import Mathlib.Algebra.Notation.Defs

namespace RttRos2.Kdl

open RttRos2.Lib

variable {D : Type}

structure Vector (D : Type) where
  x : D
  y : D
  z : D
  deriving DecidableEq

/-- The columns are the axes, in the order in which the constructor takes the entries. -/
structure Rotation (D : Type) where
  Xx : D
  Yx : D
  Zx : D
  Xy : D
  Yy : D
  Zy : D
  Xz : D
  Yz : D
  Zz : D
  deriving DecidableEq

structure Twist (D : Type) where
  vel : Vector D
  rot : Vector D
  deriving DecidableEq

structure Wrench (D : Type) where
  force : Vector D
  torque : Vector D
  deriving DecidableEq

structure Frame (D : Type) where
  p : Vector D
  M : Rotation D
  deriving DecidableEq

def Vector.zero [Zero D] : Vector D := ⟨0, 0, 0⟩

def Rotation.identity [Zero D] [One D] : Rotation D := ⟨1, 0, 0, 0, 1, 0, 0, 0, 1⟩

def Frame.identity [Zero D] [One D] : Frame D := ⟨Vector.zero, Rotation.identity⟩

/-- What KDL brings. -/
structure Library (D : Type) where
  rpy : D → D → D → Rotation D
  getRPY : Rotation D → D × D × D
  eulerZYX : D → D → D → Rotation D
  /-- The type name of a joint without an axis, "None" or "Fixed" by KDL's version. -/
  noneName : String

/-- `RPY` undoes `GetRPY`. -/
def Library.Exact (kdl : Library D) (M : Rotation D) : Prop :=
  kdl.rpy (kdl.getRPY M).1 (kdl.getRPY M).2.1 (kdl.getRPY M).2.2 = M

instance [DecidableEq D] (kdl : Library D) (M : Rotation D) : Decidable (kdl.Exact M) :=
  inferInstanceAs (Decidable (_ = _))

/-! ## Vector -/

/-- `VectorDecomposer` -/
def Vector.decompose (v : Vector D) : PropertyBag D :=
  PropertyBag.empty.setType "KDL.Vector"
    |>.add "X" "X Value" (.double v.x)
    |>.add "Y" "Y Value" (.double v.y)
    |>.add "Z" "Z Value" (.double v.z)

/-- `VectorComposer::getResult` -/
def Vector.getResult (bag : PropertyBag D) (res : Vector D) : Bool × Vector D :=
  if bag.type = "MotCon::Vector" ∨ bag.type = "KDL.Vector" then
    match bag.findDouble "X", bag.findDouble "Y", bag.findDouble "Z" with
    | some px, some py, some pz => (true, ⟨px, py, pz⟩)
    | _, _, _ => (false, res)
  else (false, res)

theorem Vector.getResult_decompose (v res : Vector D) : Vector.getResult v.decompose res = (true, v) := rfl

/-! ## Rotation -/

namespace Rotation

def typeFits (bag : PropertyBag D) : Prop := bag.type = "KDL.Rotation" ∨ bag.type = "MotCon::Rotation"

instance (bag : PropertyBag D) : Decidable (typeFits bag) := inferInstanceAs (Decidable (_ ∨ _))

/-- `RPYDecomposer` -/
def decompose (kdl : Library D) (r : Rotation D) : PropertyBag D :=
  PropertyBag.empty.setType "KDL.Rotation"
    |>.add "R" "First rotate around X with R(oll) in radians" (.double (kdl.getRPY r).1)
    |>.add "P" "Next rotate around old Y with P(itch) in radians" (.double (kdl.getRPY r).2.1)
    |>.add "Y" "Next rotate around old Z with Y(aw) in radians" (.double (kdl.getRPY r).2.2)

/-- `RPYComposer::getResult` -/
def getResultRPY (kdl : Library D) (bag : PropertyBag D) (res : Rotation D) : Bool × Rotation D :=
  if typeFits bag then
    match bag.findDouble "R", bag.findDouble "P", bag.findDouble "Y" with
    | some r, some p, some y => (true, kdl.rpy r p y)
    | _, _, _ => (false, res)
  else (false, res)

/-- `EulerZYXComposer::getResult`; Z, Y and X are the deprecated names of alpha, beta and gamma. -/
def getResultEulerZYX (kdl : Library D) (bag : PropertyBag D) (res : Rotation D) : Bool × Rotation D :=
  if typeFits bag then
    match bag.findDouble "alpha" <|> bag.findDouble "Z", bag.findDouble "beta" <|> bag.findDouble "Y",
        bag.findDouble "gamma" <|> bag.findDouble "X" with
    | some a, some b, some g => (true, kdl.eulerZYX a b g)
    | _, _, _ => (false, res)
  else (false, res)

/-- `RotationComposer::getResult` -/
def getResult (bag : PropertyBag D) (res : Rotation D) : Bool × Rotation D :=
  if typeFits bag then
    match bag.findDouble "X_x", bag.findDouble "X_y", bag.findDouble "X_z",
        bag.findDouble "Y_x", bag.findDouble "Y_y", bag.findDouble "Y_z",
        bag.findDouble "Z_x", bag.findDouble "Z_y", bag.findDouble "Z_z" with
    | some Xx, some Xy, some Xz, some Yx, some Yy, some Yz, some Zx, some Zy, some Zz =>
      (true, ⟨Xx, Yx, Zx, Xy, Yy, Zy, Xz, Yz, Zz⟩)
    | _, _, _, _, _, _, _, _, _ => (false, res)
  else (false, res)

/-- Try all three, see which one works. -/
def composeProperty (kdl : Library D) (bag : PropertyBag D) : Rotation D → Bool × Rotation D :=
  orElse (getResultRPY kdl bag) (orElse (getResultEulerZYX kdl bag) (getResult bag))

theorem composeProperty_decompose {kdl : Library D} {r : Rotation D} (h : kdl.Exact r) (res : Rotation D) :
    composeProperty kdl (r.decompose kdl) res = (true, r) :=
  congrArg (Prod.mk true) h

end Rotation

/-! ## Twist and wrench -/

/-- Two sub bags, read one after the other into the parts of the target. -/
def composeParts {A B T : Type} (mk : A → B → T) (first : PropertyBag D → A → Bool × A)
    (second : PropertyBag D → B → Bool × B) (x y : String) (bag : PropertyBag D) (a : A) (b : B) : Bool × T :=
  match bag.getPropertyType Value.asBag x, bag.getPropertyType Value.asBag y with
  | some p, some q => both mk (first p) (second q) a b
  | _, _ => (false, mk a b)

namespace Twist

def decomposeProperty (t : Twist D) (targetbag : PropertyBag D) : PropertyBag D :=
  targetbag.setType "KDL.Twist"
    |>.add "vel" "Translational Velocity" (.bag t.vel.decompose)
    |>.add "rot" "Rotational Velocity" (.bag t.rot.decompose)

def composeProperty (bag : PropertyBag D) (t : Twist D) : Bool × Twist D :=
  if bag.type = "KDL.Twist" ∨ bag.type = "MotCon::Twist" then
    composeParts Twist.mk Vector.getResult Vector.getResult "vel" "rot" bag t.vel t.rot
  else (false, t)

theorem composeProperty_decomposeProperty (t res : Twist D) :
    composeProperty (t.decomposeProperty PropertyBag.empty) res = (true, t) := rfl

end Twist

namespace Wrench

def decomposeProperty (w : Wrench D) (targetbag : PropertyBag D) : PropertyBag D :=
  targetbag.setType "KDL.Wrench"
    |>.add "force" "Axial Force" (.bag w.force.decompose)
    |>.add "torque" "Axial Torque" (.bag w.torque.decompose)

/-- "Motcon", not "MotCon" as elsewhere. -/
def composeProperty (bag : PropertyBag D) (w : Wrench D) : Bool × Wrench D :=
  if bag.type = "KDL.Wrench" ∨ bag.type = "Motcon::Wrench" then
    composeParts Wrench.mk Vector.getResult Vector.getResult "force" "torque" bag w.force w.torque
  else (false, w)

theorem composeProperty_decomposeProperty (w res : Wrench D) :
    composeProperty (w.decomposeProperty PropertyBag.empty) res = (true, w) := rfl

end Wrench

/-! ## Frame -/

namespace Frame

def decomposeProperty (kdl : Library D) (f : Frame D) (targetbag : PropertyBag D) : PropertyBag D :=
  targetbag.setType "KDL.Frame"
    |>.add "p" "" (.bag f.p.decompose)
    |>.add "M" "" (.bag (f.M.decompose kdl))

def composeProperty (kdl : Library D) (bag : PropertyBag D) (f : Frame D) : Bool × Frame D :=
  if bag.type = "KDL.Frame" ∨ bag.type = "MotCon::Frame" then
    match bag.getPropertyType Value.asBag "p", bag.getPropertyType Value.asBag "M" with
    | some p, some M =>
      match Vector.getResult p f.p with
      | (false, p) => (false, { f with p := p })
      | (true, p) =>
        let (result, M) := Rotation.composeProperty kdl M f.M
        (result, ⟨p, M⟩)
    | _, _ => (false, f)
  else (false, f)

/-- A frame is read as a twist is, from `p` and `M`. -/
theorem composeProperty_eq (kdl : Library D) (bag : PropertyBag D) (f : Frame D) :
    composeProperty kdl bag f =
      if bag.type = "KDL.Frame" ∨ bag.type = "MotCon::Frame" then
        composeParts Frame.mk Vector.getResult (Rotation.composeProperty kdl) "p" "M" bag f.p f.M
      else (false, f) := by
  unfold composeProperty composeParts both
  split
  · rcases bag.getPropertyType Value.asBag "p" with _ | p
    · rfl
    · rcases bag.getPropertyType Value.asBag "M" with _ | M
      · rfl
      · dsimp only
        rcases Vector.getResult p f.p with ⟨_ | _, v⟩ <;> rfl
  · rfl

theorem composeProperty_decomposeProperty {kdl : Library D} {f : Frame D} (h : kdl.Exact f.M) (res : Frame D) :
    composeProperty kdl (f.decomposeProperty kdl PropertyBag.empty) res = (true, f) := by
  have htype : (f.decomposeProperty kdl PropertyBag.empty).type = "KDL.Frame" := rfl
  have hp : (f.decomposeProperty kdl PropertyBag.empty).getPropertyType Value.asBag "p" = some f.p.decompose :=
    PropertyBag.getPropertyType_add_of_some (PropertyBag.getPropertyType_add_of_none rfl rfl)
  have hM : (f.decomposeProperty kdl PropertyBag.empty).getPropertyType Value.asBag "M" = some (f.M.decompose kdl) :=
    PropertyBag.getPropertyType_add_of_none (PropertyBag.getPropertyType_add_of_ne (by decide)) rfl
  simp only [composeProperty, htype, hp, hM, true_or, if_true, Vector.getResult_decompose,
    Rotation.composeProperty_decompose h]

end Frame

end RttRos2.Kdl
