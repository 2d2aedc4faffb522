/-
  RttRos2.Kdl.Kinfam — joints, segments, chains, joint arrays and Jacobians as property
  bags (kinfamproperties.cpp).

  A joint is written by its type name, a segment as a bag with a `joint` and a `frame`,
  a chain as a bag with one `Segment` for each segment, an array as one double for each
  element, a Jacobian row by row. The decomposers add to the bag they get. What
  `composeType` returns for a component is not looked at.
-/

import RttRos2.Kdl.Motion
import Mathlib.Data.List.FinRange

namespace RttRos2.Kdl

open RttRos2.Lib

variable {D : Type}

inductive JointType where
  | rotAxis
  | rotX
  | rotY
  | rotZ
  | transAxis
  | transX
  | transY
  | transZ
  | none
  deriving DecidableEq, Repr

structure Joint (D : Type) where
  type : JointType
  scale : D
  offset : D
  inertia : D
  deriving DecidableEq

/-- `Joint(type)`: the default scale, offset and inertia. -/
def Joint.ofType [Zero D] [One D] (type : JointType) : Joint D := ⟨type, 1, 0, 0⟩

structure Segment (D : Type) where
  joint : Joint D
  frameToTip : Frame D
  deriving DecidableEq

/-- `Segment()` -/
def Segment.default [Zero D] [One D] : Segment D := ⟨Joint.ofType .none, Frame.identity⟩

abbrev Chain (D : Type) := List (Segment D)

structure JntArray (D : Type) where
  rows : Nat
  data : Fin rows → D

structure Jacobian (D : Type) where
  columns : Nat
  data : Fin 6 × Fin columns → D

/-! ## Joint -/

namespace Joint

def getTypeName (kdl : Library D) (joint : Joint D) : String :=
  match joint.type with
  | .rotAxis => "RotAxis"
  | .rotX => "RotX"
  | .rotY => "RotY"
  | .rotZ => "RotZ"
  | .transAxis => "TransAxis"
  | .transX => "TransX"
  | .transY => "TransY"
  | .transZ => "TransZ"
  | .none => kdl.noneName

def decomposeProperty (kdl : Library D) (joint : Joint D) (targetbag : PropertyBag D) : PropertyBag D :=
  targetbag.setType "KDL.Joint"
    |>.add "Type" "Type of Joint" (.string (joint.getTypeName kdl))

/-- The joint types that are read. -/
def typeOfName (name : String) : Option JointType :=
  if name = "RotX" then some .rotX
  else if name = "RotY" then some .rotY
  else if name = "RotZ" then some .rotZ
  else if name = "TransX" then some .transX
  else if name = "TransY" then some .transY
  else if name = "TransZ" then some .transZ
  else if name = "None" then some .none
  else none

/-- A rotation about, or a translation along, one of the coordinate axes. -/
def Coordinate (joint : Joint D) : Prop :=
  joint.type ∈ [.rotX, .rotY, .rotZ, .transX, .transY, .transZ]

instance (joint : Joint D) : Decidable joint.Coordinate := inferInstanceAs (Decidable (_ ∈ _))

theorem typeOfName_getTypeName {kdl : Library D} {joint : Joint D} (h : joint.Coordinate) :
    typeOfName (joint.getTypeName kdl) = some joint.type := by
  unfold Coordinate at h
  unfold getTypeName
  cases ht : joint.type with
  | rotX | rotY | rotZ | transX | transY | transZ => rfl
  | rotAxis | transAxis | none => simp [ht] at h

variable [Zero D] [One D]

def composeProperty (bag : PropertyBag D) (joint : Joint D) : Bool × Joint D :=
  if bag.type = "KDL.Joint" then
    match bag.getPropertyType Value.asString "Type" with
    | none => (false, joint)
    | some name =>
      match typeOfName name with
      | some type => (true, ofType type)
      | none => (false, joint)
  else (false, joint)

theorem composeProperty_decomposeProperty (kdl : Library D) {joint : Joint D} (h : joint.Coordinate) (res : Joint D) :
    composeProperty (joint.decomposeProperty kdl PropertyBag.empty) res = (true, ofType joint.type) := by
  have hname : (joint.decomposeProperty kdl PropertyBag.empty).getPropertyType Value.asString "Type" =
      some (joint.getTypeName kdl) := PropertyBag.getPropertyType_add_of_none rfl rfl
  have htype : (joint.decomposeProperty kdl PropertyBag.empty).type = "KDL.Joint" := rfl
  simp only [composeProperty, htype, hname, typeOfName_getTypeName h, if_true]

end Joint

/-! ## Segment -/

namespace Segment

def decomposeProperty (kdl : Library D) (segment : Segment D) (targetbag : PropertyBag D) : PropertyBag D :=
  targetbag.setType "KDL.Segment"
    |>.add "joint" "The joint at the base of this segment"
      (.bag (segment.joint.decomposeProperty kdl PropertyBag.empty))
    |>.add "frame" "The offset frame from the joint at the base to the end of the link"
      (.bag (segment.frameToTip.decomposeProperty kdl PropertyBag.empty))

variable [Zero D] [One D]

def composeProperty (kdl : Library D) (bag : PropertyBag D) (segment : Segment D) : Bool × Segment D :=
  if bag.type = "KDL.Segment" then
    match bag.getPropertyType Value.asBag "joint", bag.getPropertyType Value.asBag "frame" with
    | some joint, some frame =>
      (true, ⟨(composeType Joint.composeProperty (.bag joint) (Joint.ofType .none)).2,
        (composeType (Frame.composeProperty kdl) (.bag frame) Frame.identity).2⟩)
    | _, _ => (false, segment)
  else (false, segment)

end Segment

/-! ## Chain -/

namespace Chain

/-- The loop. `segmentBag` is declared before it, and each segment is added to what is there. -/
def decomposeSegments (kdl : Library D) : List (Segment D) → PropertyBag D → PropertyBag D → PropertyBag D
  | [], _, targetbag => targetbag
  | segment :: rest, segmentBag, targetbag =>
    let segmentBag := segment.decomposeProperty kdl segmentBag
    decomposeSegments kdl rest segmentBag (targetbag.add "Segment" "Segment of the chain" (.bag segmentBag))

def decomposeProperty (kdl : Library D) (chain : Chain D) (targetbag : PropertyBag D) : PropertyBag D :=
  decomposeSegments kdl chain PropertyBag.empty (targetbag.setType "KDL.Chain")

variable [Zero D] [One D]

/-- The loop. `none` when an item is not ready. -/
def composeSegments (kdl : Library D) : List (Property (Value D)) → Chain D → Option (Chain D)
  | [], chainNew => some chainNew
  | segmentBag :: rest, chainNew =>
    if segmentBag.value.ready then
      composeSegments kdl rest
        (chainNew ++ [(composeType (Segment.composeProperty kdl) segmentBag.value Segment.default).2])
    else none

def composeProperty (kdl : Library D) (bag : PropertyBag D) (chain : Chain D) : Bool × Chain D :=
  if bag.type = "KDL.Chain" then
    match composeSegments kdl bag.properties [] with
    | some chainNew => (true, chainNew)
    | none => (false, chain)
  else (false, chain)

end Chain

/-! ## Joint array -/

/-- `composeType` of a double. -/
def composeDouble (source : Value D) : D → Bool × D := put source.asDouble

/-- The body of the loops: what is put into the new array. `none` when the item is not ready. -/
def composeElement [Zero D] (item : Property (Value D)) : Option D :=
  if item.value.ready then some (composeDouble item.value 0).2 else none

namespace JntArray

def decomposeProperty (jntarray : JntArray D) (targetbag : PropertyBag D) : PropertyBag D :=
  (List.finRange jntarray.rows).foldl
    (fun bag i => bag.add ("Element" ++ toString i.val) "JntArray element" (.double (jntarray.data i)))
    (targetbag.setType "KDL.JntArray")

variable [Zero D]

/-- What is read for element `i`. -/
def element (bag : PropertyBag D) (i : Fin bag.properties.length) : Option D :=
  (bag.properties[i.val]?).bind composeElement

def composeProperty (bag : PropertyBag D) (jntarray : JntArray D) : Bool × JntArray D :=
  if bag.type = "KDL.JntArray" then
    match fillEach (element bag) (List.finRange bag.properties.length) fun _ => 0 with
    | some data => (true, ⟨bag.properties.length, data⟩)
    | none => (false, jntarray)
  else (false, jntarray)

end JntArray

/-! ## Jacobian -/

namespace Jacobian

/-- The loop over the rows, and in it the one over the columns. -/
def indices (columns : Nat) : List (Fin 6 × Fin columns) :=
  (List.finRange 6).flatMap fun i => (List.finRange columns).map fun j => (i, j)

def decomposeProperty (jacobian : Jacobian D) (targetbag : PropertyBag D) : PropertyBag D :=
  (indices jacobian.columns).foldl
    (fun bag ij => bag.add ("Element (" ++ toString ij.1.val ++ "," ++ toString ij.2.val ++ ")") "Jacobian element"
      (.double (jacobian.data ij)))
    (targetbag.setType "KDL.Jacobian")

variable [Zero D]

/-- What is read for element `(i, j)`: the rows are one behind the other, as long as six of them can be. -/
def element (bag : PropertyBag D) (ij : Fin 6 × Fin (bag.properties.length / 6)) : Option D :=
  (bag.properties[bag.properties.length / 6 * ij.1.val + ij.2.val]?).bind composeElement

def composeProperty (bag : PropertyBag D) (jacobian : Jacobian D) : Bool × Jacobian D :=
  if bag.type = "KDL.Jacobian" then
    match fillEach (element bag) (indices (bag.properties.length / 6)) fun _ => 0 with
    | some data => (true, ⟨bag.properties.length / 6, data⟩)
    | none => (false, jacobian)
  else (false, jacobian)

end Jacobian

end RttRos2.Kdl
