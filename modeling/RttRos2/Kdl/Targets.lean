/-
  RttRos2.Kdl.Targets — a composition that fails should leave its target alone.

  Most overloads of `composeProperty` build a new value and assign it at the end. Those for
  a twist, a wrench and a frame fill in the target part by part, and when the second part
  cannot be read the first one is there already: a command with a new velocity and the old
  rotation, of which the result says only that it failed (`half_a_twist`).

  `target_kept_iff`: the target is kept unless the bag has a first part other than the
  target's and a second that cannot be read (`HalfRead`).
-/

import RttRos2.Kdl.Chain
import RttRos2.Kdl.Reading

namespace RttRos2.Kdl

open RttRos2.Lib

variable {D : Type}

/-- The overloads of `composeProperty`. -/
inductive Overload where
  | vector
  | rotation
  | twist
  | wrench
  | frame
  | joint
  | segment
  | chain
  | jntArray
  | jacobian
  deriving DecidableEq, Repr

namespace Overload

def Target (D : Type) : Overload → Type
  | .vector => Vector D
  | .rotation => Rotation D
  | .twist => Twist D
  | .wrench => Wrench D
  | .frame => Frame D
  | .joint => Joint D
  | .segment => Segment D
  | .chain => Chain D
  | .jntArray => JntArray D
  | .jacobian => Jacobian D

def composeProperty [Zero D] [One D] (kdl : Library D) :
    (o : Overload) → PropertyBag D → o.Target D → Bool × o.Target D
  | .vector => Vector.getResult
  | .rotation => Rotation.composeProperty kdl
  | .twist => Twist.composeProperty
  | .wrench => Wrench.composeProperty
  | .frame => Frame.composeProperty kdl
  | .joint => Joint.composeProperty
  | .segment => Segment.composeProperty kdl
  | .chain => Chain.composeProperty kdl
  | .jntArray => JntArray.composeProperty
  | .jacobian => Jacobian.composeProperty

/-- The bag has both sub bags; the first holds another value than the target, the second none. -/
def HalfRead (kdl : Library D) (bag : PropertyBag D) : (o : Overload) → o.Target D → Prop
  | .twist, t => ∃ v, Twist.parts bag = some (some v, none) ∧ v ≠ t.vel
  | .wrench, w => ∃ v, Wrench.parts bag = some (some v, none) ∧ v ≠ w.force
  | .frame, f => ∃ v, Frame.parts kdl bag = some (some v, none) ∧ v ≠ f.p
  | _, _ => False

end Overload

/-- A twist whose `rot` has no elements. -/
def halfTwist : PropertyBag Int :=
  ⟨"KDL.Twist", [⟨"vel", "", .bag (Vector.decompose ⟨1, 2, 3⟩)⟩, ⟨"rot", "", .bag ⟨"KDL.Vector", []⟩⟩]⟩

theorem half_a_twist :
    Twist.composeProperty halfTwist ⟨Vector.zero, Vector.zero⟩ = (false, ⟨⟨1, 2, 3⟩, Vector.zero⟩) ∧
      ¬ Keeps (Overload.twist.composeProperty Chain.translations halfTwist) ⟨Vector.zero, Vector.zero⟩ := by
  refine ⟨rfl, fun h => ?_⟩
  have hkept : (⟨⟨1, 2, 3⟩, Vector.zero⟩ : Twist Int) = ⟨Vector.zero, Vector.zero⟩ := h rfl
  revert hkept
  decide

/-! ## One overload -/

theorem Twist.keeps_iff (bag : PropertyBag D) (t : Twist D) :
    Keeps (composeProperty bag) t ↔ ¬ ∃ v, parts bag = some (some v, none) ∧ v ≠ t.vel := by
  unfold Keeps
  rw [composeProperty_eq_fillParts]
  exact fillParts_keeps_iff fun v h => (Twist.mk.inj h).1

theorem Wrench.keeps_iff (bag : PropertyBag D) (w : Wrench D) :
    Keeps (composeProperty bag) w ↔ ¬ ∃ v, parts bag = some (some v, none) ∧ v ≠ w.force := by
  unfold Keeps
  rw [composeProperty_eq_fillParts]
  exact fillParts_keeps_iff fun v h => (Wrench.mk.inj h).1

theorem Frame.keeps_iff (kdl : Library D) (bag : PropertyBag D) (f : Frame D) :
    Keeps (composeProperty kdl bag) f ↔ ¬ ∃ v, parts kdl bag = some (some v, none) ∧ v ≠ f.p := by
  unfold Keeps
  rw [composeProperty_eq_fillParts]
  exact fillParts_keeps_iff fun v h => (Frame.mk.inj h).1

/-- A composer that assigns at the end. -/
theorem keeps_of_eq_put {T : Type} {fill : T → Bool × T} {x : Option T} (h : fill = put x) (t : T) :
    Keeps fill t ↔ ¬ False := by
  rw [h]
  exact iff_of_true (keeps_put x t) not_false

/-! ## All of them -/

theorem target_kept_iff [Zero D] [One D] (kdl : Library D) (o : Overload) (bag : PropertyBag D)
    (target : o.Target D) : Keeps (o.composeProperty kdl bag) target ↔ ¬ o.HalfRead kdl bag target := by
  cases o with
  | vector => exact keeps_of_eq_put (Vector.getResult_eq_put bag) target
  | rotation => exact keeps_of_eq_put (Rotation.composeProperty_eq_put kdl bag) target
  | twist => exact Twist.keeps_iff bag target
  | wrench => exact Wrench.keeps_iff bag target
  | frame => exact Frame.keeps_iff kdl bag target
  | joint => exact keeps_of_eq_put (Joint.composeProperty_eq_put bag) target
  | segment => exact keeps_of_eq_put (Segment.composeProperty_eq_put kdl bag) target
  | chain => exact keeps_of_eq_put (Chain.composeProperty_eq_put kdl bag) target
  | jntArray => exact keeps_of_eq_put (JntArray.composeProperty_eq_put bag) target
  | jacobian => exact keeps_of_eq_put (Jacobian.composeProperty_eq_put bag) target

end RttRos2.Kdl
