/-
  RttRos2.Kdl.Reading — what a property bag says.

  A composer is a reading of the bag, and what it does to its target is the same for all:
  - `Vector.read`, `Rotation.read`, `Joint.read` are the value that the bag holds, if any.
    The composers put it into the target (`composeProperty_eq_put`).
  - `Twist.parts`, `Wrench.parts` and `Frame.parts` are what the two sub bags hold, each if
    any, when the bag has both. The composers put the first and then, if there was one, the
    second (`composeProperty_eq_fillParts`), so they can stop half-way.
  - `Segment.composed` and so on are what the composers of containers assign, if they get
    to the end: a value also where a component could not be read.
-/

import RttRos2.Kdl.Kinfam

namespace RttRos2.Kdl

open RttRos2.Lib

variable {D : Type}

theorem orElse_put {T : Type} (x y : Option T) : orElse (put x) (put y) = put (x <|> y) := by
  funext t
  cases x <;> rfl

/-! ## One value -/

namespace Vector

def read (bag : PropertyBag D) : Option (Vector D) :=
  if bag.type = "MotCon::Vector" ∨ bag.type = "KDL.Vector" then do
    let px ← bag.findDouble "X"
    let py ← bag.findDouble "Y"
    let pz ← bag.findDouble "Z"
    pure ⟨px, py, pz⟩
  else none

theorem getResult_eq_put (bag : PropertyBag D) : getResult bag = put (read bag) := by
  funext res
  unfold getResult read
  split
  · cases bag.findDouble "X" <;> cases bag.findDouble "Y" <;> cases bag.findDouble "Z" <;> rfl
  · rfl

end Vector

namespace Rotation

def readRPY (kdl : Library D) (bag : PropertyBag D) : Option (Rotation D) := do
  let r ← bag.findDouble "R"
  let p ← bag.findDouble "P"
  let y ← bag.findDouble "Y"
  pure (kdl.rpy r p y)

def readEulerZYX (kdl : Library D) (bag : PropertyBag D) : Option (Rotation D) := do
  let a ← bag.findDouble "alpha" <|> bag.findDouble "Z"
  let b ← bag.findDouble "beta" <|> bag.findDouble "Y"
  let g ← bag.findDouble "gamma" <|> bag.findDouble "X"
  pure (kdl.eulerZYX a b g)

def readMatrix (bag : PropertyBag D) : Option (Rotation D) := do
  let Xx ← bag.findDouble "X_x"
  let Xy ← bag.findDouble "X_y"
  let Xz ← bag.findDouble "X_z"
  let Yx ← bag.findDouble "Y_x"
  let Yy ← bag.findDouble "Y_y"
  let Yz ← bag.findDouble "Y_z"
  let Zx ← bag.findDouble "Z_x"
  let Zy ← bag.findDouble "Z_y"
  let Zz ← bag.findDouble "Z_z"
  pure ⟨Xx, Yx, Zx, Xy, Yy, Zy, Xz, Yz, Zz⟩

/-- The first of the three formats in which the bag can be read. -/
def read (kdl : Library D) (bag : PropertyBag D) : Option (Rotation D) :=
  if typeFits bag then readRPY kdl bag <|> readEulerZYX kdl bag <|> readMatrix bag else none

theorem getResultRPY_eq_put (kdl : Library D) {bag : PropertyBag D} (h : typeFits bag) :
    getResultRPY kdl bag = put (readRPY kdl bag) := by
  funext res
  unfold getResultRPY readRPY
  rw [if_pos h]
  cases bag.findDouble "R" <;> cases bag.findDouble "P" <;> cases bag.findDouble "Y" <;> rfl

theorem getResultEulerZYX_eq_put (kdl : Library D) {bag : PropertyBag D} (h : typeFits bag) :
    getResultEulerZYX kdl bag = put (readEulerZYX kdl bag) := by
  funext res
  unfold getResultEulerZYX readEulerZYX
  rw [if_pos h]
  generalize (bag.findDouble "alpha" <|> bag.findDouble "Z") = a
  generalize (bag.findDouble "beta" <|> bag.findDouble "Y") = b
  generalize (bag.findDouble "gamma" <|> bag.findDouble "X") = g
  cases a <;> cases b <;> cases g <;> rfl

theorem getResult_eq_put {bag : PropertyBag D} (h : typeFits bag) : getResult bag = put (readMatrix bag) := by
  funext res
  unfold getResult readMatrix
  rw [if_pos h]
  -- the entries are looked up one after the other: what follows a missing one does not matter
  rcases bag.findDouble "X_x" with _ | Xx
  · rfl
  rcases bag.findDouble "X_y" with _ | Xy
  · rfl
  rcases bag.findDouble "X_z" with _ | Xz
  · rfl
  rcases bag.findDouble "Y_x" with _ | Yx
  · rfl
  rcases bag.findDouble "Y_y" with _ | Yy
  · rfl
  rcases bag.findDouble "Y_z" with _ | Yz
  · rfl
  rcases bag.findDouble "Z_x" with _ | Zx
  · rfl
  rcases bag.findDouble "Z_y" with _ | Zy
  · rfl
  rcases bag.findDouble "Z_z" with _ | Zz <;> rfl

theorem composeProperty_eq_put (kdl : Library D) (bag : PropertyBag D) :
    composeProperty kdl bag = put (read kdl bag) := by
  unfold composeProperty read
  by_cases h : typeFits bag
  · rw [getResultRPY_eq_put kdl h, getResultEulerZYX_eq_put kdl h, getResult_eq_put h, orElse_put, orElse_put,
      if_pos h]
  · funext res
    simp [orElse, getResultRPY, getResultEulerZYX, getResult, h]

end Rotation

namespace Joint

def read (bag : PropertyBag D) : Option JointType :=
  if bag.type = "KDL.Joint" then (bag.getPropertyType Value.asString "Type").bind typeOfName else none

theorem composeProperty_eq_put [Zero D] [One D] (bag : PropertyBag D) :
    composeProperty bag = put ((read bag).map ofType) := by
  funext res
  unfold composeProperty read
  split
  · rcases bag.getPropertyType Value.asString "Type" with _ | name
    · rfl
    · dsimp only [Option.bind_some]
      cases typeOfName name <;> rfl
  · rfl

end Joint

/-! ## Two parts -/

section
variable {A B T : Type} {mk : A → B → T} {parts : Option (Option A × Option B)} {a : A} {b : B}

/-- What the sub bags `x` and `y` hold, when there are both. -/
def partsOf (first : PropertyBag D → Option A) (second : PropertyBag D → Option B) (x y : String)
    (bag : PropertyBag D) : Option (Option A × Option B) := do
  let p ← bag.getPropertyType Value.asBag x
  let q ← bag.getPropertyType Value.asBag y
  pure (first p, second q)

def fillParts (mk : A → B → T) (parts : Option (Option A × Option B)) (a : A) (b : B) : Bool × T :=
  match parts with
  | some (x, y) => both mk (put x) (put y) a b
  | none => (false, mk a b)

/-- Composers that put what they read, one after the other, in a bag whose type name fits. -/
theorem composeParts_eq_fillParts {first : PropertyBag D → A → Bool × A} {second : PropertyBag D → B → Bool × B}
    {readFirst : PropertyBag D → Option A} {readSecond : PropertyBag D → Option B}
    (hfirst : ∀ p, first p = put (readFirst p)) (hsecond : ∀ q, second q = put (readSecond q))
    (fits : Prop) [Decidable fits] (x y : String) (bag : PropertyBag D) (a : A) (b : B) :
    (if fits then composeParts mk first second x y bag a b else (false, mk a b)) =
      fillParts mk (if fits then partsOf readFirst readSecond x y bag else none) a b := by
  split
  · unfold composeParts partsOf
    rcases bag.getPropertyType Value.asBag x with _ | p
    · rfl
    · rcases bag.getPropertyType Value.asBag y with _ | q
      · rfl
      · simp only [hfirst, hsecond]
        rfl
  · rfl

theorem fillParts_eq_true_iff {t : T} :
    fillParts mk parts a b = (true, t) ↔ ∃ v w, parts = some (some v, some w) ∧ mk v w = t := by
  rcases parts with _ | ⟨x, y⟩
  · simp [fillParts]
  · simp [fillParts, both_put_eq_true_iff, and_assoc]

/-- The target is left alone but for a new first part whose second part is missing. -/
theorem fillParts_keeps_iff (hmk : ∀ v, mk v b = mk a b → v = a) :
    ((fillParts mk parts a b).1 = false → (fillParts mk parts a b).2 = mk a b) ↔
      ¬ ∃ v, parts = some (some v, none) ∧ v ≠ a := by
  rcases parts with _ | ⟨x, y⟩
  · simp [fillParts]
  · simp only [fillParts, both_put_keeps_iff hmk, Option.some.injEq, Prod.mk.injEq, Option.mem_def]
    refine not_congr ?_
    constructor
    · rintro ⟨⟨v, hv, hne⟩, hy⟩
      exact ⟨v, ⟨hv, hy⟩, hne⟩
    · rintro ⟨v, ⟨hv, hy⟩, hne⟩
      exact ⟨⟨v, hv, hne⟩, hy⟩

end

namespace Twist

def parts (bag : PropertyBag D) : Option (Option (Vector D) × Option (Vector D)) :=
  if bag.type = "KDL.Twist" ∨ bag.type = "MotCon::Twist" then partsOf Vector.read Vector.read "vel" "rot" bag
  else none

theorem composeProperty_eq_fillParts (bag : PropertyBag D) (t : Twist D) :
    composeProperty bag t = fillParts Twist.mk (parts bag) t.vel t.rot :=
  composeParts_eq_fillParts Vector.getResult_eq_put Vector.getResult_eq_put ..

end Twist

namespace Wrench

def parts (bag : PropertyBag D) : Option (Option (Vector D) × Option (Vector D)) :=
  if bag.type = "KDL.Wrench" ∨ bag.type = "Motcon::Wrench" then partsOf Vector.read Vector.read "force" "torque" bag
  else none

theorem composeProperty_eq_fillParts (bag : PropertyBag D) (w : Wrench D) :
    composeProperty bag w = fillParts Wrench.mk (parts bag) w.force w.torque :=
  composeParts_eq_fillParts Vector.getResult_eq_put Vector.getResult_eq_put ..

end Wrench

namespace Frame

def parts (kdl : Library D) (bag : PropertyBag D) : Option (Option (Vector D) × Option (Rotation D)) :=
  if bag.type = "KDL.Frame" ∨ bag.type = "MotCon::Frame" then partsOf Vector.read (Rotation.read kdl) "p" "M" bag
  else none

theorem composeProperty_eq_fillParts (kdl : Library D) (bag : PropertyBag D) (f : Frame D) :
    composeProperty kdl bag f = fillParts Frame.mk (parts kdl bag) f.p f.M := by
  rw [composeProperty_eq]
  exact composeParts_eq_fillParts Vector.getResult_eq_put (Rotation.composeProperty_eq_put kdl) ..

end Frame

/-! ## Containers -/

section
variable [Zero D] [One D]

namespace Segment

def composed (kdl : Library D) (bag : PropertyBag D) : Option (Segment D) :=
  if bag.type = "KDL.Segment" then do
    let joint ← bag.getPropertyType Value.asBag "joint"
    let frame ← bag.getPropertyType Value.asBag "frame"
    pure ⟨(Joint.composeProperty joint (Joint.ofType .none)).2, (Frame.composeProperty kdl frame Frame.identity).2⟩
  else none

theorem composeProperty_eq_put (kdl : Library D) (bag : PropertyBag D) :
    composeProperty kdl bag = put (composed kdl bag) := by
  funext segment
  unfold composeProperty composed
  split
  · cases bag.getPropertyType Value.asBag "joint" <;> cases bag.getPropertyType Value.asBag "frame" <;> rfl
  · rfl

end Segment

namespace Chain

def composed (kdl : Library D) (bag : PropertyBag D) : Option (Chain D) :=
  if bag.type = "KDL.Chain" then composeSegments kdl bag.properties [] else none

theorem composeProperty_eq_put (kdl : Library D) (bag : PropertyBag D) :
    composeProperty kdl bag = put (composed kdl bag) := by
  funext chain
  unfold composeProperty composed
  split
  · cases composeSegments kdl bag.properties [] <;> rfl
  · rfl

end Chain

end

section
variable [Zero D]

namespace JntArray

def composed (bag : PropertyBag D) : Option (JntArray D) :=
  if bag.type = "KDL.JntArray" then
    (fillEach (element bag) (List.finRange bag.properties.length) fun _ => 0).map fun data => ⟨_, data⟩
  else none

theorem composeProperty_eq_put (bag : PropertyBag D) : composeProperty bag = put (composed bag) := by
  funext jntarray
  unfold composeProperty composed
  split
  · cases fillEach (element bag) (List.finRange bag.properties.length) fun _ => 0 <;> rfl
  · rfl

end JntArray

namespace Jacobian

def composed (bag : PropertyBag D) : Option (Jacobian D) :=
  if bag.type = "KDL.Jacobian" then
    (fillEach (element bag) (indices (bag.properties.length / 6)) fun _ => 0).map fun data => ⟨_, data⟩
  else none

theorem composeProperty_eq_put (bag : PropertyBag D) : composeProperty bag = put (composed bag) := by
  funext jacobian
  unfold composeProperty composed
  split
  · cases fillEach (element bag) (indices (bag.properties.length / 6)) fun _ => 0 <;> rfl
  · rfl

end Jacobian

end

end RttRos2.Kdl
