/-
  RttRos2.Params.Node — the parameters of a ROS node, as rclcpp documents them.

  rclcpp is a parameter of the model: `Node` has what the parameter service calls, and
  `Node.Documented` what it relies on. A parameter that is declared gets the override of
  its name, from the NodeOptions or the command line, if there is one; its type is static.
  `declare_parameter` throws when it refuses; `set_parameter` reports it, or throws.

  `Table` is a node that behaves so: a table of declared parameters.
-/

import RttRos2.Lib.Exec
import Mathlib.Logic.Function.Basic

namespace RttRos2.Params

open RttRos2.Lib

/-- `rclcpp::ParameterType` -/
inductive ParameterType where
  | notSet
  | bool
  | integer
  | double
  | string
  | byteArray
  | boolArray
  | integerArray
  | doubleArray
  | stringArray
  deriving DecidableEq, Repr

/-- `rclcpp::ParameterValue`; `D` are the doubles. -/
inductive ParameterValue (D : Type) where
  | notSet
  | bool (b : Bool)
  | integer (i : Int64)
  | double (d : D)
  | string (s : String)
  | byteArray (l : List UInt8)
  | boolArray (l : List Bool)
  | integerArray (l : List Int64)
  | doubleArray (l : List D)
  | stringArray (l : List String)
  deriving DecidableEq

variable {σ D : Type}

def ParameterValue.getType : ParameterValue D → ParameterType
  | .notSet => .notSet
  | .bool _ => .bool
  | .integer _ => .integer
  | .double _ => .double
  | .string _ => .string
  | .byteArray _ => .byteArray
  | .boolArray _ => .boolArray
  | .integerArray _ => .integerArray
  | .doubleArray _ => .doubleArray
  | .stringArray _ => .stringArray

/-- `rclcpp::exceptions` -/
inductive Exception where
  | parameterNotDeclared
  | parameterAlreadyDeclared
  | invalidParameters
  | invalidParameterType
  | invalidParameterValue
  deriving DecidableEq, Repr

/-- A node; `σ` are its states. -/
structure Node (σ D : Type) where
  /-- The declared parameters. -/
  parameters : σ → String → Option (ParameterValue D)
  overrides : σ → String → Option (ParameterValue D)
  declareParameter : σ → String → ParameterValue D → Except Exception (ParameterValue D) × σ
  /-- The answer is `SetParametersResult::successful`. -/
  setParameter : σ → String → ParameterValue D → Except Exception Bool × σ
  /-- A value that a callback or the descriptor does not admit. -/
  rejects : σ → String → ParameterValue D → Bool

namespace Node

variable (N : Node σ D)

/-- What `get_parameter` leaves in a `ParameterValue` that was not set. -/
def value (s : σ) (name : String) : ParameterValue D := (N.parameters s name).getD .notSet

/-- What a declared parameter starts with. -/
def initial (s : σ) (name : String) (defaultValue : ParameterValue D) : ParameterValue D :=
  (N.overrides s name).getD defaultValue

/-- When `declare_parameter` throws. -/
inductive Refuses (s : σ) (name : String) (defaultValue : ParameterValue D) : Prop
  | noName : name = "" → Refuses s name defaultValue
  | alreadyDeclared : N.parameters s name ≠ none → Refuses s name defaultValue
  | noValue : defaultValue = .notSet → Refuses s name defaultValue
  | otherType : (N.initial s name defaultValue).getType ≠ defaultValue.getType → Refuses s name defaultValue
  | rejected : N.rejects s name (N.initial s name defaultValue) = true → Refuses s name defaultValue

/-- What rclcpp documents. -/
structure Documented : Prop where
  declare_throws : ∀ s name v, (∃ e, (N.declareParameter s name v).1 = .error e) ↔ N.Refuses s name v
  declare_unchanged : ∀ s name v e, (N.declareParameter s name v).1 = .error e →
    N.parameters (N.declareParameter s name v).2 = N.parameters s
  declare_stores : ∀ s name v r, (N.declareParameter s name v).1 = .ok r →
    N.parameters (N.declareParameter s name v).2 =
      Function.update (N.parameters s) name (some (N.initial s name v))
  set_unchanged : ∀ s name v, (N.setParameter s name v).1 ≠ .ok true →
    N.parameters (N.setParameter s name v).2 = N.parameters s
  set_stores : ∀ s name v, (N.setParameter s name v).1 = .ok true →
    N.value (N.setParameter s name v).2 name = v ∧
      ∀ other, other ≠ name → N.parameters (N.setParameter s name v).2 other = N.parameters s other

end Node

/-! ## A node -/

structure Table (D : Type) where
  declared : String → Option (ParameterValue D)
  overrides : String → Option (ParameterValue D)
  allowUndeclared : Bool

namespace Table

def store (t : Table D) (name : String) (v : ParameterValue D) : Table D :=
  { t with declared := Function.update t.declared name (some v) }

def declareParameter (t : Table D) (name : String) (v : ParameterValue D) :
    Except Exception (ParameterValue D) × Table D :=
  if name = "" then (.error .invalidParameters, t)
  else if (t.declared name).isSome then (.error .parameterAlreadyDeclared, t)
  else if v.getType = .notSet then (.error .invalidParameterType, t)
  else
    let initial := (t.overrides name).getD v
    if initial.getType = v.getType then (.ok initial, t.store name initial) else (.error .invalidParameterType, t)

/-- A parameter keeps its type. -/
def setParameter (t : Table D) (name : String) (v : ParameterValue D) : Except Exception Bool × Table D :=
  if name = "" then (.error .invalidParameters, t)
  else match t.declared name with
    | none => if t.allowUndeclared then (.ok true, t.store name v) else (.error .parameterNotDeclared, t)
    | some old => if old.getType = v.getType then (.ok true, t.store name v) else (.ok false, t)

def node (D : Type) : Node (Table D) D where
  parameters := declared
  overrides := overrides
  declareParameter := declareParameter
  setParameter := setParameter
  rejects _ _ _ := false

variable {t : Table D} {name : String} {v : ParameterValue D}

theorem getType_notSet : v.getType = .notSet ↔ v = .notSet := by
  cases v <;> simp [ParameterValue.getType]

theorem declareParameter_cases (t : Table D) (name : String) (v : ParameterValue D) :
    ((node D).Refuses t name v ∧ ∃ e, t.declareParameter name v = (.error e, t)) ∨
    ¬ (node D).Refuses t name v ∧
      t.declareParameter name v = (.ok ((node D).initial t name v), t.store name ((node D).initial t name v)) := by
  unfold declareParameter
  split
  · rename_i h
    exact Or.inl ⟨.noName h, _, rfl⟩
  · rename_i hname
    split
    · rename_i h
      exact Or.inl ⟨.alreadyDeclared fun hn => by simp [show t.declared name = none from hn] at h, _, rfl⟩
    · rename_i hdeclared
      split
      · rename_i h
        exact Or.inl ⟨.noValue (getType_notSet.mp h), _, rfl⟩
      · rename_i hvalue
        simp only
        split
        · rename_i htype
          refine Or.inr ⟨?_, rfl⟩
          rintro (h | h | h | h | h)
          · exact hname h
          · exact hdeclared (Option.isSome_iff_ne_none.mpr h)
          · exact hvalue (getType_notSet.mpr h)
          · exact h htype
          · cases h
        · rename_i htype
          exact Or.inl ⟨.otherType htype, _, rfl⟩

theorem setParameter_cases (t : Table D) (name : String) (v : ParameterValue D) :
    ((t.setParameter name v).1 ≠ .ok true ∧ (t.setParameter name v).2 = t) ∨
    t.setParameter name v = (.ok true, t.store name v) := by
  unfold setParameter
  split
  · exact Or.inl ⟨by simp, rfl⟩
  · split
    · split
      · exact Or.inr rfl
      · exact Or.inl ⟨by simp, rfl⟩
    · split
      · exact Or.inr rfl
      · exact Or.inl ⟨by simp, rfl⟩

theorem documented : (node D).Documented where
  declare_throws t name v := by
    change (∃ e, (t.declareParameter name v).1 = .error e) ↔ _
    rcases declareParameter_cases t name v with ⟨hr, e, h⟩ | ⟨hr, h⟩
    · rw [h]
      exact iff_of_true ⟨e, rfl⟩ hr
    · rw [h]
      refine iff_of_false ?_ hr
      rintro ⟨e, he⟩
      cases he
  declare_unchanged t name v e h := by
    change (t.declareParameter name v).1 = .error e at h
    change (t.declareParameter name v).2.declared = t.declared
    rcases declareParameter_cases t name v with ⟨-, e', h'⟩ | ⟨-, h'⟩
    · rw [h']
    · rw [h'] at h
      cases h
  declare_stores t name v r h := by
    change (t.declareParameter name v).1 = .ok r at h
    change (t.declareParameter name v).2.declared = _
    rcases declareParameter_cases t name v with ⟨-, e', h'⟩ | ⟨-, h'⟩
    · rw [h'] at h
      cases h
    · rw [h']
      rfl
  set_unchanged t name v h := by
    change (t.setParameter name v).1 ≠ .ok true at h
    change (t.setParameter name v).2.declared = t.declared
    rcases setParameter_cases t name v with ⟨-, h'⟩ | h'
    · rw [h']
    · rw [h'] at h
      exact absurd rfl h
  set_stores t name v h := by
    change (t.setParameter name v).1 = .ok true at h
    change ((t.setParameter name v).2.declared name).getD .notSet = v ∧
      ∀ other, other ≠ name → (t.setParameter name v).2.declared other = t.declared other
    rcases setParameter_cases t name v with ⟨h', -⟩ | h'
    · exact absurd h h'
    · rw [h']
      refine ⟨by simp [store], fun other hne => ?_⟩
      simp [store, Function.update_of_ne hne]

end Table

end RttRos2.Params
