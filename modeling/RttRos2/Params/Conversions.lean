/-
  RttRos2.Params.Conversions — the conversions of parameter values into the types of
  properties (parameter_value_conversions.hpp), but for the two into `float`.

  `get` throws when the value is of another type; a conversion is `none` then. A parameter's
  integers have 64 bits, an `int` has 32: they are cast, one by one in an array.

  `convert_exact_iff`: a conversion yields what the parameter holds (`datum`) if and only
  if the integers it casts fit (`Fits`).
-/

import RttRos2.Params.Node
import Mathlib.Algebra.Ring.Int.Defs

namespace RttRos2.Params

variable {D : Type}

/-- The types of properties that parameters are loaded into. -/
inductive PropertyType where
  | bool
  | int
  | int64
  | double
  | string
  | byteArray
  | boolArray
  | intArray
  | int64Array
  | doubleArray
  | stringArray
  deriving DecidableEq, Repr

abbrev PropertyType.Value (D : Type) : PropertyType → Type
  | .bool => Bool
  | .int => Int32
  | .int64 => Int64
  | .double => D
  | .string => String
  | .byteArray => List UInt8
  | .boolArray => List Bool
  | .intArray => List Int32
  | .int64Array => List Int64
  | .doubleArray => List D
  | .stringArray => List String

structure Property (D : Type) where
  type : PropertyType
  value : type.Value D

/-! ## The conversions -/

def parameterValueToBool : ParameterValue D → Option Bool
  | .bool b => some b
  | _ => none

def parameterValueToInt64 : ParameterValue D → Option Int64
  | .integer i => some i
  | _ => none

/-- `static_cast<int>(t.get<int64_t>())` -/
def parameterValueToInt (t : ParameterValue D) : Option Int32 := (parameterValueToInt64 t).map Int64.toInt32

def parameterValueToDouble : ParameterValue D → Option D
  | .double d => some d
  | _ => none

def parameterValueToString : ParameterValue D → Option String
  | .string s => some s
  | _ => none

def parameterValueToByteArray : ParameterValue D → Option (List UInt8)
  | .byteArray l => some l
  | _ => none

def parameterValueToBoolArray : ParameterValue D → Option (List Bool)
  | .boolArray l => some l
  | _ => none

def parameterValueToInt64Array : ParameterValue D → Option (List Int64)
  | .integerArray l => some l
  | _ => none

/-- `std::vector<int>(int64_array.begin(), int64_array.end())` -/
def parameterValueToIntArray (t : ParameterValue D) : Option (List Int32) :=
  (parameterValueToInt64Array t).map (List.map Int64.toInt32)

def parameterValueToDoubleArray : ParameterValue D → Option (List D)
  | .doubleArray l => some l
  | _ => none

def parameterValueToStringArray : ParameterValue D → Option (List String)
  | .stringArray l => some l
  | _ => none

/-- `ParameterValueTypeInfo::installTypeInfoObject`: the conversion for each type. -/
def convert : (type : PropertyType) → ParameterValue D → Option (type.Value D)
  | .bool => parameterValueToBool
  | .int => parameterValueToInt
  | .int64 => parameterValueToInt64
  | .double => parameterValueToDouble
  | .string => parameterValueToString
  | .byteArray => parameterValueToByteArray
  | .boolArray => parameterValueToBoolArray
  | .intArray => parameterValueToIntArray
  | .int64Array => parameterValueToInt64Array
  | .doubleArray => parameterValueToDoubleArray
  | .stringArray => parameterValueToStringArray

/-! ## What they preserve -/

/-- What values denote, whatever their width. -/
inductive Datum (D : Type) where
  | bool (b : Bool)
  | integer (i : Int)
  | double (d : D)
  | string (s : String)
  | bytes (l : List UInt8)
  | bools (l : List Bool)
  | integers (l : List Int)
  | doubles (l : List D)
  | strings (l : List String)

def ParameterValue.datum : ParameterValue D → Option (Datum D)
  | .notSet => none
  | .bool b => some (.bool b)
  | .integer i => some (.integer i.toInt)
  | .double d => some (.double d)
  | .string s => some (.string s)
  | .byteArray l => some (.bytes l)
  | .boolArray l => some (.bools l)
  | .integerArray l => some (.integers (l.map Int64.toInt))
  | .doubleArray l => some (.doubles l)
  | .stringArray l => some (.strings l)

def Property.datum : Property D → Datum D
  | ⟨.bool, b⟩ => .bool b
  | ⟨.int, i⟩ => .integer i.toInt
  | ⟨.int64, i⟩ => .integer i.toInt
  | ⟨.double, d⟩ => .double d
  | ⟨.string, s⟩ => .string s
  | ⟨.byteArray, l⟩ => .bytes l
  | ⟨.boolArray, l⟩ => .bools l
  | ⟨.intArray, l⟩ => .integers (l.map Int32.toInt)
  | ⟨.int64Array, l⟩ => .integers (l.map Int64.toInt)
  | ⟨.doubleArray, l⟩ => .doubles l
  | ⟨.stringArray, l⟩ => .strings l

/-- The integer is an `int`. -/
def IsInt (i : Int64) : Prop := -2 ^ 31 ≤ i.toInt ∧ i.toInt < 2 ^ 31

instance (i : Int64) : Decidable (IsInt i) := inferInstanceAs (Decidable (_ ∧ _))

def Fits : PropertyType → ParameterValue D → Prop
  | .int, .integer i => IsInt i
  | .intArray, .integerArray l => ∀ i ∈ l, IsInt i
  | _, _ => True

theorem toInt32_eq_iff (i : Int64) : i.toInt32.toInt = i.toInt ↔ IsInt i := by
  rw [Int64.toInt_toInt32, Int.bmod_eq_iff (by decide), IsInt]
  simp

theorem map_toInt32_eq_iff (l : List Int64) :
    (l.map Int64.toInt32).map Int32.toInt = l.map Int64.toInt ↔ ∀ i ∈ l, IsInt i := by
  induction l with
  | nil => simp
  | cons i l ih =>
    rw [List.map_cons, List.map_cons, List.map_cons, List.cons.injEq, ih, toInt32_eq_iff, List.forall_mem_cons]

theorem convert_exact_iff {type : PropertyType} {v : ParameterValue D} {x : type.Value D} (h : convert type v = some x) :
    v.datum = some (Property.datum ⟨type, x⟩) ↔ Fits type v := by
  cases type with
  | int =>
    cases v with
    | integer i =>
      cases h
      rw [show Fits .int (.integer i : ParameterValue D) = IsInt i from rfl, ← toInt32_eq_iff]
      simp [ParameterValue.datum, Property.datum, eq_comm]
    | _ => cases h
  | intArray =>
    cases v with
    | integerArray l =>
      cases h
      rw [show Fits .intArray (.integerArray l : ParameterValue D) = ∀ i ∈ l, IsInt i from rfl, ← map_toInt32_eq_iff]
      simp [ParameterValue.datum, Property.datum, eq_comm]
    | _ => cases h
  | _ =>
    cases v <;> cases h
    all_goals exact iff_of_true rfl trivial

/-- A conversion that throws does not narrow. -/
theorem fits_of_convert_none {type : PropertyType} {v : ParameterValue D} (h : convert type v = none) :
    Fits type v := by
  cases type with
  | int =>
    cases v with
    | integer i => cases h
    | _ => trivial
  | intArray =>
    cases v with
    | integerArray l => cases h
    | _ => trivial
  | _ => trivial

end RttRos2.Params
