/-
  RttRos2.Typekit.Parameters — numbers become parameter values without being asked
  (ros2_parameter_value_type.cpp, with ros2_primitives_typekit.cpp).

  `ParameterValueTypeInfo` registers automatic constructors for four types of numbers; a
  number of another type gets there by automatic conversions first, one after the other
  (`ToParameter`). `parameters_exact`:
  - every type of number has a way, but `uint64`, which has none;
  - all ways from one type make the same parameter value of a number;
  - an integer is the integer it was.
-/

import RttRos2.Params.Store
import RttRos2.Typekit.Primitives

namespace RttRos2.Typekit

open RttRos2.Params (ParameterValue intToParameterValue int64ToParameterValue floatToParameterValue
  doubleToParameterValue)

/-- `ti->addConstructor(newConstructor(&convert, true))` of `ParameterValueTypeInfo`, for
    numbers. -/
def parameterConstructor (F : Floats) : (A : CppType) → Option (A.Value F → ParameterValue F.Double)
  | .int .int32 => some fun x => intToParameterValue (Int32.ofBitVec x)
  | .int .int64 => some fun x => int64ToParameterValue (Int64.ofBitVec x)
  | .float => some (floatToParameterValue F.widen)
  | .double => some doubleToParameterValue
  | _ => none

/-- A way to make a parameter value of an `A`: automatic conversions, then a constructor. -/
structure ToParameter (F : Floats) (A : CppType) where
  source : CppType
  chain : Chain A source
  make : source.Value F → ParameterValue F.Double
  constructor : parameterConstructor F source = some make

variable {F : Floats} {A B : CppType} {t : IntType}

def ToParameter.apply (p : ToParameter F A) (x : A.Value F) : ParameterValue F.Double := p.make (p.chain.apply F x)

/-! ## Where the ways lead -/

/-- An integer is made a parameter value of as the integer it is. -/
theorem make_integer {make : t.format.Bits → ParameterValue F.Double}
    (h : parameterConstructor F (.int t) = some make) (x : t.format.Bits) :
    (make x).datum = some (.integer (t.format.value x)) := by
  cases t with
  | int32 =>
    cases h
    exact congrArg (fun i => some (Params.Datum.integer i)) (Int32.toInt_toInt64 (Int32.ofBitVec x))
  | int64 =>
    cases h
    rfl
  | _ => cases h

/-- Chains of conversions stay among the integers, or among the floating point numbers. -/
theorem widens_cases (h : Widens A B) :
    (∃ t r, A = .int t ∧ B = .int r) ∨ (A = .float ∧ B = .float) ∨ (A = .float ∧ B = .double) ∨
      (A = .double ∧ B = .double) := by
  cases h with
  | int => exact .inl ⟨_, _, rfl, rfl⟩
  | float => exact .inr (.inl ⟨rfl, rfl⟩)
  | double => exact .inr (.inr (.inr ⟨rfl, rfl⟩))
  | floatToDouble => exact .inr (.inr (.inl ⟨rfl, rfl⟩))

/-- The parameter value that a number becomes, if it becomes one. -/
def parameterOf (F : Floats) : (A : CppType) → A.Value F → ParameterValue F.Double
  | .int t, x => .integer (Int64.ofInt (t.format.value x))
  | .float, x => .double (F.widen x)
  | .double, x => .double x

theorem integer_of_datum {v : ParameterValue F.Double} {n : Int} (h : v.datum = some (.integer n)) :
    v = .integer (Int64.ofInt n) := by
  cases v with
  | integer i =>
    obtain rfl : i.toInt = n := by simpa [ParameterValue.datum] using h
    exact congrArg _ (Int64.ofInt_toInt i).symm
  | _ => cases h

theorem ToParameter.datum (p : ToParameter F (.int t)) (x : t.format.Bits) :
    (p.apply x).datum = some (.integer (t.format.value x)) := by
  obtain ⟨source, k, make, h⟩ := p
  rcases widens_cases k.widens with ⟨t', r, ht, rfl⟩ | ⟨ht, -⟩ | ⟨ht, -⟩ | ⟨ht, -⟩ <;> cases ht
  rw [apply, make_integer h, k.apply_eq_convert]
  exact congrArg (fun i => some (Params.Datum.integer i)) (RttRos2.Lib.Format.value_cast (widens_int_iff.mp k.widens) x)

theorem ToParameter.apply_eq (p : ToParameter F A) (x : A.Value F) : p.apply x = parameterOf F A x := by
  rcases widens_cases p.chain.widens with ⟨t, r, rfl, -⟩ | ⟨rfl, hs⟩ | ⟨rfl, hs⟩ | ⟨rfl, hs⟩
  · exact integer_of_datum (p.datum x)
  all_goals
    obtain ⟨source, k, make, h⟩ := p
    cases hs
    cases h
    rw [apply, k.apply_eq_convert]
    rfl

/-! ## Who has one -/

theorem eq_uint64_of_within : ∀ r : IntType, IntType.uint64.format.Within r.format → r = .uint64 := by
  intro r
  cases r <;> decide +kernel

theorem not_uint64 (p : ToParameter F A) : A ≠ .int .uint64 := by
  rintro rfl
  obtain ⟨source, k, make, h⟩ := p
  rcases widens_cases k.widens with ⟨t, r, ht, rfl⟩ | ⟨ht, -⟩ | ⟨ht, -⟩ | ⟨ht, -⟩ <;> cases ht
  obtain rfl := eq_uint64_of_within r (widens_int_iff.mp k.widens)
  cases h

/-- A type with a constructor of its own, or one that is converted to `int64`. -/
theorem exists_toParameter (F : Floats) (h : A ≠ .int .uint64) : Nonempty (ToParameter F A) := by
  have own {B : CppType} {make : B.Value F → ParameterValue F.Double} (hm : parameterConstructor F B = some make) :
      Nonempty (ToParameter F B) := ⟨⟨B, .nil, make, hm⟩⟩
  have widened {r : IntType} (c : Automatic (.int r) (.int .int64)) : Nonempty (ToParameter F (.int r)) :=
    ⟨⟨.int .int64, .step .nil c, _, rfl⟩⟩
  cases A with
  | float | double => exact own rfl
  | int t =>
    cases t with
    | int32 | int64 => exact own rfl
    | int8 | uint8 | int16 | uint16 | uint32 => exact widened ⟨"int64", by decide⟩
    | uint64 => exact absurd rfl h

theorem parameters_exact (F : Floats) :
    (∀ A, Nonempty (ToParameter F A) ↔ A ≠ .int .uint64) ∧
    (∀ (A : CppType) (p q : ToParameter F A) (x : A.Value F), p.apply x = q.apply x) ∧
    (∀ (t : IntType) (p : ToParameter F (.int t)) (x : t.format.Bits),
      (p.apply x).datum = some (.integer (t.format.value x))) := by
  refine ⟨fun A => ⟨fun ⟨p⟩ => not_uint64 p, exists_toParameter F⟩, fun A p q x => ?_, fun t p x => p.datum x⟩
  rw [p.apply_eq, q.apply_eq]

end RttRos2.Typekit
