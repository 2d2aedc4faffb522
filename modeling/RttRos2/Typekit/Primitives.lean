/-
  RttRos2.Typekit.Primitives — the conversions between numbers that the primitives
  typekit registers (ros2_primitives_typekit.cpp).

  `newConstructor(&convert<T, R>, automatic)`, added to the type named, lets RTT make an
  `R` of a `T`: with `automatic`, without being asked, and one after the other. `convert`
  is a `static_cast`; between integers it keeps the value modulo two to the width. Floating
  point comes in as `Floats`. The two constructors that make a string of a size convert
  nothing and are left out.

  - `automatic_iff`: the flag is set on the conversions that widen, integer to integer or
    float to double, and on no other; between integers, `automatic_iff_lossless`, on the
    conversions that keep every value.
  - `Chain.apply_eq_convert`: a chain of automatic conversions, of any length, is the one
    `static_cast` from its first type to its last.
  - `automatic_chains_coherent`: between integers it keeps the value, whichever way it
    goes, and no chain leads back to a type it has left.
-/

import RttRos2.Lib.Integer

namespace RttRos2.Typekit

open RttRos2.Lib

inductive IntType where
  | int8
  | uint8
  | int16
  | uint16
  | int32
  | uint32
  | int64
  | uint64
  deriving DecidableEq, Repr

abbrev IntType.format : IntType → Format
  | .int8 => ⟨true, 8, by decide⟩
  | .uint8 => ⟨false, 8, by decide⟩
  | .int16 => ⟨true, 16, by decide⟩
  | .uint16 => ⟨false, 16, by decide⟩
  | .int32 => ⟨true, 32, by decide⟩
  | .uint32 => ⟨false, 32, by decide⟩
  | .int64 => ⟨true, 64, by decide⟩
  | .uint64 => ⟨false, 64, by decide⟩

inductive CppType where
  | float
  | double
  | int (t : IntType)
  deriving DecidableEq, Repr

/-- The name of the type among RTT's types. -/
def CppType.name : CppType → String
  | .float => "float"
  | .double => "double"
  | .int .int8 => "int8"
  | .int .uint8 => "uint8"
  | .int .int16 => "int16"
  | .int .uint16 => "uint16"
  | .int .int32 => "int32"
  | .int .uint32 => "uint32"
  | .int .int64 => "int64"
  | .int .uint64 => "uint64"

/-- Floating point: its two types and the casts between them and the integers. -/
structure Floats where
  Float : Type
  Double : Type
  floatOfInt : Int → Float
  doubleOfInt : Int → Double
  truncFloat : Float → Int
  truncDouble : Double → Int
  narrow : Double → Float
  widen : Float → Double

variable (F : Floats)

abbrev CppType.Value : CppType → Type
  | .float => F.Float
  | .double => F.Double
  | .int t => t.format.Bits

/-- `static_cast<R>(t)` -/
def convert : (T R : CppType) → T.Value F → R.Value F
  | .int t, .int r => t.format.cast r.format
  | .int t, .float => fun x => F.floatOfInt (t.format.value x)
  | .int t, .double => fun x => F.doubleOfInt (t.format.value x)
  | .float, .int r => fun x => r.format.ofInt (F.truncFloat x)
  | .double, .int r => fun x => r.format.ofInt (F.truncDouble x)
  | .float, .float => id
  | .float, .double => F.widen
  | .double, .float => F.narrow
  | .double, .double => id

/-- `ti->type(type)->addConstructor(newConstructor(&convert<source, result>, automatic))` -/
structure Constructor where
  type : String
  source : CppType
  result : CppType
  automatic : Bool
  deriving DecidableEq, Repr

def loadConstructors : List Constructor :=
  [ ⟨"float", .double, .float, false⟩,
    ⟨"float", .int .int8, .float, false⟩,
    ⟨"float", .int .int16, .float, false⟩,
    ⟨"float", .int .int32, .float, false⟩,
    ⟨"float", .int .int64, .float, false⟩,
    ⟨"float", .int .uint8, .float, false⟩,
    ⟨"float", .int .uint16, .float, false⟩,
    ⟨"float", .int .uint32, .float, false⟩,
    ⟨"float", .int .uint64, .float, false⟩,
    ⟨"double", .float, .double, true⟩,
    ⟨"double", .int .int8, .double, false⟩,
    ⟨"double", .int .int16, .double, false⟩,
    ⟨"double", .int .int32, .double, false⟩,
    ⟨"double", .int .int64, .double, false⟩,
    ⟨"double", .int .uint8, .double, false⟩,
    ⟨"double", .int .uint16, .double, false⟩,
    ⟨"double", .int .uint32, .double, false⟩,
    ⟨"double", .int .uint64, .double, false⟩,
    ⟨"int8", .int .int16, .int .int8, false⟩,
    ⟨"int8", .int .int32, .int .int8, false⟩,
    ⟨"int8", .int .int64, .int .int8, false⟩,
    ⟨"int8", .int .uint8, .int .int8, false⟩,
    ⟨"int8", .int .uint16, .int .int8, false⟩,
    ⟨"int8", .int .uint32, .int .int8, false⟩,
    ⟨"int8", .int .uint64, .int .int8, false⟩,
    ⟨"uint8", .int .int8, .int .uint8, false⟩,
    ⟨"uint8", .int .int16, .int .uint8, false⟩,
    ⟨"uint8", .int .int32, .int .uint8, false⟩,
    ⟨"uint8", .int .int64, .int .uint8, false⟩,
    ⟨"uint8", .int .uint16, .int .uint8, false⟩,
    ⟨"uint8", .int .uint32, .int .uint8, false⟩,
    ⟨"uint8", .int .uint64, .int .uint8, false⟩,
    ⟨"int16", .int .uint8, .int .int16, true⟩,
    ⟨"int16", .int .uint16, .int .int16, false⟩,
    ⟨"int16", .int .uint32, .int .int16, false⟩,
    ⟨"int16", .int .uint64, .int .int16, false⟩,
    ⟨"int16", .int .int8, .int .int16, true⟩,
    ⟨"int16", .int .int32, .int .int16, false⟩,
    ⟨"int16", .int .int64, .int .int16, false⟩,
    ⟨"uint16", .int .int8, .int .uint16, false⟩,
    ⟨"uint16", .int .int16, .int .uint16, false⟩,
    ⟨"uint16", .int .int32, .int .uint16, false⟩,
    ⟨"uint16", .int .int64, .int .uint16, false⟩,
    ⟨"uint16", .int .uint8, .int .uint16, true⟩,
    ⟨"uint16", .int .uint32, .int .uint16, false⟩,
    ⟨"uint16", .int .uint64, .int .uint16, false⟩,
    ⟨"int32", .int .uint8, .int .int32, true⟩,
    ⟨"int32", .int .uint16, .int .int32, true⟩,
    ⟨"int32", .int .uint32, .int .int32, false⟩,
    ⟨"int32", .int .uint64, .int .int32, false⟩,
    ⟨"int32", .int .int8, .int .int32, true⟩,
    ⟨"int32", .int .int16, .int .int32, true⟩,
    ⟨"int32", .int .int64, .int .int32, false⟩,
    ⟨"uint32", .int .int8, .int .uint32, false⟩,
    ⟨"uint32", .int .int16, .int .uint32, false⟩,
    ⟨"uint32", .int .int32, .int .uint32, false⟩,
    ⟨"uint32", .int .int64, .int .uint32, false⟩,
    ⟨"uint32", .int .uint8, .int .uint32, true⟩,
    ⟨"uint32", .int .uint16, .int .uint32, true⟩,
    ⟨"uint32", .int .uint64, .int .uint32, false⟩,
    ⟨"int64", .int .uint8, .int .int64, true⟩,
    ⟨"int64", .int .uint16, .int .int64, true⟩,
    ⟨"int64", .int .uint32, .int .int64, true⟩,
    ⟨"int64", .int .uint64, .int .int64, false⟩,
    ⟨"int64", .int .int8, .int .int64, true⟩,
    ⟨"int64", .int .int16, .int .int64, true⟩,
    ⟨"int64", .int .int32, .int .int64, true⟩,
    ⟨"uint64", .int .int8, .int .uint64, false⟩,
    ⟨"uint64", .int .int16, .int .uint64, false⟩,
    ⟨"uint64", .int .int32, .int .uint64, false⟩,
    ⟨"uint64", .int .int64, .int .uint64, false⟩,
    ⟨"uint64", .int .uint8, .int .uint64, true⟩,
    ⟨"uint64", .int .uint16, .int .uint64, true⟩,
    ⟨"uint64", .int .uint32, .int .uint64, true⟩ ]

/-! ## The flags -/

/-- Every value of the first type is a value of the second, of the same kind. -/
inductive Widens : CppType → CppType → Prop
  | int {t r : IntType} : t.format.Within r.format → Widens (.int t) (.int r)
  | float : Widens .float .float
  | double : Widens .double .double
  | floatToDouble : Widens .float .double

theorem widens_int_iff {t r : IntType} : Widens (.int t) (.int r) ↔ t.format.Within r.format := by
  constructor
  · intro h
    cases h with
    | int h => exact h
  · exact .int

instance : (A B : CppType) → Decidable (Widens A B)
  | .int t, .int r => decidable_of_iff _ widens_int_iff.symm
  | .float, .float => .isTrue .float
  | .double, .double => .isTrue .double
  | .float, .double => .isTrue .floatToDouble
  | .double, .float => .isFalse (fun h => by cases h)
  | .int _, .float => .isFalse (fun h => by cases h)
  | .int _, .double => .isFalse (fun h => by cases h)
  | .float, .int _ => .isFalse (fun h => by cases h)
  | .double, .int _ => .isFalse (fun h => by cases h)

/-- A conversion is automatic if and only if it widens. -/
theorem automatic_iff : ∀ c ∈ loadConstructors, c.automatic = true ↔ Widens c.source c.result := by
  decide +kernel

/-- A constructor is added to the type it makes. -/
theorem type_eq_name : ∀ c ∈ loadConstructors, c.type = c.result.name := by decide +kernel

variable {A B C : CppType}

theorem Widens.refl (A : CppType) : Widens A A := by
  cases A with
  | float => exact .float
  | double => exact .double
  | int t => exact .int ⟨Int.le_refl _, Int.le_refl _⟩

theorem Widens.trans (h : Widens A B) (h' : Widens B C) : Widens A C := by
  cases h with
  | float => exact h'
  | double => exact h'
  | floatToDouble => cases h'; exact .floatToDouble
  | int h =>
    cases h' with
    | int h' => exact .int (h.trans h')

theorem IntType.eq_of_within (t r : IntType) :
    t.format.Within r.format → r.format.Within t.format → t = r := by
  cases t <;> cases r <;> decide +kernel

theorem Widens.antisymm (h : Widens A B) (h' : Widens B A) : A = B := by
  cases h with
  | float => rfl
  | double => rfl
  | floatToDouble => cases h'
  | int h =>
    cases h' with
    | int h' => rw [IntType.eq_of_within _ _ h h']

variable {F}

theorem convert_self (A : CppType) (x : A.Value F) : convert F A A x = x := by
  cases A with
  | float => rfl
  | double => rfl
  | int t => exact Format.cast_self x

theorem convert_convert (h : Widens A B) (h' : Widens B C) (x : A.Value F) :
    convert F B C (convert F A B x) = convert F A C x := by
  cases h with
  | float => rfl
  | double => rfl
  | floatToDouble => cases h'; rfl
  | int h =>
    cases h' with
    | int _ => exact Format.cast_cast h _ x

/-- A conversion between integers is automatic if and only if it keeps every value. -/
theorem automatic_iff_lossless (F : Floats) {type : String} {t r : IntType} {automatic : Bool}
    (h : ⟨type, .int t, .int r, automatic⟩ ∈ loadConstructors) : automatic = true ↔
      ∀ x : t.format.Bits, r.format.value (convert F (.int t) (.int r) x) = t.format.value x :=
  (automatic_iff _ h).trans (widens_int_iff.trans Format.within_iff)

/-! ## Chains -/

/-- An automatic conversion that is registered. -/
structure Automatic (A B : CppType) where
  type : String
  mem : ⟨type, A, B, true⟩ ∈ loadConstructors

theorem Automatic.widens (c : Automatic A B) : Widens A B := (automatic_iff _ c.mem).mp rfl

/-- Automatic conversions, one after the other. -/
inductive Chain (A : CppType) : CppType → Type
  | nil : Chain A A
  | step {B C : CppType} (k : Chain A B) (c : Automatic B C) : Chain A C

namespace Chain

variable (F) in
def apply {B : CppType} : Chain A B → A.Value F → B.Value F
  | nil, x => x
  | step (B := B) (C := C) k _, x => convert F B C (k.apply x)

theorem widens (k : Chain A B) : Widens A B := by
  induction k with
  | nil => exact .refl A
  | step k c ih => exact ih.trans c.widens

/-- A chain does what the one cast does. -/
theorem apply_eq_convert (k : Chain A B) (x : A.Value F) : k.apply F x = convert F A B x := by
  induction k with
  | nil => exact (convert_self A x).symm
  | step k c ih => rw [apply, ih, convert_convert k.widens c.widens]

end Chain

/-- Automatic conversions between integers keep the value; two chains between the same types
agree, and chains that go there and back stay where they are. -/
theorem automatic_chains_coherent (F : Floats) :
    (∀ (t r : IntType) (k : Chain (.int t) (.int r)) (x : t.format.Bits),
      r.format.value (k.apply F x) = t.format.value x) ∧
    (∀ (A B : CppType) (k l : Chain A B) (x : A.Value F), k.apply F x = l.apply F x) ∧
    (∀ A B : CppType, Chain A B → Chain B A → A = B) := by
  refine ⟨fun t r k x => ?_, fun A B k l x => ?_, fun A B k l => ?_⟩
  · rw [k.apply_eq_convert]
    exact Format.value_cast (widens_int_iff.mp k.widens) x
  · rw [k.apply_eq_convert, l.apply_eq_convert]
  · exact k.widens.antisymm l.widens

/-- A chain of two conversions, from `uint8` through `int16`. -/
example : Chain (.int .uint8) (.int .int64) :=
  have c : Automatic (.int .uint8) (.int .int16) := ⟨"int16", by decide⟩
  .step (.step .nil c) ⟨"int64", by decide⟩

end RttRos2.Typekit
