/-
  RttRos2.Lib.Integer — fixed-width integer types and the casts between them.

  A format is a width and whether the integers are signed, in two's complement. A cast
  keeps the integer modulo two to the width it goes to.
  - `value_bounds`, `value_ofInt`: a format has the integers from `lo` to `hi`, each once.
  - `Within`: every integer of one format is one of the other's.
  - `value_cast`, `cast_cast`: a cast into a format the integers are within keeps them, so a
    cast from there is one from the start.
  - `within_iff`: and only such a cast keeps all of them.
-/

import Mathlib.Algebra.Ring.Int.Defs
import Mathlib.Algebra.Ring.Nat

namespace RttRos2.Lib

structure Format where
  signed : Bool
  width : Nat
  pos : 0 < width

namespace Format

variable (f g : Format)

/-- The least integer of the format. -/
def lo : Int := if f.signed then -((2 ^ (f.width - 1) : Nat) : Int) else 0

/-- The greatest integer of the format. -/
def hi : Int := if f.signed then ((2 ^ (f.width - 1) : Nat) : Int) - 1 else ((2 ^ f.width : Nat) : Int) - 1

abbrev Bits : Type := BitVec f.width

/-- The integer that the bits stand for. -/
def value (x : f.Bits) : Int := if f.signed then x.toInt else x.toNat

/-- The integer modulo two to the width. -/
def ofInt (n : Int) : f.Bits := BitVec.ofInt f.width n

def cast (x : f.Bits) : g.Bits := g.ofInt (f.value x)

/-- Every integer of `f` is an integer of `g`. -/
def Within : Prop := g.lo ≤ f.lo ∧ f.hi ≤ g.hi

instance : Decidable (Within f g) := inferInstanceAs (Decidable (_ ∧ _))

variable {f g}

/-! ## The integers of a format -/

theorem lo_le_hi : f.lo ≤ f.hi := by
  have h : 0 < 2 ^ (f.width - 1) := Nat.two_pow_pos _
  have h' : 0 < 2 ^ f.width := Nat.two_pow_pos _
  simp only [lo, hi]
  split <;> omega

theorem value_bounds (x : f.Bits) : f.lo ≤ f.value x ∧ f.value x ≤ f.hi := by
  simp only [lo, hi, value]
  split
  · have hl := BitVec.le_toInt x
    have hu := BitVec.toInt_lt (x := x)
    push_cast
    omega
  · have hu := x.isLt
    omega

theorem value_ofInt {n : Int} (hl : f.lo ≤ n) (hu : n ≤ f.hi) : f.value (f.ofInt n) = n := by
  simp only [lo, hi, value, ofInt] at *
  split
  · rename_i hs
    rw [if_pos hs] at hl hu
    push_cast at hl hu
    exact BitVec.toInt_ofInt_eq_self f.pos hl (by omega)
  · rename_i hs
    rw [if_neg hs] at hl hu
    rw [BitVec.toNat_ofInt, Int.emod_eq_of_lt hl (by omega)]
    exact Int.toNat_of_nonneg hl

theorem value_injective {x y : f.Bits} (h : f.value x = f.value y) : x = y := by
  simp only [value] at h
  split at h
  · exact BitVec.eq_of_toInt_eq h
  · exact BitVec.eq_of_toNat_eq (by omega)

/-! ## Casts -/

theorem value_cast (h : Within f g) (x : f.Bits) : g.value (f.cast g x) = f.value x := by
  have hx := value_bounds x
  exact value_ofInt (by have := h.1; omega) (by have := h.2; omega)

/-- A cast that goes through a format the integers are within is the one cast. -/
theorem cast_cast (h : Within f g) (k : Format) (x : f.Bits) : g.cast k (f.cast g x) = f.cast k x := by
  simp only [cast, ofInt]
  exact congrArg (BitVec.ofInt k.width) (value_cast h x)

theorem cast_self (x : f.Bits) : f.cast f x = x :=
  value_injective (value_cast ⟨Int.le_refl _, Int.le_refl _⟩ x)

theorem Within.trans {k : Format} (h : Within f g) (h' : Within g k) : Within f k :=
  ⟨Int.le_trans h'.1 h.1, Int.le_trans h.2 h'.2⟩

/-- A cast keeps every integer if and only if the target has them all. -/
theorem within_iff : Within f g ↔ ∀ x, g.value (f.cast g x) = f.value x := by
  constructor
  · exact value_cast
  · intro h
    -- the two ends of the range are kept, so they are within the other's
    have hlo := value_bounds (f.cast g (f.ofInt f.lo))
    have hhi := value_bounds (f.cast g (f.ofInt f.hi))
    rw [h, value_ofInt (Int.le_refl _) lo_le_hi] at hlo
    rw [h, value_ofInt lo_le_hi (Int.le_refl _)] at hhi
    exact ⟨hlo.1, hhi.2⟩

end Format

end RttRos2.Lib
