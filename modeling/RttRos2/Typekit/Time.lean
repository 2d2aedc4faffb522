/-
  RttRos2.Typekit.Time — `rmw_time_t` and nanoseconds in 64 bits
  (`rmw_time_t_to_uint64` and `uint64_to_rmw_time_t` of time_conversions.hpp).

  Seconds and nanoseconds are 64-bit fields; nothing keeps the nanoseconds below a second.
  The arithmetic is modulo 2^64, so the way to an integer is exact if and only if the time,
  in nanoseconds (`total`), fits in 64 bits (`rmw_time_exact_iff`).
-/

import Mathlib.Algebra.Ring.Nat

namespace RttRos2.Typekit

/-- `rmw_time_t` -/
structure RmwTimeT where
  sec : UInt64
  nsec : UInt64
  deriving DecidableEq, Repr

def rmwTimeTToUint64 (t : RmwTimeT) : UInt64 := t.sec * 1000000000 + t.nsec

def uint64ToRmwTimeT (d : UInt64) : RmwTimeT where
  sec := d / 1000000000
  nsec := d % 1000000000

namespace RmwTimeT

/-- The time in nanoseconds. -/
def total (t : RmwTimeT) : Nat := t.sec.toNat * 1000000000 + t.nsec.toNat

/-- The nanoseconds are less than a second. -/
def Normal (t : RmwTimeT) : Prop := t.nsec.toNat < 1000000000

/-- `n` is the time `t` with the nanoseconds below a second. -/
def NormalFormOf (n t : RmwTimeT) : Prop := n.total = t.total ∧ n.Normal

/-- Two normal times of the same length are the same. -/
theorem eq_of_total {t u : RmwTimeT} (ht : t.Normal) (hu : u.Normal) (h : t.total = u.total) : t = u := by
  cases t with
  | mk sec nsec =>
    cases u with
    | mk sec' nsec' =>
      simp only [total, Normal] at *
      have hs : sec = sec' := UInt64.toNat_inj.mp (by omega)
      have hn : nsec = nsec' := UInt64.toNat_inj.mp (by omega)
      rw [hs, hn]

end RmwTimeT

/-! ## The conversions in terms of the total -/

theorem toNat_rmwTimeTToUint64 (t : RmwTimeT) : (rmwTimeTToUint64 t).toNat = t.total % 2 ^ 64 := by
  simp [rmwTimeTToUint64, RmwTimeT.total]

theorem total_uint64ToRmwTimeT (d : UInt64) : (uint64ToRmwTimeT d).total = d.toNat := by
  have h := Nat.div_add_mod d.toNat 1000000000
  simp only [uint64ToRmwTimeT, RmwTimeT.total, UInt64.toNat_div, UInt64.toNat_mod, UInt64.reduceToNat]
  omega

theorem normal_uint64ToRmwTimeT (d : UInt64) : (uint64ToRmwTimeT d).Normal := by
  simp only [uint64ToRmwTimeT, RmwTimeT.Normal, UInt64.toNat_mod, UInt64.reduceToNat]
  omega

theorem rmwTimeTToUint64_uint64ToRmwTimeT (d : UInt64) : rmwTimeTToUint64 (uint64ToRmwTimeT d) = d := by
  apply UInt64.toNat_inj.mp
  rw [toNat_rmwTimeTToUint64, total_uint64ToRmwTimeT]
  exact Nat.mod_eq_of_lt d.toNat_lt

/-- Going to an integer and back keeps the total if and only if it fits. -/
theorem total_round_trip_iff (t : RmwTimeT) :
    (uint64ToRmwTimeT (rmwTimeTToUint64 t)).total = t.total ↔ t.total < 2 ^ 64 := by
  rw [total_uint64ToRmwTimeT, toNat_rmwTimeTToUint64]
  constructor
  · intro h
    rw [← h]
    exact Nat.mod_lt _ (by decide)
  · exact Nat.mod_eq_of_lt

/-- A time is given back as it is if and only if it is normal and its total fits. -/
theorem round_trip_iff (t : RmwTimeT) :
    uint64ToRmwTimeT (rmwTimeTToUint64 t) = t ↔ t.Normal ∧ t.total < 2 ^ 64 := by
  constructor
  · intro h
    refine ⟨?_, (total_round_trip_iff t).mp (by rw [h])⟩
    rw [← h]
    exact normal_uint64ToRmwTimeT _
  · intro ⟨hn, ht⟩
    exact RmwTimeT.eq_of_total (normal_uint64ToRmwTimeT _) hn ((total_round_trip_iff t).mpr ht)

theorem rmwTimeTToUint64_lt_iff {t u : RmwTimeT} (ht : t.total < 2 ^ 64) (hu : u.total < 2 ^ 64) :
    rmwTimeTToUint64 t < rmwTimeTToUint64 u ↔ t.total < u.total := by
  rw [UInt64.lt_iff_toNat_lt, toNat_rmwTimeTToUint64, toNat_rmwTimeTToUint64, Nat.mod_eq_of_lt ht,
    Nat.mod_eq_of_lt hu]

/-- Integers survive the way through a time; a time survives the way through an integer, but for
its form, if and only if its total fits; the times that fit keep their order. -/
theorem rmw_time_exact_iff :
    (∀ d, (uint64ToRmwTimeT d).Normal ∧ rmwTimeTToUint64 (uint64ToRmwTimeT d) = d) ∧
    (∀ t, (uint64ToRmwTimeT (rmwTimeTToUint64 t)).NormalFormOf t ↔ t.total < 2 ^ 64) ∧
    (∀ t u, t.total < 2 ^ 64 → u.total < 2 ^ 64 →
      (rmwTimeTToUint64 t < rmwTimeTToUint64 u ↔ t.total < u.total)) := by
  refine ⟨fun d => ⟨normal_uint64ToRmwTimeT d, rmwTimeTToUint64_uint64ToRmwTimeT d⟩, fun t => ?_,
    fun t u => rmwTimeTToUint64_lt_iff⟩
  exact (and_iff_left (normal_uint64ToRmwTimeT _)).trans (total_round_trip_iff t)

/-- Two times that fit, the later in the last nanosecond there is, keep their order; the
nanosecond after it does not come back. -/
theorem rmw_time_exact_iff_at_the_edge :
    rmwTimeTToUint64 ⟨18446744073, 0⟩ < rmwTimeTToUint64 ⟨18446744072, 1709551615⟩ ∧
      ¬(uint64ToRmwTimeT (rmwTimeTToUint64 ⟨18446744072, 1709551616⟩)).NormalFormOf
        ⟨18446744072, 1709551616⟩ :=
  ⟨(rmw_time_exact_iff.2.2 ⟨18446744073, 0⟩ ⟨18446744072, 1709551615⟩ (by decide) (by decide)).mpr (by decide),
    fun h => absurd ((rmw_time_exact_iff.2.1 _).mp h) (by decide)⟩

end RttRos2.Typekit
