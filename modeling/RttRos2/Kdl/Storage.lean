/-
  RttRos2.Kdl.Storage — how KDL keeps the doubles of its values, where the transports
  reach for them.

  A vector has an array of three, a rotation one of nine. The data of joint arrays and
  Jacobians are Eigen matrices, whose coefficients are stored column after column. Each is
  a lens: the storage is read and overwritten as a whole.
-/

import RttRos2.Kdl.Kinfam
import RttRos2.Lib.Lens
import Mathlib.Data.Fin.VecNotation
import Mathlib.Logic.Equiv.Fin.Basic

namespace RttRos2.Kdl

open RttRos2.Lib

variable {D : Type}

/-- `Eigen::Matrix<D, R, C>`; a size that is `none` is `Dynamic`. -/
structure EigenMatrix (R C : Option Nat) (D : Type) where
  rows : Nat
  cols : Nat
  data : Fin (cols * rows) → D
  rows_eq : ∀ n ∈ R, rows = n
  cols_eq : ∀ n ∈ C, cols = n

/-- `Vector::data` -/
def Vector.data : Lens (Vector D) (Fin 3 → D) where
  get v := ![v.x, v.y, v.z]
  set _ a := ⟨a 0, a 1, a 2⟩
  get_set _ a := by funext i; match i with | 0 | 1 | 2 => rfl

/-- `Rotation::data` -/
def Rotation.data : Lens (Rotation D) (Fin 9 → D) where
  get r := ![r.Xx, r.Yx, r.Zx, r.Xy, r.Yy, r.Zy, r.Xz, r.Yz, r.Zz]
  set _ a := ⟨a 0, a 1, a 2, a 3, a 4, a 5, a 6, a 7, a 8⟩
  get_set _ a := by funext i; match i with | 0 | 1 | 2 | 3 | 4 | 5 | 6 | 7 | 8 => rfl

/-- `JntArray::data`, one column. -/
def JntArray.matrix : Lens (JntArray D) (EigenMatrix none (some 1) D) where
  get a := ⟨a.rows, 1, fun k => a.data (k.cast (Nat.one_mul _)), by simp, fun _ h => Option.some.inj h⟩
  set _ m := ⟨m.rows, fun i => m.data (i.cast (by rw [m.cols_eq 1 rfl, Nat.one_mul]))⟩
  get_set _ m := by
    obtain ⟨rows, cols, data, hr, hc⟩ := m
    obtain rfl : cols = 1 := hc 1 rfl
    rfl

/-- `Jacobian::data`, six rows. -/
def Jacobian.matrix : Lens (Jacobian D) (EigenMatrix (some 6) none D) where
  get J :=
    ⟨6, J.columns, fun k => J.data (finProdFinEquiv.symm k).swap, fun _ h => Option.some.inj h, by simp⟩
  set _ m := ⟨m.cols, fun ij => m.data (finProdFinEquiv (ij.2, ij.1.cast (m.rows_eq 6 rfl).symm))⟩
  get_set _ m := by
    obtain ⟨rows, cols, data, hr, hc⟩ := m
    obtain rfl : rows = 6 := hr 6 rfl
    congr
    funext k
    exact congrArg data (finProdFinEquiv.apply_symm_apply k)
  set_get J := congrArg (Jacobian.mk J.columns) (funext fun ij => congrArg (J.data ∘ Prod.swap)
    (finProdFinEquiv.symm_apply_apply ij.swap))

end RttRos2.Kdl
