/-
  RttRos2.Kdl.Arrays — the round trip of joint arrays and Jacobians through a property bag.

  A Jacobian is written row by row, so its element (i, j) is the item number
  `columns * i + j`, which is where it is looked for (`getElem?_indices`). The number of
  columns is found again from the number of items.
-/

import RttRos2.Kdl.Reading
import Mathlib.Logic.Equiv.Fin.Basic
import Mathlib.Data.List.OfFn

namespace RttRos2.Kdl

open RttRos2.Lib

variable {D : Type}

/-- A double is read. -/
theorem bind_composeElement [Zero D] {items : List (Property (Value D))} {k : Nat} {name description : String} {d : D}
    (h : items[k]? = some ⟨name, description, .double d⟩) : (items[k]?).bind composeElement = some d := by
  rw [h]
  rfl

/-! ## Joint array -/

namespace JntArray

theorem cast_eq (a : JntArray D) {n : Nat} (h : n = a.rows) : ⟨n, fun i => a.data (i.cast h)⟩ = a := by
  obtain ⟨rows, data⟩ := a
  change n = rows at h
  subst h
  rfl

/-- The items that are written. -/
def items (a : JntArray D) : List (Property (Value D)) :=
  (List.finRange a.rows).map fun i => ⟨"Element" ++ toString i.val, "JntArray element", .double (a.data i)⟩

theorem decomposeProperty_empty (a : JntArray D) :
    a.decomposeProperty PropertyBag.empty = ⟨"KDL.JntArray", a.items⟩ :=
  PropertyBag.foldl_add ..

theorem length_items (a : JntArray D) : a.items.length = a.rows := by
  simp [items]

theorem getElem?_items (a : JntArray D) (i : Fin a.rows) :
    a.items[i.val]? = some ⟨"Element" ++ toString i.val, "JntArray element", .double (a.data i)⟩ := by
  simp [items]

theorem composeProperty_decomposeProperty [Zero D] (a target : JntArray D) :
    composeProperty (a.decomposeProperty PropertyBag.empty) target = (true, a) := by
  have helement : ∀ i, element ⟨"KDL.JntArray", a.items⟩ i = some (a.data (i.cast a.length_items)) :=
    fun i => bind_composeElement (a.getElem?_items (i.cast a.length_items))
  rw [decomposeProperty_empty, composeProperty_eq_put, composed, if_pos rfl,
    (fillEach_eq_some_iff fun i => List.mem_finRange i).mpr helement]
  exact congrArg (Prod.mk true) (cast_eq a a.length_items)

end JntArray

/-! ## Jacobian -/

namespace Jacobian

variable {n : Nat}

theorem mem_indices (ij : Fin 6 × Fin n) : ij ∈ indices n := by
  simp [indices]

/-- Row-major. -/
theorem indices_eq (n : Nat) : indices n = List.ofFn (finProdFinEquiv (m := 6) (n := n)).symm := by
  have hij : ∀ (i : Fin 6) (j : Fin n) h, finProdFinEquiv.symm ⟨i.val * n + j.val, h⟩ = (i, j) := by
    intro i j h
    rw [Equiv.symm_apply_eq]
    refine Fin.ext ?_
    show i.val * n + j.val = j.val + n * i.val
    rw [Nat.mul_comm, Nat.add_comm]
  rw [List.ofFn_mul]
  simp only [hij, indices, List.flatMap, List.finRange, List.map_ofFn]
  rfl

theorem length_indices (n : Nat) : (indices n).length = 6 * n := by
  rw [indices_eq, List.length_ofFn]

theorem getElem?_indices (ij : Fin 6 × Fin n) : (indices n)[n * ij.1.val + ij.2.val]? = some ij := by
  have hk : n * ij.1.val + ij.2.val = (finProdFinEquiv ij).val := Nat.add_comm ..
  rw [hk, indices_eq, List.getElem?_ofFn, dif_pos (finProdFinEquiv ij).isLt]
  exact congrArg some (finProdFinEquiv.symm_apply_apply ij)

theorem cast_eq (J : Jacobian D) (h : n = J.columns) : ⟨n, fun ij => J.data (ij.1, ij.2.cast h)⟩ = J := by
  obtain ⟨columns, data⟩ := J
  change n = columns at h
  subst h
  rfl

def items (J : Jacobian D) : List (Property (Value D)) :=
  (indices J.columns).map fun ij =>
    ⟨"Element (" ++ toString ij.1.val ++ "," ++ toString ij.2.val ++ ")", "Jacobian element", .double (J.data ij)⟩

theorem decomposeProperty_empty (J : Jacobian D) :
    J.decomposeProperty PropertyBag.empty = ⟨"KDL.Jacobian", J.items⟩ :=
  PropertyBag.foldl_add ..

theorem columns_items (J : Jacobian D) : J.items.length / 6 = J.columns := by
  simp [items, length_indices]

theorem getElem?_items (J : Jacobian D) (ij : Fin 6 × Fin J.columns) :
    J.items[J.columns * ij.1.val + ij.2.val]? =
      some ⟨"Element (" ++ toString ij.1.val ++ "," ++ toString ij.2.val ++ ")", "Jacobian element",
        .double (J.data ij)⟩ := by
  rw [items, List.getElem?_map, getElem?_indices]
  rfl

theorem composeProperty_decomposeProperty [Zero D] (J target : Jacobian D) :
    composeProperty (J.decomposeProperty PropertyBag.empty) target = (true, J) := by
  have helement : ∀ ij, element ⟨"KDL.Jacobian", J.items⟩ ij = some (J.data (ij.1, ij.2.cast J.columns_items)) := by
    intro ij
    have hindex : element ⟨"KDL.Jacobian", J.items⟩ ij =
        (J.items[J.columns * ij.1.val + ij.2.val]?).bind composeElement := by
      simp only [element, columns_items]
    rw [hindex]
    exact bind_composeElement (J.getElem?_items (ij.1, ij.2.cast J.columns_items))
  rw [decomposeProperty_empty, composeProperty_eq_put, composed, if_pos rfl,
    (fillEach_eq_some_iff fun ij => mem_indices ij).mpr helement]
  exact congrArg (Prod.mk true) (cast_eq J J.columns_items)

end Jacobian

/-- Every joint array and every Jacobian is read back from what is written into an empty bag. -/
theorem array_round_trips (D : Type) [Zero D] :
    (∀ a target : JntArray D, JntArray.composeProperty (a.decomposeProperty PropertyBag.empty) target = (true, a)) ∧
    ∀ J target : Jacobian D, Jacobian.composeProperty (J.decomposeProperty PropertyBag.empty) target = (true, J) :=
  ⟨JntArray.composeProperty_decomposeProperty, Jacobian.composeProperty_decomposeProperty⟩

end RttRos2.Kdl
