/-
  RttRos2.Lib.Target — functions that fill in a target which they get by reference.

  Such a function takes the old value of the target, and returns whether it succeeded and
  the new value. `put x` writes `x` when there is one, and leaves the target alone when
  not. `both` fills in one part and then, when that worked, the other. `fillEach` is a loop
  that fills in an array, and stops at the first element it cannot read.
  - `Keeps`: where the function fails the target is what it was. `put` keeps it
    (`keeps_put`); `both` does unless a new first part is put and there is no second
    (`both_put_keeps_iff`).
  - `fillEach_eq_some_iff`: a loop over all indices ends well when every element can be
    read, and with these elements.
  - `readAll` reads a number of entries, one after the other, when all of them can be read
    (`readAll_eq_some_iff`).
-/

import Mathlib.Logic.Function.Basic

namespace RttRos2.Lib

variable {T A B : Type}

def put : Option T → T → Bool × T
  | some x, _ => (true, x)
  | none, t => (false, t)

@[simp] theorem put_some (x t : T) : put (some x) t = (true, x) := rfl

@[simp] theorem put_none (t : T) : put none t = (false, t) := rfl

theorem put_eq_true_iff {x : Option T} {t u : T} : put x t = (true, u) ↔ x = some u := by
  cases x <;> simp [eq_comm]

/-- Where `fill` fails, the target is left alone. -/
def Keeps (fill : T → Bool × T) (t : T) : Prop := (fill t).1 = false → (fill t).2 = t

theorem keeps_put (x : Option T) (t : T) : Keeps (put x) t := by
  intro h
  cases x with
  | none => rfl
  | some x => cases h

/-! ## Two parts -/

def both (mk : A → B → T) (first : A → Bool × A) (second : B → Bool × B) (a : A) (b : B) : Bool × T :=
  match first a with
  | (false, a) => (false, mk a b)
  | (true, a) => ((second b).1, mk a (second b).2)

variable {mk : A → B → T} {x : Option A} {y : Option B} {a : A} {b : B}

theorem both_put_eq_true_iff {t : T} :
    both mk (put x) (put y) a b = (true, t) ↔ ∃ v w, x = some v ∧ y = some w ∧ mk v w = t := by
  cases x <;> cases y <;> simp [both, put]

/-- A first part other than the old one stays when there is no second. -/
theorem both_put_keeps_iff (hmk : ∀ v, mk v b = mk a b → v = a) :
    ((both mk (put x) (put y) a b).1 = false → (both mk (put x) (put y) a b).2 = mk a b) ↔
      ¬ ((∃ v ∈ x, v ≠ a) ∧ y = none) := by
  cases x with
  | none => simp [both, put]
  | some v =>
    cases y with
    | none =>
      simp only [both, put, Option.mem_def, Option.some.injEq, exists_eq_left', and_true, not_not, true_implies]
      constructor
      · intro h
        exact hmk v h
      · rintro rfl
        rfl
    | some w => simp [both, put]

/-! ## An array -/

variable {I V : Type} [DecidableEq I]

/-- `for (i : is) { data(i) = read(i); }`, given up where `read` finds nothing. -/
def fillEach (read : I → Option V) : List I → (I → V) → Option (I → V)
  | [], data => some data
  | i :: is, data =>
    match read i with
    | none => none
    | some v => fillEach read is (Function.update data i v)

variable {read : I → Option V} {is : List I} {data out : I → V}

theorem fillEach_eq_some (h : fillEach read is data = some out) :
    (∀ i ∈ is, read i = some (out i)) ∧ ∀ i, i ∉ is → out i = data i := by
  induction is generalizing data with
  | nil => cases h; simp
  | cons i is ih =>
    simp only [fillEach] at h
    split at h
    · cases h
    · rename_i v hv
      obtain ⟨hin, hout⟩ := ih h
      refine ⟨?_, fun j hj => ?_⟩
      · intro j hj
        by_cases hmem : j ∈ is
        · exact hin j hmem
        · obtain rfl : j = i := (List.mem_cons.mp hj).resolve_right hmem
          rw [hout j hmem, Function.update_self, hv]
      · rw [List.mem_cons, not_or] at hj
        rw [hout j hj.2, Function.update_of_ne hj.1]

theorem exists_fillEach (data : I → V) (h : ∀ i ∈ is, (read i).isSome) : ∃ out, fillEach read is data = some out := by
  induction is generalizing data with
  | nil => exact ⟨data, rfl⟩
  | cons i is ih =>
    obtain ⟨v, hv⟩ := Option.isSome_iff_exists.mp (h i List.mem_cons_self)
    simp only [fillEach, hv]
    exact ih _ fun j hj => h j (List.mem_cons_of_mem _ hj)

/-- A loop over all indices. -/
theorem fillEach_eq_some_iff (hall : ∀ i, i ∈ is) : fillEach read is data = some out ↔ ∀ i, read i = some (out i) := by
  constructor
  · intro h i
    exact (fillEach_eq_some h).1 i (hall i)
  · intro h
    have hread : ∀ i ∈ is, (read i).isSome := by
      intro i _
      rw [h i]
      rfl
    obtain ⟨out', hout'⟩ := exists_fillEach data hread
    rw [hout']
    congr 1
    funext i
    exact Option.some.inj (((fillEach_eq_some hout').1 i (hall i)).symm.trans (h i))

theorem isSome_fillEach_iff (hall : ∀ i, i ∈ is) : (fillEach read is data).isSome ↔ ∀ i, (read i).isSome := by
  constructor
  · intro h i
    obtain ⟨out, hout⟩ := Option.isSome_iff_exists.mp h
    rw [(fillEach_eq_some_iff hall).mp hout i]
    rfl
  · intro h
    obtain ⟨out, hout⟩ := exists_fillEach data fun i (_ : i ∈ is) => h i
    rw [hout]
    rfl

/-! ## Entries by number -/

/-- `read(0)` to `read(n - 1)`. -/
def readAll : {n : Nat} → (Fin n → Option V) → Option (Fin n → V)
  | 0, _ => some Fin.elim0
  | n + 1, read => do
    let first ← read ⟨0, n.succ_pos⟩
    let rest ← readAll fun i => read i.succ
    return Fin.cases first rest

theorem readAll_eq_some_iff {n : Nat} {read : Fin n → Option V} {out : Fin n → V} :
    readAll read = some out ↔ ∀ i, read i = some (out i) := by
  induction n with
  | zero =>
    refine iff_of_true ?_ fun i => i.elim0
    exact congrArg some (funext fun i => i.elim0)
  | succ n ih =>
    simp only [readAll, Option.bind_eq_bind, Option.bind_eq_some_iff]
    constructor
    · rintro ⟨first, hfirst, rest, hrest, hout⟩ i
      cases hout
      cases i using Fin.cases with
      | zero => exact hfirst
      | succ i => exact ih.mp hrest i
    · intro h
      refine ⟨out 0, h 0, fun i => out i.succ, ih.mpr fun i => h i.succ, congrArg some (funext fun i => ?_)⟩
      cases i using Fin.cases <;> rfl

theorem isSome_readAll_iff {n : Nat} {read : Fin n → Option V} : (readAll read).isSome ↔ ∀ i, (read i).isSome := by
  constructor
  · intro h i
    obtain ⟨out, hout⟩ := Option.isSome_iff_exists.mp h
    rw [readAll_eq_some_iff.mp hout i]
    rfl
  · intro h
    have hread : readAll read = some fun i => (read i).get (h i) :=
      readAll_eq_some_iff.mpr fun i => (Option.some_get (h i)).symm
    rw [hread]
    rfl

end RttRos2.Lib
