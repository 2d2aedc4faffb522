/-
  RttRos2.Kdl.Corba — KDL values as sequences of doubles over CORBA
  (CorbaKDLConversion.hpp).

  `toCorbaType` makes the sequence, `toStdType` fills a value in from one, and `update`
  does so from an `Any`, which may hold no sequence of doubles at all. The geometric types
  are their entries one after the other, a joint array its elements; a Jacobian has its
  rows and columns in front, as doubles. `none` is undefined behaviour: an entry at or
  past the length of the sequence, a map of other sizes than what is assigned to or from
  it, a double that is no size. The casts between sizes and doubles are a parameter.

  - `update_toCorbaType_iff`: a value arrives unchanged, whatever the target held before,
    if and only if the length of its sequence is an `ULong`.
  - `update_defined_iff`: reading is defined if and only if the sequence has the entries
    that are read, which nothing but the two of a Jacobian's sizes is checked for.
  - `update_reads`: a successful update brings the sizes and the coefficients that the
    sequence has, and one that reports failure changes nothing.
-/

import RttRos2.Kdl.Arrays
import RttRos2.Kdl.Storage
import Mathlib.Algebra.Ring.Nat

namespace RttRos2.Kdl.Corba

open RttRos2.Lib

variable {D : Type}

/-- `static_cast` between `size_t` and `double`; a double that is no size has no value there. -/
structure Casts (D : Type) where
  ofSize : Nat → D
  toSize : D → Option Nat
  toSize_ofSize : ∀ n ≤ 2 ^ 53, toSize (ofSize n) = some n

/-- Numbers that are all sizes. -/
def natCasts : Casts Nat := ⟨id, some, fun _ _ => rfl⟩

abbrev DoubleSequence (D : Type) := List D

/-- `(CORBA::ULong) n` -/
def uLong (n : Nat) : Nat := n % 2 ^ 32

/-! ## The geometric types -/

/-- The entries that a lens names, one after the other. -/
def entriesToAny {T : Type} {n : Nat} (entries : Lens T (Fin n → D)) (orig : T) : DoubleSequence D :=
  List.ofFn (entries.get orig)

/-- `cb[k]` to `cb[k + n - 1]`, one after the other. -/
def entriesFrom (k : Nat) (cb : DoubleSequence D) (n : Nat) : Option (Fin n → D) :=
  readAll fun i : Fin n => cb[k + i.val]?

def entriesToStdType {T : Type} {n : Nat} (entries : Lens T (Fin n → D)) (tp : T) (cb : DoubleSequence D) :
    Option (Bool × T) := do
  let a ← entriesFrom 0 cb n
  return (true, entries.set tp a)

/-- x, y, z of the force, then of the torque. -/
def Wrench.entries : Lens (Wrench D) (Fin 6 → D) where
  get w := ![w.force.x, w.force.y, w.force.z, w.torque.x, w.torque.y, w.torque.z]
  set _ a := ⟨⟨a 0, a 1, a 2⟩, ⟨a 3, a 4, a 5⟩⟩
  get_set _ a := by funext i; match i with | 0 | 1 | 2 | 3 | 4 | 5 => rfl

def Twist.entries : Lens (Twist D) (Fin 6 → D) where
  get t := ![t.vel.x, t.vel.y, t.vel.z, t.rot.x, t.rot.y, t.rot.z]
  set _ a := ⟨⟨a 0, a 1, a 2⟩, ⟨a 3, a 4, a 5⟩⟩
  get_set _ a := by funext i; match i with | 0 | 1 | 2 | 3 | 4 | 5 => rfl

/-- The origin, then the rotation row after row, which is how it is stored. -/
def Frame.entries : Lens (Frame D) (Fin 12 → D) where
  get f := ![f.p.x, f.p.y, f.p.z, f.M.Xx, f.M.Yx, f.M.Zx, f.M.Xy, f.M.Yy, f.M.Zy, f.M.Xz, f.M.Yz, f.M.Zz]
  set _ a := ⟨⟨a 0, a 1, a 2⟩, ⟨a 3, a 4, a 5, a 6, a 7, a 8, a 9, a 10, a 11⟩⟩
  get_set _ a := by funext i; match i with | 0 | 1 | 2 | 3 | 4 | 5 | 6 | 7 | 8 | 9 | 10 | 11 => rfl

/-! ## Joint arrays and Jacobians -/

/-- The elements; the map has as many as the sequence, and the array must have them too. -/
def JntArray.toCorbaType (tp : JntArray D) : Option (DoubleSequence D) :=
  if uLong tp.rows = tp.rows then some (List.ofFn tp.data) else none

def JntArray.toStdType (cb : DoubleSequence D) : Option (Bool × JntArray D) :=
  some (true, ⟨cb.length, cb.get⟩)

variable (casts : Casts D)

/-- The map is written behind the two sizes, into a sequence of the length that was set. -/
def Jacobian.toCorbaType (tp : Jacobian D) : Option (DoubleSequence D) :=
  let data := (Jacobian.matrix.get tp).data
  if tp.columns * 6 + 2 ≤ uLong (tp.columns * 6 + 2) then
    some (casts.ofSize 6 :: casts.ofSize tp.columns :: List.ofFn data)
  else none

/-- The map, behind the two sizes, must have the six rows that the matrix has. -/
def Jacobian.toStdType (tp : Jacobian D) (cb : DoubleSequence D) : Option (Bool × Jacobian D) :=
  if cb.length < 2 then some (false, tp)
  else do
    let rows ← casts.toSize (← cb[0]?)
    let cols ← casts.toSize (← cb[1]?)
    if h : rows = 6 then
      let data ← entriesFrom 2 cb (cols * rows)
      return (true, Jacobian.matrix.set tp ⟨rows, cols, data, fun n hn => h.trans (Option.some.inj hn), by simp⟩)
    else none

/-! ## The types that cross -/

inductive AnyType where
  | vector
  | rotation
  | frame
  | wrench
  | twist
  | jacobian
  | jntArray
  deriving DecidableEq, Repr

abbrev AnyType.Value (D : Type) : AnyType → Type
  | .vector => Vector D
  | .rotation => Rotation D
  | .frame => Frame D
  | .wrench => Wrench D
  | .twist => Twist D
  | .jacobian => Jacobian D
  | .jntArray => JntArray D

/-- `AnyConversion<T>::toCorbaType` -/
def toCorbaType : (t : AnyType) → t.Value D → Option (DoubleSequence D)
  | .vector, v => some (entriesToAny Vector.data v)
  | .rotation, r => some (entriesToAny Rotation.data r)
  | .frame, f => some (entriesToAny Frame.entries f)
  | .wrench, w => some (entriesToAny Wrench.entries w)
  | .twist, t => some (entriesToAny Twist.entries t)
  | .jacobian, J => Jacobian.toCorbaType casts J
  | .jntArray, a => JntArray.toCorbaType a

/-- `AnyConversion<T>::toStdType` -/
def toStdType : (t : AnyType) → t.Value D → DoubleSequence D → Option (Bool × t.Value D)
  | .vector, tp, cb => entriesToStdType Vector.data tp cb
  | .rotation, tp, cb => entriesToStdType Rotation.data tp cb
  | .frame, tp, cb => entriesToStdType Frame.entries tp cb
  | .wrench, tp, cb => entriesToStdType Wrench.entries tp cb
  | .twist, tp, cb => entriesToStdType Twist.entries tp cb
  | .jacobian, tp, cb => Jacobian.toStdType casts tp cb
  | .jntArray, _, cb => JntArray.toStdType cb

/-- `AnyConversion<T>::update`; an `Any` that holds something else than doubles is `none`. -/
def update (t : AnyType) (any : Option (DoubleSequence D)) (value : t.Value D) : Option (Bool × t.Value D) :=
  match any with
  | some result => toStdType casts t value result
  | none => some (false, value)

/-! ## What arrives -/

namespace AnyType

/-- The length of the sequence is an `ULong`. -/
def Fits : (t : AnyType) → t.Value D → Prop
  | .jacobian, J => J.columns * 6 + 2 < 2 ^ 32
  | .jntArray, a => a.rows < 2 ^ 32
  | .vector, _ | .rotation, _ | .frame, _ | .wrench, _ | .twist, _ => True

/-- How many entries are read from the sequence, `none` when its sizes are not those of a Jacobian. -/
def entriesRead (casts : Casts D) (t : AnyType) (cb : DoubleSequence D) : Option Nat :=
  match t with
  | .vector => some 3
  | .rotation => some 9
  | .frame => some 12
  | .wrench | .twist => some 6
  | .jntArray => some cb.length
  | .jacobian =>
    if cb.length < 2 then some 0
    else if cb[0]?.bind casts.toSize = some 6 then (cb[1]?.bind casts.toSize).map (· * 6 + 2)
    else none

/-- The coefficients, in the order in which they are stored. -/
def coefficients : (t : AnyType) → t.Value D → List D
  | .vector, v => List.ofFn (Vector.data.get v)
  | .rotation, r => List.ofFn (Rotation.data.get r)
  | .frame, f => List.ofFn (Frame.entries.get f)
  | .wrench, w => List.ofFn (Wrench.entries.get w)
  | .twist, t => List.ofFn (Twist.entries.get t)
  | .jacobian, J => List.ofFn (Jacobian.matrix.get J).data
  | .jntArray, a => List.ofFn a.data

/-- The number of sizes in front of the coefficients. -/
def header : AnyType → Nat
  | .jacobian => 2
  | .vector | .rotation | .frame | .wrench | .twist | .jntArray => 0

/-- The number of coefficients. -/
def count : (t : AnyType) → t.Value D → Nat
  | .vector, _ => 3
  | .rotation, _ => 9
  | .frame, _ => 12
  | .wrench, _ | .twist, _ => 6
  | .jacobian, J => J.columns * 6
  | .jntArray, a => a.rows

/-- The sizes of the value are those of the sequence. -/
def Sized (casts : Casts D) : (t : AnyType) → DoubleSequence D → t.Value D → Prop
  | .jacobian, cb, J => cb[0]?.bind casts.toSize = some 6 ∧ cb[1]?.bind casts.toSize = some J.columns
  | .jntArray, cb, a => a.rows = cb.length
  | .vector, _, _ | .rotation, _, _ | .frame, _, _ | .wrench, _, _ | .twist, _, _ => True

end AnyType

/-- The value has the sizes that the sequence says, and the coefficients behind its header. -/
structure Brings (casts : Casts D) (t : AnyType) (cb : DoubleSequence D) (x : t.Value D) : Prop where
  sizes : t.Sized casts cb x
  within : t.header + t.count x ≤ cb.length
  coefficients : t.coefficients x = (cb.drop t.header).take (t.count x)

section

variable {T : Type} {k n : Nat} {entries : Lens T (Fin n → D)} {tp : T} {cb : DoubleSequence D}

theorem isSome_entriesFrom (hk : k ≤ cb.length) : (entriesFrom k cb n).isSome ↔ k + n ≤ cb.length := by
  have hentry : ∀ i : Fin n, (cb[k + i.val]?).isSome ↔ k + i.val < cb.length := by simp
  rw [entriesFrom, isSome_readAll_iff, forall_congr' hentry]
  constructor
  · intro h
    cases n with
    | zero => exact hk
    | succ n => exact h (Fin.last n)
  · intro h i
    omega

theorem entriesFrom_reads {a : Fin n → D} (h : entriesFrom k cb n = some a) : List.ofFn a = (cb.drop k).take n := by
  have hentry := readAll_eq_some_iff.mp h
  refine List.ext_getElem? fun i => ?_
  by_cases hi : i < n
  · rw [List.getElem?_take_of_lt hi, List.getElem?_drop, hentry ⟨i, hi⟩]
    simp [hi]
  · rw [List.getElem?_eq_none (by simpa using hi), List.getElem?_eq_none]
    rw [List.length_take]
    omega

theorem entriesFrom_append (front : List D) (d : Fin n → D) :
    entriesFrom front.length (front ++ List.ofFn d) n = some d := by
  refine readAll_eq_some_iff.mpr fun i => ?_
  rw [List.getElem?_append_right (Nat.le_add_right ..), Nat.add_sub_cancel_left]
  simp

theorem entriesToStdType_entriesToAny (entries : Lens T (Fin n → D))
    (hall : ∀ old x, entries.set old (entries.get x) = x) (x tp : T) :
    entriesToStdType entries tp (entriesToAny entries x) = some (true, x) := by
  have hread : entriesFrom 0 (entriesToAny entries x) n = some (entries.get x) := entriesFrom_append [] (entries.get x)
  unfold entriesToStdType
  rw [hread, ← hall tp x]
  simp [entries.get_set]

theorem isSome_entriesToStdType : (entriesToStdType entries tp cb).isSome ↔ n ≤ cb.length := by
  have hread := isSome_entriesFrom (n := n) (Nat.zero_le cb.length)
  rw [Nat.zero_add] at hread
  rw [← hread, entriesToStdType]
  cases entriesFrom 0 cb n <;> simp

/-- What is read are the first entries of the sequence. -/
theorem entriesToStdType_reads {b : Bool} {x : T} (h : entriesToStdType entries tp cb = some (b, x)) :
    b = true ∧ 0 + n ≤ cb.length ∧ List.ofFn (entries.get x) = (cb.drop 0).take n := by
  obtain ⟨a, ha, h⟩ := Option.bind_eq_some_iff.mp h
  cases h
  rw [entries.get_set]
  exact ⟨rfl, (isSome_entriesFrom (Nat.zero_le _)).mp (Option.isSome_of_eq_some ha), entriesFrom_reads ha⟩

end

/-! ## Joint arrays and Jacobians -/

theorem uLong_eq_iff {n : Nat} : uLong n = n ↔ n < 2 ^ 32 := by
  unfold uLong
  omega

theorem JntArray.toCorbaType_iff {a : JntArray D} :
    (∃ cb, JntArray.toCorbaType a = some cb ∧ JntArray.toStdType cb = some (true, a)) ↔ a.rows < 2 ^ 32 := by
  unfold JntArray.toCorbaType
  constructor
  · intro ⟨cb, h, _⟩
    split at h
    · rename_i hrows
      exact uLong_eq_iff.mp hrows
    · cases h
  · intro h
    refine ⟨List.ofFn a.data, if_pos (uLong_eq_iff.mpr h), ?_⟩
    have hget : (List.ofFn a.data).get = fun i => a.data (i.cast List.length_ofFn) := by
      funext i
      exact List.getElem_ofFn i.isLt
    rw [JntArray.toStdType, hget, Kdl.JntArray.cast_eq]

theorem Jacobian.toStdType_eq {casts : Casts D} {tp : Jacobian D} {n : Nat} (d : Fin (n * 6) → D) {c0 c1 : D}
    (h0 : casts.toSize c0 = some 6) (h1 : casts.toSize c1 = some n) :
    Jacobian.toStdType casts tp (c0 :: c1 :: List.ofFn d) =
      some (true, Jacobian.matrix.set tp ⟨6, n, d, fun _ h => Option.some.inj h, by simp⟩) := by
  have hlen : (c0 :: c1 :: List.ofFn d).length = n * 6 + 2 := by simp
  have hdata : entriesFrom 2 (c0 :: c1 :: List.ofFn d) (n * 6) = some d := entriesFrom_append [c0, c1] d
  unfold Jacobian.toStdType
  rw [if_neg (by omega)]
  simp only [List.getElem?_cons_zero, List.getElem?_cons_succ, Option.bind_eq_bind, Option.bind_some, h0, h1, hdata,
    dite_true, pure]

theorem Jacobian.toCorbaType_iff (casts : Casts D) (J : Jacobian D) :
    (∃ cb, Jacobian.toCorbaType casts J = some cb ∧ ∀ old, Jacobian.toStdType casts old cb = some (true, J)) ↔
      J.columns * 6 + 2 < 2 ^ 32 := by
  unfold Jacobian.toCorbaType
  constructor
  · intro ⟨cb, h, _⟩
    dsimp only at h
    split at h
    · rename_i hfits
      exact uLong_eq_iff.mp (Nat.le_antisymm (Nat.mod_le ..) hfits)
    · cases h
  · intro h
    refine ⟨_, if_pos (uLong_eq_iff.mpr h).ge, fun old => ?_⟩
    have hcols : casts.toSize (casts.ofSize J.columns) = some J.columns := casts.toSize_ofSize _ (by omega)
    have hrows : casts.toSize (casts.ofSize 6) = some 6 := casts.toSize_ofSize _ (by omega)
    exact (Jacobian.toStdType_eq (Jacobian.matrix.get J).data hrows hcols).trans
      (congrArg (fun J => some (true, J)) (Jacobian.matrix.set_get J))

/-- The two sizes, where there are two entries, and then the coefficients. -/
theorem Jacobian.toStdType_of_sizes {casts : Casts D} {tp : Jacobian D} {cb : DoubleSequence D} (h : ¬cb.length < 2) :
    Jacobian.toStdType casts tp cb =
      (cb[0]?.bind casts.toSize).bind fun rows => (cb[1]?.bind casts.toSize).bind fun cols =>
        if h : rows = 6 then
          (entriesFrom 2 cb (cols * rows)).bind fun data => some (true, Jacobian.matrix.set tp
            ⟨rows, cols, data, fun n hn => h.trans (Option.some.inj hn), by simp⟩)
        else none := by
  unfold Jacobian.toStdType
  rw [if_neg h]
  simp only [Option.bind_eq_bind, Option.bind_assoc, pure]

theorem Jacobian.isSome_toStdType {casts : Casts D} {tp : Jacobian D} {cb : DoubleSequence D} :
    (Jacobian.toStdType casts tp cb).isSome ↔ ∃ n ∈ AnyType.entriesRead casts .jacobian cb, n ≤ cb.length := by
  by_cases hlen : cb.length < 2
  · simp [Jacobian.toStdType, AnyType.entriesRead, hlen]
  · rw [Jacobian.toStdType_of_sizes hlen]
    simp only [AnyType.entriesRead, if_neg hlen]
    cases hrows : cb[0]?.bind casts.toSize with
    | none => simp
    | some rows =>
      cases hcols : cb[1]?.bind casts.toSize with
      | none => simp
      | some cols =>
        by_cases h6 : rows = 6
        · subst h6
          have hread := isSome_entriesFrom (n := cols * 6) (Nat.not_lt.mp hlen)
          rw [Nat.add_comm] at hread
          cases hdata : entriesFrom 2 cb (cols * 6) <;> simp [hdata, ← hread]
        · simp [h6]

theorem Jacobian.toStdType_reads {casts : Casts D} {tp J : Jacobian D} {cb : DoubleSequence D} {b : Bool}
    (h : Jacobian.toStdType casts tp cb = some (b, J)) :
    cb.length < 2 ∧ b = false ∧ J = tp ∨ b = true ∧ Brings casts .jacobian cb J := by
  by_cases hlen : cb.length < 2
  · rw [Jacobian.toStdType, if_pos hlen] at h
    cases h
    exact .inl ⟨hlen, rfl, rfl⟩
  · rw [Jacobian.toStdType_of_sizes hlen] at h
    obtain ⟨rows, hrows, h⟩ := Option.bind_eq_some_iff.mp h
    obtain ⟨cols, hcols, h⟩ := Option.bind_eq_some_iff.mp h
    split at h
    · rename_i h6
      subst h6
      obtain ⟨data, hdata, h⟩ := Option.bind_eq_some_iff.mp h
      cases h
      refine .inr ⟨rfl, ⟨hrows, hcols⟩, ?_, ?_⟩
      · exact (isSome_entriesFrom (Nat.not_lt.mp hlen)).mp (Option.isSome_of_eq_some hdata)
      · show List.ofFn (Jacobian.matrix.get (Jacobian.matrix.set tp _)).data = _
        rw [Jacobian.matrix.get_set]
        exact entriesFrom_reads hdata
    · cases h

/-! ## What arrives, of every type -/

variable (casts : Casts D)

theorem update_toCorbaType_iff (t : AnyType) (x : t.Value D) :
    (∃ cb, toCorbaType casts t x = some cb ∧ ∀ old, update casts t (some cb) old = some (true, x)) ↔ t.Fits x := by
  cases t with
  | vector => exact iff_of_true ⟨_, rfl, entriesToStdType_entriesToAny Vector.data (fun _ _ => rfl) x⟩ trivial
  | rotation => exact iff_of_true ⟨_, rfl, entriesToStdType_entriesToAny Rotation.data (fun _ _ => rfl) x⟩ trivial
  | frame => exact iff_of_true ⟨_, rfl, entriesToStdType_entriesToAny Frame.entries (fun _ _ => rfl) x⟩ trivial
  | wrench => exact iff_of_true ⟨_, rfl, entriesToStdType_entriesToAny Wrench.entries (fun _ _ => rfl) x⟩ trivial
  | twist => exact iff_of_true ⟨_, rfl, entriesToStdType_entriesToAny Twist.entries (fun _ _ => rfl) x⟩ trivial
  | jacobian => exact Jacobian.toCorbaType_iff casts x
  | jntArray =>
    refine Iff.trans ?_ JntArray.toCorbaType_iff
    exact exists_congr fun cb => and_congr_right fun _ => ⟨fun h => h x, fun h _ => h⟩

/-- Reading is defined where the entries that are read are there. -/
theorem update_defined_iff (t : AnyType) (cb : DoubleSequence D) (old : t.Value D) :
    (update casts t (some cb) old).isSome ↔ ∃ n ∈ t.entriesRead casts cb, n ≤ cb.length := by
  have hfixed : ∀ n, (n ≤ cb.length ↔ ∃ m ∈ some n, m ≤ cb.length) := by simp
  cases t with
  | vector => exact isSome_entriesToStdType.trans (hfixed 3)
  | rotation => exact isSome_entriesToStdType.trans (hfixed 9)
  | frame => exact isSome_entriesToStdType.trans (hfixed 12)
  | wrench => exact isSome_entriesToStdType.trans (hfixed 6)
  | twist => exact isSome_entriesToStdType.trans (hfixed 6)
  | jacobian => exact Jacobian.isSome_toStdType
  | jntArray => exact iff_of_true rfl ⟨_, rfl, Nat.le_refl _⟩

/-- An update fails without a sequence and for a Jacobian without sizes, and changes nothing then. -/
theorem update_reads (t : AnyType) (any : Option (DoubleSequence D)) (old : t.Value D) :
    ∀ result ∈ update casts t any old,
      (result = (false, old) ∧ ∀ cb ∈ any, t = .jacobian ∧ cb.length < 2) ∨
      result.1 = true ∧ ∃ cb ∈ any, Brings casts t cb result.2 := by
  intro (b, x) h
  cases any with
  | none =>
    cases h
    exact .inl ⟨rfl, nofun⟩
  | some cb =>
    cases t with
    | vector => exact .inr ((entriesToStdType_reads h).imp_right fun hx => ⟨cb, rfl, trivial, hx.1, hx.2⟩)
    | rotation => exact .inr ((entriesToStdType_reads h).imp_right fun hx => ⟨cb, rfl, trivial, hx.1, hx.2⟩)
    | frame => exact .inr ((entriesToStdType_reads h).imp_right fun hx => ⟨cb, rfl, trivial, hx.1, hx.2⟩)
    | wrench => exact .inr ((entriesToStdType_reads h).imp_right fun hx => ⟨cb, rfl, trivial, hx.1, hx.2⟩)
    | twist => exact .inr ((entriesToStdType_reads h).imp_right fun hx => ⟨cb, rfl, trivial, hx.1, hx.2⟩)
    | jacobian =>
      obtain ⟨hlen, rfl, rfl⟩ | ⟨rfl, hx⟩ := Jacobian.toStdType_reads h
      · refine .inl ⟨rfl, fun cb' hcb => ?_⟩
        cases hcb
        exact ⟨rfl, hlen⟩
      · exact .inr ⟨rfl, cb, rfl, hx⟩
    | jntArray =>
      cases h
      refine .inr ⟨rfl, cb, rfl, rfl, (Nat.zero_add _).le, ?_⟩
      show List.ofFn cb.get = (cb.drop 0).take cb.length
      rw [List.ofFn_get, List.drop_zero, List.take_length]

/-- A Jacobian of one column, and what is behind it in the sequence. -/
def oneColumn : DoubleSequence Nat := [6, 1, 10, 20, 30, 40, 50, 60, 70]

theorem update_reads_one_column :
    ∃ J : Jacobian Nat, update natCasts .jacobian (some oneColumn) ⟨0, fun _ => 0⟩ = some (true, J) ∧ J.columns = 1 ∧
      ((((true, J) : Bool × Jacobian Nat) = (false, ⟨0, fun _ => 0⟩) ∧
        ∀ cb ∈ some oneColumn, AnyType.jacobian = .jacobian ∧ cb.length < 2) ∨
      true = true ∧ ∃ cb ∈ some oneColumn, Brings natCasts .jacobian cb J) :=
  ⟨_, rfl, rfl, update_reads natCasts .jacobian (some oneColumn) ⟨0, fun _ => 0⟩ _ rfl⟩

end RttRos2.Kdl.Corba
