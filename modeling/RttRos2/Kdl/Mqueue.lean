/-
  RttRos2.Kdl.Mqueue — KDL values as messages of a message queue (kdl_mqueue.cpp).

  `serialize` names the members that go through the archive, and in which order: a twist
  its rotation first, a wrench its force. A matrix is preceded by its rows and columns, as
  `int`s; the coefficients are stored, and written, column after column. How the archive
  writes an `int` and a `double` is a parameter. `none` is undefined behaviour: a product
  of two `int`s that is none, an array beyond the coefficients, a matrix resized to what
  its type does not allow; or a message that ends too early.

  - `serialize_exact_iff`: what crosses the queue is the same value, whatever the target
    held before, if and only if its sizes and the number of its coefficients are `int`s;
    a value of fixed size always.
  - `message_length`: how long a message is depends on the sizes alone, so a queue made for
    one value has room for every other one of the same sizes.
-/

import RttRos2.Kdl.Storage
import RttRos2.Lib.Archive
import RttRos2.Lib.Integer

namespace RttRos2.Kdl

open RttRos2.Lib

variable {W D : Type}

/-- `int` -/
abbrev int : Format := ⟨true, 32, Nat.zero_lt_succ 31⟩

/-- What the archive brings. -/
structure Archive (W D : Type) where
  int : Codec W int.Bits
  double : Codec W D

/-- One word for each element. -/
def wordArchive (D : Type) : Archive (int.Bits ⊕ D) D where
  int := {
    width := 1
    put := fun n => [.inl n]
    get := fun
      | .inl n :: rest => some (n, rest)
      | _ => none
    length_put := fun _ => rfl
    get_put := fun _ _ => rfl }
  double := {
    width := 1
    put := fun d => [.inr d]
    get := fun
      | .inr d :: rest => some (d, rest)
      | _ => none
    length_put := fun _ => rfl
    get_put := fun _ _ => rfl }

/-- `JntArrayVel` -/
structure JntArrayVel (D : Type) where
  q : JntArray D
  qdot : JntArray D

/-! ## Matrices -/

/-- `rows * cols` -/
def product (rows cols : Int) : Option Int :=
  if int.lo ≤ rows * cols ∧ rows * cols ≤ int.hi then some (rows * cols) else none

namespace EigenMatrix

variable {R C : Option Nat}

def saveSized (ar : Archive W D) (g : EigenMatrix R C D) (rows cols : Int) : Option (List W) := do
  let count ← product rows cols
  if h : 0 ≤ count ∧ count.toNat ≤ g.cols * g.rows then
    return ar.int.put (int.ofInt rows) ++ ar.int.put (int.ofInt cols) ++
      ar.double.putArray fun k : Fin count.toNat => g.data (k.castLE h.2)
  else none

def save (ar : Archive W D) (g : EigenMatrix R C D) : Option (List W) :=
  saveSized ar g (int.value (int.ofInt g.rows)) (int.value (int.ofInt g.cols))

/-- After `resize`, as many coefficients as there is now room for. -/
def loadSized (ar : Archive W D) (rows cols : Int) (ws : List W) : Option (EigenMatrix R C D × List W) :=
  if h : 0 ≤ rows ∧ 0 ≤ cols ∧ (∀ n ∈ R, rows.toNat = n) ∧ ∀ n ∈ C, cols.toNat = n then do
    let _ ← product rows cols
    let (data, ws) ← ar.double.getArray (cols.toNat * rows.toNat) ws
    return (⟨rows.toNat, cols.toNat, data, h.2.2.1, h.2.2.2⟩, ws)
  else none

def load (ar : Archive W D) (_ : EigenMatrix R C D) (ws : List W) : Option (EigenMatrix R C D × List W) := do
  let (rows, ws) ← ar.int.get ws
  let (cols, ws) ← ar.int.get ws
  loadSized ar (int.value rows) (int.value cols) ws

def serialize (ar : Archive W D) : Serializer W (EigenMatrix R C D) where
  save := save ar
  load := load ar

/-- The sizes and the number of coefficients are `int`s. -/
def Fits (g : EigenMatrix R C D) : Prop :=
  (g.rows : Int) ≤ int.hi ∧ (g.cols : Int) ≤ int.hi ∧ (g.rows * g.cols : Int) ≤ int.hi

end EigenMatrix

/-! ## What fits -/

theorem value_int {n : Nat} (h : (n : Int) ≤ int.hi) : int.value (int.ofInt n) = n := by
  refine Format.value_ofInt ?_ h
  have hlo : int.lo ≤ 0 := by decide
  omega

theorem product_eq {r c : Nat} (h : (r * c : Int) ≤ int.hi) : product r c = some ((r : Int) * c) := by
  have hlo : int.lo ≤ 0 := by decide
  have hpos : (0 : Int) ≤ r * c := Int.mul_nonneg (Int.natCast_nonneg r) (Int.natCast_nonneg c)
  exact if_pos ⟨by omega, h⟩

theorem product_le {r c n : Int} (h : product r c = some n) : r * c ≤ int.hi := by
  unfold product at h
  split at h
  · rename_i hb
    exact hb.2
  · cases h

namespace EigenMatrix

variable {R C : Option Nat} {ar : Archive W D} {g : EigenMatrix R C D}

theorem save_of_fits (h : g.Fits) :
    save ar g = some (ar.int.put (int.ofInt g.rows) ++ ar.int.put (int.ofInt g.cols) ++ ar.double.putArray g.data) := by
  have hcount : ((g.rows : Int) * g.cols).toNat = g.cols * g.rows := by
    rw [← Int.natCast_mul, Int.toNat_natCast, Nat.mul_comm]
  have hpos : (0 : Int) ≤ g.rows * g.cols := Int.mul_nonneg (Int.natCast_nonneg _) (Int.natCast_nonneg _)
  rw [save, value_int h.1, value_int h.2.1, saveSized, product_eq h.2.2]
  simp only [Option.bind_eq_bind, Option.bind_some, pure]
  rw [dif_pos ⟨hpos, hcount.le⟩, Codec.putArray_castLE _ _ hcount]

theorem load_of_fits (h : g.Fits) (old : EigenMatrix R C D) (rest : List W) :
    load ar old (ar.int.put (int.ofInt g.rows) ++ ar.int.put (int.ofInt g.cols) ++ ar.double.putArray g.data ++ rest) =
      some (g, rest) := by
  simp only [load, List.append_assoc, Codec.get_put, Option.bind_eq_bind, Option.bind_some, value_int h.1,
    value_int h.2.1]
  rw [loadSized, dif_pos ⟨Int.natCast_nonneg _, Int.natCast_nonneg _, g.rows_eq, g.cols_eq⟩, product_eq h.2.2]
  show (ar.double.getArray (g.cols * g.rows) _).bind _ = _
  rw [Codec.getArray_putArray]
  rfl

theorem takes_of_fits (h : g.Fits) :
    (serialize ar).Takes g (2 * ar.int.width + g.rows * g.cols * ar.double.width) := by
  intro out hout
  cases (save_of_fits h).symm.trans hout
  rw [List.length_append, List.length_append, ar.int.length_put, ar.int.length_put, Codec.length_putArray,
    Nat.mul_comm g.cols, Nat.two_mul]

theorem exact_of_fits (h : g.Fits) : (serialize ar).Exact g :=
  ⟨_, save_of_fits h, load_of_fits h⟩

/-- What is read has the sizes that were written, as `int`s. -/
theorem sizes_of_load {rows cols : int.Bits} {ws rest : List W} {old g' : EigenMatrix R C D}
    (h : load ar old (ar.int.put rows ++ ar.int.put cols ++ ws) = some (g', rest)) :
    (g'.rows : Int) = int.value rows ∧ (g'.cols : Int) = int.value cols := by
  simp only [load, List.append_assoc, Codec.get_put, Option.bind_eq_bind, Option.bind_some, loadSized] at h
  split at h
  · rename_i hb
    obtain ⟨_, _, h⟩ := Option.bind_eq_some_iff.mp h
    obtain ⟨_, _, h⟩ := Option.bind_eq_some_iff.mp h
    cases h
    exact ⟨Int.toNat_of_nonneg hb.1, Int.toNat_of_nonneg hb.2.1⟩
  · cases h

theorem value_reduced (n : Int) : int.value (int.ofInt (int.value (int.ofInt n))) = int.value (int.ofInt n) :=
  Format.value_ofInt (Format.value_bounds _).1 (Format.value_bounds _).2

/-- What is read with the sizes it was written with fits. -/
theorem fits_of_load {out rest ws : List W} (old : EigenMatrix R C D) {g' : EigenMatrix R C D}
    (hs : save ar g = some out) (hl : load ar old (out ++ rest) = some (g', ws)) (hr : g'.rows = g.rows)
    (hc : g'.cols = g.cols) : g.Fits := by
  simp only [save, saveSized, Option.bind_eq_bind, Option.bind_eq_some_iff] at hs
  obtain ⟨n, hn, hs⟩ := hs
  split at hs
  · cases hs
    rw [List.append_assoc] at hl
    obtain ⟨hrows, hcols⟩ := sizes_of_load hl
    rw [value_reduced, hr] at hrows
    rw [value_reduced, hc] at hcols
    have hcount := product_le hn
    rw [← hrows, ← hcols] at hcount
    refine ⟨?_, ?_, hcount⟩
    · rw [hrows]
      exact (Format.value_bounds _).2
    · rw [hcols]
      exact (Format.value_bounds _).2
  · cases hs

end EigenMatrix

/-! ## Members -/

def Twist.velLens : Lens (Twist D) (Vector D) where
  get t := t.vel
  set t v := { t with vel := v }

def Twist.rotLens : Lens (Twist D) (Vector D) where
  get t := t.rot
  set t v := { t with rot := v }

def Wrench.forceLens : Lens (Wrench D) (Vector D) where
  get w := w.force
  set w v := { w with force := v }

def Wrench.torqueLens : Lens (Wrench D) (Vector D) where
  get w := w.torque
  set w v := { w with torque := v }

def Frame.pLens : Lens (Frame D) (Vector D) where
  get f := f.p
  set f p := { f with p := p }

def Frame.MLens : Lens (Frame D) (Rotation D) where
  get f := f.M
  set f M := { f with M := M }

def JntArrayVel.qLens : Lens (JntArrayVel D) (JntArray D) where
  get a := a.q
  set a q := { a with q := q }

def JntArrayVel.qdotLens : Lens (JntArrayVel D) (JntArray D) where
  get a := a.qdot
  set a qdot := { a with qdot := qdot }

/-! ## The types that cross the queue -/

/-- The protocols, `MQSerializationProtocol<T>`. -/
inductive Protocol where
  | vector
  | rotation
  | frame
  | wrench
  | twist
  | jacobian
  | jntArray
  | jntArrayVel
  deriving DecidableEq, Repr

abbrev Protocol.Value (D : Type) : Protocol → Type
  | .vector => Vector D
  | .rotation => Rotation D
  | .frame => Frame D
  | .wrench => Wrench D
  | .twist => Twist D
  | .jacobian => Jacobian D
  | .jntArray => JntArray D
  | .jntArrayVel => JntArrayVel D

section

open Serializer

variable (ar : Archive W D)

/-- `make_array(a, n)` -/
def makeArray (n : Nat) : Serializer W (Fin n → D) := ofCodec (ar.double.array n)

/-- `ar & make_array(v.data, 3)` -/
def vectorArray : Serializer W (Vector D) := on Vector.data (makeArray ar 3)

/-- `ar & make_array(r.data, 9)` -/
def rotationArray : Serializer W (Rotation D) := on Rotation.data (makeArray ar 9)

def jntArraySerialize : Serializer W (JntArray D) := on JntArray.matrix (EigenMatrix.serialize ar)

/-- The overloads of `boost::serialization::serialize`. -/
def serialize : (p : Protocol) → Serializer W (p.Value D)
  | .vector => vectorArray ar
  | .rotation => rotationArray ar
  | .frame => next (on Frame.pLens (vectorArray ar)) (on Frame.MLens (rotationArray ar))
  | .wrench => next (on Wrench.forceLens (vectorArray ar)) (on Wrench.torqueLens (vectorArray ar))
  | .twist => next (on Twist.rotLens (vectorArray ar)) (on Twist.velLens (vectorArray ar))
  | .jacobian => on Jacobian.matrix (EigenMatrix.serialize ar)
  | .jntArray => jntArraySerialize ar
  | .jntArrayVel =>
    next (on JntArrayVel.qLens (jntArraySerialize ar)) (on JntArrayVel.qdotLens (jntArraySerialize ar))

end

/-! ## What crosses the queue -/

namespace Protocol

/-- The sizes and the number of coefficients are `int`s. -/
def Fits : (p : Protocol) → p.Value D → Prop
  | .jacobian, J => (6 * J.columns : Int) ≤ int.hi
  | .jntArray, a => (a.rows : Int) ≤ int.hi
  | .jntArrayVel, a => (a.q.rows : Int) ≤ int.hi ∧ (a.qdot.rows : Int) ≤ int.hi
  | .vector, _ | .rotation, _ | .frame, _ | .wrench, _ | .twist, _ => True

/-- The number of `int`s in a message. -/
def ints : Protocol → Nat
  | .jacobian | .jntArray => 2
  | .jntArrayVel => 4
  | .vector | .rotation | .frame | .wrench | .twist => 0

/-- The number of `double`s. -/
def doubles : (p : Protocol) → p.Value D → Nat
  | .vector, _ => 3
  | .rotation, _ => 9
  | .frame, _ => 12
  | .wrench, _ | .twist, _ => 6
  | .jacobian, J => 6 * J.columns
  | .jntArray, a => a.rows
  | .jntArrayVel, a => a.q.rows + a.qdot.rows

end Protocol

section

open Serializer

variable (ar : Archive W D)

theorem exact_vectorArray (v : Vector D) : (vectorArray ar).Exact v :=
  (writes_on Vector.data (exact_ofCodec _ _)).exact fun _ => rfl

theorem exact_rotationArray (r : Rotation D) : (rotationArray ar).Exact r :=
  (writes_on Rotation.data (exact_ofCodec _ _)).exact fun _ => rfl

theorem takes_vectorArray (v : Vector D) : (vectorArray ar).Takes v (3 * ar.double.width) :=
  takes_ofCodec (ar.double.array 3) _

theorem takes_rotationArray (r : Rotation D) : (rotationArray ar).Takes r (9 * ar.double.width) :=
  takes_ofCodec (ar.double.array 9) _

theorem fits_jntArray (a : JntArray D) : (JntArray.matrix.get a).Fits ↔ (a.rows : Int) ≤ int.hi := by
  show (a.rows : Int) ≤ int.hi ∧ (1 : Int) ≤ int.hi ∧ (a.rows * 1 : Int) ≤ int.hi ↔ _
  have h1 : (1 : Int) ≤ int.hi := by decide
  omega

theorem fits_jacobian (J : Jacobian D) : (Jacobian.matrix.get J).Fits ↔ (6 * J.columns : Int) ≤ int.hi := by
  show (6 : Int) ≤ int.hi ∧ (J.columns : Int) ≤ int.hi ∧ (6 * J.columns : Int) ≤ int.hi ↔ _
  have h6 : (6 : Int) ≤ int.hi := by decide
  omega

variable {ar}

theorem exact_jntArray {a : JntArray D} (h : (a.rows : Int) ≤ int.hi) : (jntArraySerialize ar).Exact a :=
  (writes_on JntArray.matrix (EigenMatrix.exact_of_fits ((fits_jntArray a).mpr h))).exact fun _ => rfl

theorem takes_jntArray {a : JntArray D} (h : (a.rows : Int) ≤ int.hi) :
    (jntArraySerialize ar).Takes a (2 * ar.int.width + a.rows * ar.double.width) := by
  have ht : (EigenMatrix.serialize ar).Takes (JntArray.matrix.get a) _ :=
    EigenMatrix.takes_of_fits ((fits_jntArray a).mpr h)
  rwa [show (JntArray.matrix.get a).rows * (JntArray.matrix.get a).cols = a.rows from Nat.mul_one _] at ht

/-- An array that is read with as many rows as it was written with fits. -/
theorem jntArray_fits_of_load (old : JntArray D) {a a' : JntArray D} {out ws rest : List W}
    (hs : (jntArraySerialize ar).save a = some out) (hl : (jntArraySerialize ar).load old (out ++ ws) = some (a', rest))
    (hrows : a'.rows = a.rows) : (a.rows : Int) ≤ int.hi := by
  obtain ⟨⟨m, _⟩, hload, hm⟩ := Option.map_eq_some_iff.mp hl
  cases hm
  exact (fits_jntArray a).mp (EigenMatrix.fits_of_load (JntArray.matrix.get old) hs hload hrows (m.cols_eq 1 rfl))

theorem jacobian_fits_of_load (old : Jacobian D) {J J' : Jacobian D} {out ws rest : List W}
    (hs : (serialize ar .jacobian).save J = some out)
    (hl : (serialize ar .jacobian).load old (out ++ ws) = some (J', rest)) (hcolumns : J'.columns = J.columns) :
    (6 * J.columns : Int) ≤ int.hi := by
  obtain ⟨⟨m, _⟩, hload, hm⟩ := Option.map_eq_some_iff.mp hl
  cases hm
  exact (fits_jacobian J).mp (EigenMatrix.fits_of_load (Jacobian.matrix.get old) hs hload (m.rows_eq 6 rfl) hcolumns)

theorem jntArrayVel_fits_of_exact {a : JntArrayVel D} (h : (serialize ar .jntArrayVel).Exact a) :
    (a.q.rows : Int) ≤ int.hi ∧ (a.qdot.rows : Int) ≤ int.hi := by
  obtain ⟨out, hs, hl⟩ := h
  obtain ⟨first, hfirst, hs⟩ := Option.bind_eq_some_iff.mp hs
  obtain ⟨second, hsecond, hs⟩ := Option.bind_eq_some_iff.mp hs
  cases hs
  obtain ⟨⟨mid, ws⟩, hmid, hl⟩ := Option.bind_eq_some_iff.mp (hl a [])
  obtain ⟨⟨q, _⟩, hq, hm⟩ := Option.map_eq_some_iff.mp hmid
  cases hm
  obtain ⟨⟨qdot, _⟩, hqdot, hm⟩ := Option.map_eq_some_iff.mp hl
  have hx := (Prod.mk.inj hm).1
  rw [List.append_assoc] at hq
  have hfits := jntArray_fits_of_load a.q hfirst hq (congrArg (·.q.rows) hx)
  -- the first array fits, so the second one is read from where it begins
  obtain ⟨_, hsave, hload⟩ := exact_jntArray hfits
  cases hfirst.symm.trans hsave
  cases hq.symm.trans (hload _ _)
  exact ⟨hfits, jntArray_fits_of_load _ hsecond hqdot (congrArg (·.qdot.rows) hx)⟩

theorem serialize_exact (ar : Archive W D) (p : Protocol) {x : p.Value D} (h : p.Fits x) :
    (serialize ar p).Exact x := by
  cases p with
  | vector => exact exact_vectorArray ar x
  | rotation => exact exact_rotationArray ar x
  | frame =>
    exact (writes_next (writes_on Frame.pLens (exact_vectorArray ar _))
      (writes_on Frame.MLens (exact_rotationArray ar _))).exact fun _ => rfl
  | wrench =>
    exact (writes_next (writes_on Wrench.forceLens (exact_vectorArray ar _))
      (writes_on Wrench.torqueLens (exact_vectorArray ar _))).exact fun _ => rfl
  | twist =>
    exact (writes_next (writes_on Twist.rotLens (exact_vectorArray ar _))
      (writes_on Twist.velLens (exact_vectorArray ar _))).exact fun _ => rfl
  | jacobian =>
    exact (writes_on Jacobian.matrix (EigenMatrix.exact_of_fits ((fits_jacobian x).mpr h))).exact fun _ =>
      Jacobian.matrix.set_get x
  | jntArray => exact exact_jntArray h
  | jntArrayVel =>
    exact (writes_next (writes_on JntArrayVel.qLens (exact_jntArray h.1))
      (writes_on JntArrayVel.qdotLens (exact_jntArray h.2))).exact fun _ => rfl

theorem serialize_exact_iff (ar : Archive W D) (p : Protocol) (x : p.Value D) :
    (serialize ar p).Exact x ↔ p.Fits x := by
  refine ⟨fun h => ?_, serialize_exact ar p⟩
  cases p with
  | jacobian =>
    obtain ⟨out, hs, hl⟩ := h
    exact jacobian_fits_of_load x hs (hl x []) rfl
  | jntArray =>
    obtain ⟨out, hs, hl⟩ := h
    exact jntArray_fits_of_load x hs (hl x []) rfl
  | jntArrayVel => exact jntArrayVel_fits_of_exact h
  | vector | rotation | frame | wrench | twist => trivial

/-- Two arrays and no `int`s, of width `i`. -/
theorem takes_arrays {S : Type} {s t : Serializer W S} {x : S} {m n d : Nat} (i : Nat) (hs : s.Takes x (m * d))
    (ht : t.Takes x (n * d)) : (next s t).Takes x (0 * i + (m + n) * d) := by
  rw [Nat.zero_mul, Nat.zero_add, Nat.add_mul]
  exact takes_next hs ht

theorem takes_serialize (ar : Archive W D) (p : Protocol) {x : p.Value D} (h : p.Fits x) :
    (serialize ar p).Takes x (p.ints * ar.int.width + p.doubles x * ar.double.width) := by
  cases p with
  | vector =>
    rw [show Protocol.ints .vector * ar.int.width = 0 from Nat.zero_mul _, Nat.zero_add]
    exact takes_vectorArray ar x
  | rotation =>
    rw [show Protocol.ints .rotation * ar.int.width = 0 from Nat.zero_mul _, Nat.zero_add]
    exact takes_rotationArray ar x
  | frame =>
    have ht := takes_arrays ar.int.width (takes_on Frame.pLens (takes_vectorArray ar x.p))
      (takes_on Frame.MLens (takes_rotationArray ar x.M))
    exact ht
  | wrench =>
    have ht := takes_arrays ar.int.width (takes_on Wrench.forceLens (takes_vectorArray ar x.force))
      (takes_on Wrench.torqueLens (takes_vectorArray ar x.torque))
    exact ht
  | twist =>
    have ht := takes_arrays ar.int.width (takes_on Twist.rotLens (takes_vectorArray ar x.rot))
      (takes_on Twist.velLens (takes_vectorArray ar x.vel))
    exact ht
  | jacobian => exact EigenMatrix.takes_of_fits ((fits_jacobian x).mpr h)
  | jntArray => exact takes_jntArray h
  | jntArrayVel =>
    have hq : (jntArraySerialize ar).Takes x.q _ := takes_jntArray h.1
    have hqdot : (jntArraySerialize ar).Takes x.qdot _ := takes_jntArray h.2
    have ht := takes_next (takes_on JntArrayVel.qLens hq) (takes_on JntArrayVel.qdotLens hqdot)
    rwa [Nat.add_add_add_comm, ← Nat.add_mul, ← Nat.add_mul] at ht

/-- How long a message is depends on the sizes alone. -/
theorem message_length (ar : Archive W D) (p : Protocol) {x : p.Value D} (h : p.Fits x) :
    ∃ out ∈ (serialize ar p).save x, out.length = p.ints * ar.int.width + p.doubles x * ar.double.width := by
  obtain ⟨out, hsave, _⟩ := serialize_exact ar p h
  exact ⟨out, hsave, takes_serialize ar p h out hsave⟩

theorem message_length_two :
    ∃ out ∈ (serialize (wordArchive Nat) .jntArray).save ⟨2, ![5, 7]⟩, out.length = 2 * 1 + 2 * 1 :=
  message_length (wordArchive Nat) .jntArray (by show (2 : Int) ≤ int.hi; decide)

end

end RttRos2.Kdl
