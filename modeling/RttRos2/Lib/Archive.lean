/-
  RttRos2.Lib.Archive — objects written to a stream of words and filled in from it, by one
  description of their members.

  A `Codec` writes and reads one kind of element. That it reads back what it wrote and
  leaves what comes after, and how much it writes, are fields. A `Serializer` writes an
  object and fills one in; an object's is made of its members' (`on`), one after the other
  (`next`). It is `none` where writing or reading is undefined or the stream ends.
  - `Writes s x f`: `x` can be written, and what it writes turns any object `old` into `f old`.
  - `Exact s x`: it turns every object into `x`, whatever that held before.
  - `writes_on`, `writes_next`: what the members' serializers do, composed.
  - `Takes s x n`: if `x` can be written it takes `n` words.
-/

import RttRos2.Lib.Lens
import Mathlib.Data.Fin.Tuple.Basic

namespace RttRos2.Lib

structure Codec (W A : Type) where
  width : Nat
  put : A → List W
  get : List W → Option (A × List W)
  length_put : ∀ a, (put a).length = width
  get_put : ∀ a rest, get (put a ++ rest) = some (a, rest)

namespace Codec

variable {W A : Type} (c : Codec W A)

/-- The elements one after the other. -/
def putArray : {n : Nat} → (Fin n → A) → List W
  | 0, _ => []
  | _ + 1, a => c.put (a 0) ++ putArray (Fin.tail a)

def getArray : (n : Nat) → List W → Option ((Fin n → A) × List W)
  | 0, ws => some (Fin.elim0, ws)
  | n + 1, ws => do
    let (a, ws) ← c.get ws
    let (as, ws) ← getArray n ws
    return (Fin.cons a as, ws)

theorem length_putArray {n : Nat} (a : Fin n → A) : (c.putArray a).length = n * c.width := by
  induction n with
  | zero => simp [putArray]
  | succ n ih => rw [putArray, List.length_append, c.length_put, ih, Nat.succ_mul, Nat.add_comm]

theorem getArray_putArray {n : Nat} (a : Fin n → A) (rest : List W) :
    c.getArray n (c.putArray a ++ rest) = some (a, rest) := by
  induction n with
  | zero => exact congrArg (fun b => some (b, rest)) (Subsingleton.elim ..)
  | succ n ih =>
    rw [putArray, List.append_assoc, getArray, c.get_put]
    simp only [Option.bind_eq_bind, Option.bind_some, ih, pure, Fin.cons_self_tail]

/-- All the elements, counted in another way. -/
theorem putArray_castLE {m n : Nat} (a : Fin n → A) (h : m = n) :
    c.putArray (fun k : Fin m => a (k.castLE h.le)) = c.putArray a := by
  subst h
  rfl

/-- An array of `n` elements. -/
def array (n : Nat) : Codec W (Fin n → A) where
  width := n * c.width
  put := c.putArray
  get := c.getArray n
  length_put := c.length_putArray
  get_put := c.getArray_putArray

end Codec

structure Serializer (W S : Type) where
  save : S → Option (List W)
  load : S → List W → Option (S × List W)

namespace Serializer

variable {W A S V : Type}

def ofCodec (c : Codec W A) : Serializer W A where
  save a := some (c.put a)
  load _ := c.get

/-- A member of the object. -/
def on (l : Lens S V) (s : Serializer W V) : Serializer W S where
  save x := s.save (l.get x)
  load old ws := (s.load (l.get old) ws).map fun (v, rest) => (l.set old v, rest)

/-- First `s`, then `t`. -/
def next (s t : Serializer W S) : Serializer W S where
  save x := do
    let first ← s.save x
    let second ← t.save x
    return first ++ second
  load old ws := do
    let (mid, ws) ← s.load old ws
    t.load mid ws

/-- What `x` writes turns any `old` into `f old`. -/
def Writes (s : Serializer W S) (x : S) (f : S → S) : Prop :=
  ∃ out, s.save x = some out ∧ ∀ old rest, s.load old (out ++ rest) = some (f old, rest)

/-- Read into any object, `x` is there. -/
def Exact (s : Serializer W S) (x : S) : Prop := Writes s x fun _ => x

/-- The number of words. -/
def Takes (s : Serializer W S) (x : S) (n : Nat) : Prop := ∀ out ∈ s.save x, out.length = n

variable {s t : Serializer W S} {x : S} {f g : S → S}

/-! ## Composition -/

theorem exact_ofCodec (c : Codec W A) (a : A) : Exact (ofCodec c) a :=
  ⟨c.put a, rfl, fun _ rest => c.get_put a rest⟩

theorem writes_on {s : Serializer W V} (l : Lens S V) (h : Exact s (l.get x)) :
    Writes (on l s) x fun old => l.set old (l.get x) := by
  obtain ⟨out, hsave, hload⟩ := h
  refine ⟨out, hsave, fun old rest => ?_⟩
  simp only [on, hload, Option.map_some]

theorem writes_next (hs : Writes s x f) (ht : Writes t x g) : Writes (next s t) x (g ∘ f) := by
  obtain ⟨first, hfirst, hs⟩ := hs
  obtain ⟨second, hsecond, ht⟩ := ht
  refine ⟨first ++ second, by simp [next, hfirst, hsecond], fun old rest => ?_⟩
  simp only [next, List.append_assoc, hs, Option.bind_eq_bind, Option.bind_some, ht, Function.comp]

/-- The members that are written make up the object. -/
theorem Writes.exact (h : Writes s x f) (hf : ∀ old, f old = x) : Exact s x := by
  obtain ⟨out, hsave, hload⟩ := h
  exact ⟨out, hsave, fun old rest => by rw [hload, hf]⟩

/-! ## Size -/

theorem takes_ofCodec (c : Codec W A) (a : A) : Takes (ofCodec c) a c.width := by
  intro out h
  cases h
  exact c.length_put a

theorem takes_on {s : Serializer W V} {n : Nat} (l : Lens S V) (h : Takes s (l.get x) n) : Takes (on l s) x n := h

theorem takes_next {m n : Nat} (hs : Takes s x m) (ht : Takes t x n) : Takes (next s t) x (m + n) := by
  intro out h
  simp only [next, Option.bind_eq_bind, Option.mem_def, Option.bind_eq_some_iff, pure, Option.some.injEq] at h
  obtain ⟨first, hfirst, second, hsecond, rfl⟩ := h
  rw [List.length_append, hs first hfirst, ht second hsecond]

end Serializer

end RttRos2.Lib
