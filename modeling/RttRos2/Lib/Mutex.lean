/-
  RttRos2.Lib.Mutex — threads that share a mutex.

  `Exclusive inside holder`: a thread that is inside holds the mutex, so no two are. It is
  kept when the mutex is taken (`acquire`) and given up (`release`), by what its holder does
  inside (`within`), and by steps that bring nobody inside (`outside`).
-/

namespace RttRos2.Lib

variable {T : Type} {inside inside' : T → Prop} {holder : Option T} {t t' : T}

def Exclusive (inside : T → Prop) (holder : Option T) : Prop := ∀ t, inside t → holder = some t

namespace Exclusive

theorem free (h : Exclusive inside none) (t : T) : ¬ inside t := by
  intro ht
  cases h t ht

theorem eq_of_inside (h : Exclusive inside (some t)) (h' : inside t') : t' = t :=
  (Option.some.inj (h t' h')).symm

theorem outside (h : Exclusive inside holder) (hsub : ∀ t, inside' t → inside t) : Exclusive inside' holder :=
  fun t ht => h t (hsub t ht)

variable (hothers : ∀ t', t' ≠ t → inside' t' → inside t')
include hothers

theorem acquire (h : Exclusive inside none) : Exclusive inside' (some t) := by
  intro t' ht'
  by_cases hne : t' = t
  · rw [hne]
  · exact absurd (hothers t' hne ht') (h.free t')

theorem within (h : Exclusive inside (some t)) : Exclusive inside' (some t) := by
  intro t' ht'
  by_cases hne : t' = t
  · rw [hne]
  · exact absurd (h.eq_of_inside (hothers t' hne ht')) hne

theorem release (h : Exclusive inside (some t)) (ht : ¬ inside' t) : Exclusive inside' none := by
  intro t' ht'
  by_cases hne : t' = t
  · rw [hne] at ht'
    exact absurd ht' ht
  · exact absurd (h.eq_of_inside (hothers t' hne ht')) hne

end Exclusive

end RttRos2.Lib
