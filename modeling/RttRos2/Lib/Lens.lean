/-
  RttRos2.Lib.Lens — a part of a whole that can be read and replaced.

  `get` reads the part, `set` puts another one in its place. The laws are fields, so every
  lens is lawful: what was set is read, setting what was read changes nothing, and the
  last of two values set stays.
  - `Lens.comp`: a part of a part.
  - `Lens.eq_iff`: a whole is determined by a part and by what is left when the part is
    overwritten.
-/

namespace RttRos2.Lib

structure Lens (S V : Type) where
  get : S → V
  set : S → V → S
  get_set : ∀ s v, get (set s v) = v := by intros; rfl
  set_get : ∀ s, set s (get s) = s := by intros; rfl
  set_set : ∀ s v w, set (set s v) w = set s w := by intros; rfl

namespace Lens

variable {S V W : Type}

def comp (l : Lens S V) (m : Lens V W) : Lens S W where
  get s := m.get (l.get s)
  set s w := l.set s (m.set (l.get s) w)
  get_set s w := by rw [l.get_set, m.get_set]
  set_get s := by rw [m.set_get, l.set_get]
  set_set s v w := by rw [l.get_set, m.set_set, l.set_set]

theorem eq_iff (l : Lens S V) {s t : S} : s = t ↔ l.get s = l.get t ∧ ∀ v, l.set s v = l.set t v := by
  constructor
  · rintro rfl
    exact ⟨rfl, fun _ => rfl⟩
  · intro ⟨hg, hs⟩
    calc s = l.set s (l.get s) := (l.set_get s).symm
      _ = l.set t (l.get t) := by rw [hs, hg]
      _ = t := l.set_get t

end Lens

end RttRos2.Lib
