/-
  RttRos2.Lib.While — a loop that runs its body while the guard holds.

  `body s` is the state after one turn in `s`, or `none` when the guard is false. `loop n s`
  is the state the loop ends in, started in `s`, or `none` when it has not ended after `n`
  turns; `turns n s` are the states it takes its turns in.
  - `loop_ends`: an invariant of the turns taken and the state, and a number that every
    turn makes smaller, give a state in which the loop ends and the invariant holds.
-/

namespace RttRos2.Lib

variable {σ : Type} (body : σ → Option σ)

def loop : Nat → σ → Option σ
  | 0, s => if (body s).isNone then some s else none
  | n + 1, s =>
    match body s with
    | none => some s
    | some t => loop n t

def turns : Nat → σ → List σ
  | 0, _ => []
  | n + 1, s =>
    match body s with
    | none => []
    | some t => s :: turns n t

variable {body}

theorem loop_of_none {s : σ} (h : body s = none) (n : Nat) : loop body n s = some s ∧ turns body n s = [] := by
  cases n with
  | zero => simp [loop, turns, h]
  | succ n => simp [loop, turns, h]

theorem loop_of_some {s t : σ} (h : body s = some t) (n : Nat) :
    loop body (n + 1) s = loop body n t ∧ turns body (n + 1) s = s :: turns body n t := by
  simp [loop, turns, h]

/-- `hs`: the turns taken before. -/
theorem loop_ends {I : List σ → σ → Prop} (variant : σ → Nat)
    (hstep : ∀ hs s t, I hs s → body s = some t → I (hs ++ [s]) t ∧ variant t < variant s)
    {n : Nat} {hs : List σ} {s : σ} (hn : variant s ≤ n) (h : I hs s) :
    ∃ t, loop body n s = some t ∧ body t = none ∧ I (hs ++ turns body n s) t := by
  induction n generalizing hs s with
  | zero =>
    cases hb : body s with
    | none =>
      have hl := loop_of_none hb 0
      exact ⟨s, hl.1, hb, by rw [hl.2, List.append_nil]; exact h⟩
    | some t =>
      have := (hstep hs s t h hb).2
      omega
  | succ n ih =>
    cases hb : body s with
    | none =>
      have hl := loop_of_none hb (n + 1)
      exact ⟨s, hl.1, hb, by rw [hl.2, List.append_nil]; exact h⟩
    | some t =>
      obtain ⟨hI, hv⟩ := hstep hs s t h hb
      have hl := loop_of_some hb n
      rw [hl.1, hl.2, List.append_cons]
      exact ih (by omega) hI

end RttRos2.Lib
