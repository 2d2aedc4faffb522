/-
  RttRos2.Lib.Path — runs of a system given by a partial step function.

  `step s e` is the state after the event `e`, or `none` when `e` cannot happen in
  `s`. `Path step ok s t` is a run from `s` to `t` each of whose steps meets `ok`, a
  condition on the state before the step and the event. `Always` is no condition.
  - `Path.invariant`: what holds at the start and is kept by every allowed step holds
    in every state reached.
  - `Path.trans`, `Path.mono`: runs compose, and a weaker condition allows more.
  - `Path.map`: what a system shows of itself runs like another system when each step shows
    a step of that one, or nothing.
  - `run` executes a list of events, checking `ok`; `run_path` makes it a run.
  - `Along step P s es`: every event of the list, taken in turn from `s`, happens where
    `P` holds of it; nothing is asked of what follows an event that cannot happen.
  - `Ends step ok s`: no run from `s` goes on forever. `ends_of_wf`: each step lowers a
    well-founded measure.
  - `run_length_le`: each step lowers a measure, but for what the event costs; so the
    length of a run is bounded by the measure and what its events cost (`spent`).
  - `run_filter`: events that do not change a view of the state can be left out of a run
    without the view noticing, when what it shows decides what the others do to it.
-/

namespace RttRos2.Lib

variable {σ ε : Type} (step : σ → ε → Option σ)

inductive Path (ok : σ → ε → Prop) (s : σ) : σ → Prop
  | refl : Path ok s s
  | step {t u : σ} (e : ε) : Path ok s t → ok t e → step t e = some u → Path ok s u

/-- No condition on the steps. -/
def Always : σ → ε → Prop := fun _ _ => True

instance (s : σ) (e : ε) : Decidable (Always s e) := .isTrue trivial

/-- Every event of the list meets `P`; nothing is asked after one that cannot happen. -/
def Along (P : σ → ε → Prop) (s : σ) : List ε → Prop
  | [] => True
  | e :: es => P s e ∧ ∀ t ∈ step s e, Along P t es

variable {step} {ok ok' : σ → ε → Prop} {s t u : σ}

theorem along_congr {P Q : σ → ε → Prop} (h : ∀ s e, P s e ↔ Q s e) (s : σ) (es : List ε) :
    Along step P s es ↔ Along step Q s es := by
  induction es generalizing s with
  | nil => exact Iff.rfl
  | cons e es ih => exact and_congr (h s e) (forall_congr' fun t => forall_congr' fun _ => ih t)

theorem Path.invariant {P : σ → Prop} (h : Path step ok s t) (h0 : P s)
    (hs : ∀ t u e, P t → ok t e → step t e = some u → P u) : P t := by
  induction h with
  | refl => exact h0
  | step e _ hok he ih => exact hs _ _ e ih hok he

theorem Path.mono (h : Path step ok s t) (hok : ∀ t e, ok t e → ok' t e) : Path step ok' s t := by
  induction h with
  | refl => exact .refl
  | step e _ ho he ih => exact .step e ih (hok _ _ ho) he

theorem Path.trans (h : Path step ok s t) (h' : Path step ok t u) : Path step ok s u := by
  induction h' with
  | refl => exact h
  | step e _ ho he ih => exact .step e ih ho he

theorem Path.map {τ δ : Type} {step' : τ → δ → Option τ} {okay : τ → δ → Prop} (f : σ → τ)
    (hf : ∀ s e t, ok s e → step s e = some t → f t = f s ∨ ∃ d, okay (f s) d ∧ step' (f s) d = some (f t))
    (h : Path step ok s t) : Path step' okay (f s) (f t) := by
  induction h with
  | refl => exact .refl
  | step e _ ho he ih =>
    rcases hf _ e _ ho he with hsame | ⟨d, hd, hs⟩
    · exact hsame ▸ ih
    · exact .step d ih hd hs

/-! ## Runs that end -/

variable (step ok) in
/-- Every run from `s` ends. -/
def Ends (s : σ) : Prop := Acc (fun t s => ∃ e, ok s e ∧ step s e = some t) s

theorem ends_of_wf {ν : Type} {r : ν → ν → Prop} (hr : WellFounded r) {I : σ → Prop} {m : σ → ν}
    (hstep : ∀ s e t, I s → ok s e → step s e = some t → I t ∧ r (m t) (m s)) (hs : I s) : Ends step ok s := by
  generalize hv : m s = v
  induction v using hr.induction generalizing s with
  | h v ih =>
    subst hv
    refine ⟨_, fun t ⟨e, hok, he⟩ => ?_⟩
    obtain ⟨ht, hlt⟩ := hstep s e t hs hok he
    exact ih (m t) hlt ht rfl

/-! ## Executing events -/

variable (step ok) [∀ s e, Decidable (ok s e)]

/-- Execute events one after the other; `none` when one is refused. -/
def run (s : σ) : List ε → Option σ
  | [] => some s
  | e :: es => if ok s e then (step s e).bind (run · es) else none

variable {step ok}

theorem run_path (es : List ε) (h : run step ok s es = some t) : Path step ok s t := by
  induction es generalizing s with
  | nil => cases h; exact .refl
  | cons e es ih =>
    simp only [run] at h
    split at h
    · rename_i hok
      obtain ⟨u, hu, h⟩ := Option.bind_eq_some_iff.mp h
      exact (Path.step e .refl hok hu).trans (ih h)
    · cases h

/-! ## Views -/

theorem run_filter {ν : Type} (view : σ → ν) (keep : ε → Bool)
    (skip : ∀ s e t, keep e = false → step s e = some t → view t = view s)
    (follow : ∀ s e t s', keep e = true → step s e = some t → view s' = view s →
      ∃ t', step s' e = some t' ∧ view t' = view t) {s s' : σ} (es : List ε) (hv : view s' = view s)
    (h : run step Always s es = some t) : ∃ t', run step Always s' (es.filter keep) = some t' ∧ view t' = view t := by
  induction es generalizing s s' with
  | nil =>
    cases h
    exact ⟨s', rfl, hv⟩
  | cons e es ih =>
    rw [run, if_pos (show Always s e from trivial)] at h
    obtain ⟨u, hu, h⟩ := Option.bind_eq_some_iff.mp h
    cases hk : keep e with
    | false =>
      rw [List.filter_cons_of_neg (by simp [hk])]
      exact ih (hv.trans (skip s e u hk hu).symm) h
    | true =>
      obtain ⟨u', hu', hvu⟩ := follow s e u s' hk hu hv
      obtain ⟨t', ht', hvt⟩ := ih hvu h
      rw [List.filter_cons_of_pos hk]
      refine ⟨t', ?_, hvt⟩
      rw [run, if_pos (show Always s' e from trivial), hu']
      exact ht'

/-! ## The length of runs -/

variable (step) in
/-- What the events of a run cost, each in the state it finds. -/
def spent (cost : σ → ε → Nat) (s : σ) : List ε → Nat
  | [] => 0
  | e :: es => cost s e + (step s e).elim 0 (spent cost · es)

theorem run_length_le {I : σ → Prop} {m : σ → Nat} (cost : σ → ε → Nat)
    (hstep : ∀ s e t, I s → ok s e → step s e = some t → I t ∧ m t + 1 ≤ m s + cost s e) (es : List ε) (hs : I s)
    (h : run step ok s es = some t) : es.length + m t ≤ m s + spent step cost s es := by
  induction es generalizing s with
  | nil =>
    cases h
    exact Nat.le_of_eq (Nat.zero_add _)
  | cons e es ih =>
    simp only [run] at h
    split at h
    · rename_i hok
      obtain ⟨u, hu, h⟩ := Option.bind_eq_some_iff.mp h
      obtain ⟨hIu, hm⟩ := hstep s e u hs hok hu
      have hes := ih hIu h
      rw [List.length_cons, spent, hu, Option.elim_some]
      omega
    · cases h

end RttRos2.Lib
