/-
  RttRos2.Actions.Rely — what other threads may do to the shared state while a section
  of `mutex_` runs.

  They accept and queue goals, take operations from the queue, start the server, and
  move goals to CANCELING; the slots, the hooks and the results are the section's own.
  `Rely` says so, and it commutes with whatever the section does next: a section's
  effect can be stated as one change of the state it entered in, followed by `Rely`.
-/

import RttRos2.Actions.System

namespace RttRos2.Actions

open RttRos2.Lib

variable {A : ActionT} {s t u : St A} {op : Op A} {g p : Nat} {st : GoalState} {result : A.Result}

structure Rely (s t : St A) : Prop where
  active : t.active = s.active
  pending : t.pending = s.pending
  goalHook : t.goalHook = s.goalHook
  cancelHook : t.cancelHook = s.cancelHook
  feedback : t.feedback = s.feedback
  stored : t.stored = s.stored
  activated : t.activated = s.activated
  finished : t.finished = s.finished
  arrived : s.arrived ≤ t.arrived
  result : ∀ g, (t.goals g).result = (s.goals g).result
  state : ∀ g, (s.state g).Cancels (t.state g)

theorem Rely.refl (s : St A) : Rely s s :=
  ⟨rfl, rfl, rfl, rfl, rfl, rfl, rfl, rfl, Nat.le_refl _, fun _ => rfl, fun _ => .refl _⟩

theorem Rely.trans (h1 : Rely s t) (h2 : Rely t u) : Rely s u :=
  ⟨h2.active.trans h1.active, h2.pending.trans h1.pending, h2.goalHook.trans h1.goalHook,
    h2.cancelHook.trans h1.cancelHook, h2.feedback.trans h1.feedback, h2.stored.trans h1.stored,
    h2.activated.trans h1.activated, h2.finished.trans h1.finished, Nat.le_trans h1.arrived h2.arrived,
    fun g => (h2.result g).trans (h1.result g), fun g => (h1.state g).trans (h2.state g)⟩

/-- What a section runs against, its calls being made only in states that `ok` admits. -/
def setting (ok : Op A → Call A → St A → Prop) (op : Op A) : Setting (Call A) Call.Res (St A) :=
  ⟨sem op, Rely, ok op, Rely.refl, Rely.trans⟩

/-! ## The other threads' steps -/

theorem rely_arrive (s : St A) : Rely s s.arrive := { Rely.refl s with arrived := Nat.le_succ _ }

theorem rely_queue (s : St A) (q : List Work) : Rely s { s with queue := q } := { Rely.refl s with }

theorem rely_connected (s : St A) (b : Bool) : Rely s { s with connected := b } := { Rely.refl s with }

theorem state_move (s : St A) (g : Nat) (st : GoalState) (g' : Nat) :
    (s.move g st).state g' = if g' = g then st else s.state g' := by
  simp only [St.state, St.move, Function.update_apply]
  split <;> rfl

theorem state_finish (s : St A) (op : Op A) (g : Nat) (st : GoalState) (result : A.Result) (g' : Nat) :
    (s.finish op g st result).state g' = if g' = g then st else s.state g' := by
  simp only [St.state, St.finish, Function.update_apply]
  split <;> rfl

theorem rely_cancelGoal (s : St A) (g : Nat) : Rely s (s.cancelGoal g) := by
  unfold St.cancelGoal
  split
  · exact Rely.refl s
  · rename_i st hst
    refine { Rely.refl s with result := fun g' => ?_, state := fun g' => ?_ }
    · simp only [St.move, Function.update_apply]
      split <;> simp_all
    · rw [state_move]
      split
      · rename_i e; subst e; exact Or.inr hst
      · exact .refl _

/-- What a step does to the shared state: what other threads may do, or a call of the section. -/
theorem step_st {s t : Sys A} {e : Ev A} (h : step s e = some t) :
    Rely s.st t.st ∨ ∃ op c k, s.crit = some ⟨op, .call c k⟩ ∧ t.st = (sem op c s.st).2 := by
  cases step_cases h with
  | handleAccepted => exact .inl (rely_arrive _)
  | cancelGoal g => exact .inl (rely_cancelGoal _ g)
  | start created => exact .inl (rely_connected _ _)
  | dequeue w r => exact .inl (rely_queue _ _)
  | run op c k hc => exact .inr ⟨op, c, k, hc, rfl⟩
  | unlock op v =>
    rw [leave_st]
    exact .inl (.refl _)
  | _ => exact .inl (.refl _)

/-! ## What a section does commutes with them -/

@[simp] theorem state_activate (s : St A) (g g' : Nat) : (s.activate g).state g' = s.state g' := rfl
@[simp] theorem state_dropActive (s : St A) (g : Nat) : s.dropActive.state g = s.state g := rfl
@[simp] theorem state_dropPending (s : St A) (g : Nat) : s.dropPending.state g = s.state g := rfl

theorem Rely.dropActive (h : Rely s t) : Rely s.dropActive t.dropActive :=
  { h with active := rfl, state := h.state }

theorem Rely.dropPending (h : Rely s t) : Rely s.dropPending t.dropPending :=
  { h with pending := rfl, state := h.state }

theorem Rely.store (h : Rely s t) (g : Nat) : Rely (s.store g) (t.store g) :=
  { h with pending := rfl, stored := by simp only [St.store, h.stored], state := h.state }

theorem Rely.activate (h : Rely s t) (g : Nat) : Rely (s.activate g) (t.activate g) :=
  { h with active := rfl, activated := by simp only [St.activate, h.activated], state := h.state }

theorem Rely.move (h : Rely s t) (g : Nat) (st : GoalState) : Rely (s.move g st) (t.move g st) := by
  refine { h with result := fun g' => ?_, state := fun g' => ?_ }
  · simp only [St.move, Function.update_apply]
    split
    · exact h.result g
    · exact h.result g'
  · rw [state_move, state_move]
    split
    · exact .refl _
    · exact h.state g'

theorem Rely.finish (h : Rely s t) (op : Op A) (g : Nat) (st : GoalState) (result : A.Result) :
    Rely (s.finish op g st result) (t.finish op g st result) := by
  refine { h with finished := by simp only [St.finish, h.finished], result := fun g' => ?_, state := fun g' => ?_ }
  · simp only [St.finish, Function.update_apply]
    split
    · rfl
    · exact h.result g'
  · rw [state_finish, state_finish]
    split
    · exact .refl _
    · exact h.state g'

/-- A goal executed only to be finished. -/
theorem finish_move (s : St A) (op : Op A) (g : Nat) (st st' : GoalState) (result : A.Result) :
    (s.move g st').finish op g st result = s.finish op g st result := by
  simp [St.finish, St.move]

end RttRos2.Actions
