/-
  RttRos2.Actions.Slots — what the two slots hold, and in which order goals pass them.

  - `slots_hold`: without a shutdown, whenever `mutex_` is free, the slots hold different
    goals, the active goal is EXECUTING or CANCELING, the pending one ACCEPTED or
    CANCELING, and no goal but the active one is EXECUTING.
  - `goals_in_order`: in every run, goals are stored as pending and made active in the
    order they arrived; whenever `mutex_` is free a pending goal is newer than an active
    one. In the middle of a section the lists of goals stored and made active so far are
    initial parts of the section's final ones (`sem_grows`), so they are increasing too.
-/

import RttRos2.Actions.Runs

namespace RttRos2.Actions

open RttRos2.Lib

variable {A : ActionT} {ok : Op A → Call A → St A → Prop} {s : Sys A}

/-! ## The slots -/

structure Slots (s : St A) : Prop where
  distinct : ∀ g, s.active = some g → s.pending ≠ some g
  active : ∀ g, s.active = some g → s.state g = .executing ∨ s.state g = .canceling
  pending : ∀ g, s.pending = some g → s.state g = .accepted ∨ s.state g = .canceling
  executing : ∀ g, s.state g = .executing → s.active = some g

theorem executing_kept : Kept ok NoShutdown (Executing : St A → Prop) := by
  refine ⟨?_, ?_⟩
  · intro op s t hm _ he h
    refine h.executing (fun th e => ?_) he
    cases hm th .shutdown e
  · intro s g _ he _ _
    exact he

theorem slots_hold (h : Reach (Allowed NoShutdown Anything) s) (hc : s.crit = none) : Slots s.st := by
  obtain ⟨-, hi, he, -⟩ := held_free executing_kept (fun g hg => by cases hg) h hc
  exact ⟨hi.distinct, fun g hg => GoalState.running_iff.mp (hi.running g hg),
    fun g hg => GoalState.deferred_iff.mp (hi.deferred g hg), he⟩

/-- An action whose messages are empty, for the traces. -/
def unitAction : ActionT := ⟨Unit, Unit, ()⟩

/-- Goal 0 is active and asked to cancel; goal 1 is pending. -/
def twoGoals : List (Ev unitAction) :=
  [.start true] ++ arrival ++ handled 3 ++ called (.other 0) (.acceptPending ()) 8 ++ arrival ++ handled 3 ++
    [.cancelCallback 0] ++ calls 2 ++ [.cancelGoal 0]

theorem slots_hold_two_goals :
    ∃ s, run step (Allowed NoShutdown Anything) Sys.init twoGoals = some s ∧ s.st.active = some 0 ∧
      s.st.pending = some 1 ∧ Slots s.st :=
  ⟨_, rfl, rfl, rfl, slots_hold (run_path twoGoals rfl) rfl⟩

/-! ## The order -/

theorem goals_in_order (h : Reach Always s) :
    s.st.stored.Pairwise (· < ·) ∧ s.st.activated.Pairwise (· < ·) ∧
      (s.crit = none → ∀ a p, s.st.active = some a → s.st.pending = some p → a < p) := by
  obtain ⟨-, hh⟩ := held (any_kept _) trivial (reach_allowed h)
  cases hc : s.crit with
  | none =>
    obtain ⟨hi, -, -⟩ := hh.free hc
    refine ⟨hi.storedSorted, hi.activatedSorted, fun _ a p ha hp => ?_⟩
    exact hi.activated_lt hp a (hi.activeLast a ha)
  | some c =>
    obtain ⟨t, hi, -, hg⟩ := hh.finish hc fun _ _ _ => trivial
    exact ⟨hi.storedSorted.sublist hg.stored.sublist, hi.activatedSorted.sublist hg.activated.sublist, nofun⟩

theorem goals_in_order_two_goals :
    ∃ s, run step Always Sys.init twoGoals = some s ∧ s.st.stored = [0, 1] ∧ s.st.activated = [0] ∧
      (s.st.stored.Pairwise (· < ·) ∧ s.st.activated.Pairwise (· < ·) ∧
        (s.crit = none → ∀ a p, s.st.active = some a → s.st.pending = some p → a < p)) :=
  ⟨_, rfl, rfl, rfl, goals_in_order (run_path twoGoals rfl)⟩

end RttRos2.Actions
