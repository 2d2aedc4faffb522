/-
  RttRos2.Actions.Abandon — no goal is abandoned, but for two races with a client's
  cancel request.

  A goal is accounted for when it is in a slot or was brought to a terminal state
  (`Accounted`). Every goal is, when nothing is queued or running, in a run without a
  shutdown in which
  - `acceptedCallback` never finds the pending goal CANCELING: `pendingGoalHandle` hides
    it, so it is overwritten without being terminated (`replaced_goal_is_lost`);
  - `execute()` never finds its goal CANCELING: it throws, and its caller resets the
    slot without terminating the goal.
  Both are `Lost`, the evidence of the only move that drops a goal (`nothing_abandoned`).
-/

import RttRos2.Actions.Slots

namespace RttRos2.Actions

open RttRos2.Lib

variable {A : ActionT} {s : Sys A}

/-- The owner's queue is empty and no callback or method is running. -/
structure Quiescent (s : Sys A) : Prop where
  queue : s.st.queue = []
  owner : s.owner = .idle
  crit : s.crit = none
  accepting : s.accepting = 0

/-- `g` was brought to the state it is in by a call of `SimpleActionServer`. -/
def Finished (s : St A) (g : Nat) : Prop := ∃ st op, (g, st, op) ∈ s.finished ∧ st.terminal = true ∧ s.state g = st

def Accounted (s : St A) (g : Nat) : Prop := s.active = some g ∨ s.pending = some g ∨ Finished s g

def NothingAbandoned (s : Sys A) : Prop := Quiescent s → ∀ g < s.st.arrived, Accounted s.st g

/-- Goal 0 is pending and goal 1 queued when a client cancels goal 0. -/
def replaced : List (Ev unitAction) :=
  [.start true] ++ arrival ++ handled 3 ++ arrival ++ [.cancelCallback 0] ++ calls 3 ++ [.cancelGoal 0] ++
    handled 6 ++ handled 2

theorem replaced_goal_is_lost :
    ∃ s, run step (Allowed NoShutdown Anything) Sys.init replaced = some s ∧ s.st.state 0 = .canceling ∧
      ¬ NothingAbandoned s := by
  refine ⟨_, rfl, rfl, fun h => ?_⟩
  rcases h ⟨rfl, rfl, rfl, rfl⟩ 0 (by decide) with ha | hp | ⟨st, op, hf, -, -⟩
  · cases ha
  · cases hp
  · cases hf

/-! ## When no cancel request gets in the way -/

/-- The call does not find CANCELING the goal that it would then drop. -/
def spares : Op A → Call A → St A → Bool
  | .acceptedCallback _, .isCanceling .pending, s => !s.query .pending GoalState.isCanceling
  | _, .execute r, s => !s.query r GoalState.isCanceling
  | _, _, _ => true

/-- `acceptedCallback` does not find the pending goal CANCELING, nor `execute()` its goal. -/
abbrev NoneCanceling (op : Op A) (c : Call A) (s : St A) : Prop := spares op c s = true

theorem not_lost {op : Op A} {p : Nat} : ¬ Lost NoneCanceling op p := by
  rintro (⟨u, hok, hc⟩ | ⟨u, g, rfl, hok, hp, hc⟩)
  · have hq : u.query (.handle p) GoalState.isCanceling = true := by
      rw [query_of (r := .handle p) rfl, hc]
      rfl
    have : (!u.query (.handle p) GoalState.isCanceling) = true := by cases op <;> exact hok
    rw [hq] at this
    cases this
  · have hq : u.query .pending GoalState.isCanceling = true := by
      rw [query_of (r := .pending) hp, hc]
      rfl
    have : (!u.query .pending GoalState.isCanceling) = true := hok
    rw [hq] at this
    cases this

section
variable {op : Op A} {s t : St A}

theorem Finished.rely {g : Nat} (h : Finished s g) (ht : Rely s t) : Finished t g := by
  obtain ⟨st, op, hf, hst, rfl⟩ := h
  refine ⟨_, op, ?_, hst, (ht.state g).terminal hst⟩
  rw [ht.finished]
  exact hf

/-- The goal itself ends; another one keeps its place. -/
theorem Finished.finish {g g' : Nat} {st : GoalState} (hst : st.terminal = true) (result : A.Result)
    (h : g' = g ∨ Finished s g') : Finished (s.finish op g st result) g' := by
  by_cases e : g' = g
  · subst e
    refine ⟨st, op, List.mem_append_right _ (List.mem_singleton.mpr rfl), hst, ?_⟩
    rw [state_finish, if_pos rfl]
  · obtain ⟨st', op', hf, hst', he⟩ := h.resolve_left e
    refine ⟨st', op', List.mem_append_left _ hf, hst', ?_⟩
    rw [state_finish, if_neg e, he]

/-- Finishing the goal of a slot accounts for all the others as before. -/
theorem Accounted.finish (op : Op A) {g g' : Nat} {st : GoalState} (h : Accounted s g') (hst : st.terminal = true)
    (result : A.Result) :
    (s.active = some g' ∧ g' ≠ g) ∨ (s.pending = some g' ∧ g' ≠ g) ∨ Finished (s.finish op g st result) g' := by
  by_cases e : g' = g
  · exact Or.inr (Or.inr (.finish hst result (Or.inl e)))
  · rcases h with h | h | h
    · exact Or.inl ⟨h, e⟩
    · exact Or.inr (Or.inl ⟨h, e⟩)
    · exact Or.inr (Or.inr (.finish hst result (Or.inr h)))

theorem Accounted.move {g : Nat} (h : Accounted s g) (hm : Move NoneCanceling op s t)
    (hop : ∀ th, op ≠ .call th .shutdown) : Accounted t g := by
  cases hm with
  | rely hr =>
    rcases h with h | h | h
    · exact Or.inl (hr.active.trans h)
    · exact Or.inr (Or.inl (hr.pending.trans h))
    · exact Or.inr (Or.inr (h.rely hr))
  | frame hf =>
    rcases h with h | h | ⟨st, op', h, hst, he⟩
    · exact Or.inl (hf.active.trans h)
    · exact Or.inr (Or.inl (hf.pending.trans h))
    · refine Or.inr (Or.inr ⟨st, op', by rw [hf.finished]; exact h, hst, ?_⟩)
      rw [St.state, hf.goals]
      exact he
  | finishActive g' st result hg hst =>
    rcases h.finish op (g := g') hst.terminal result with ⟨ha, hne⟩ | ⟨hp, -⟩ | hf
    · rw [hg] at ha
      cases ha
      exact absurd rfl hne
    · exact Or.inr (Or.inl hp)
    · exact Or.inr (Or.inr hf)
  | finishPending g' st result hg hst =>
    rcases h.finish op (g := g') hst.terminal result with ⟨ha, -⟩ | ⟨hp, hne⟩ | hf
    · exact Or.inl ha
    · rw [hg] at hp
      cases hp
      exact absurd rfl hne
    · exact Or.inr (Or.inr hf)
  | activate g' hn hg =>
    by_cases e : g = g'
    · subst e
      exact Or.inl rfl
    · rcases h with h | h | ⟨st, op', hf, hst, he⟩
      · rw [hn] at h
        cases h
      · rw [hg] at h
        cases h
        exact absurd rfl e
      · refine Or.inr (Or.inr ⟨st, op', hf, hst, ?_⟩)
        rw [state_dropPending, state_activate, state_move, if_neg e]
        exact he
  | lose g' _ _ hl => exact absurd hl not_lost
  | shutdown th e => exact absurd e (hop th)

end

theorem accounted_kept : Kept NoneCanceling NoShutdown (fun s : St A => ∀ g ∈ s.stored, Accounted s g) := by
  refine ⟨fun op s t hm _ hs h g hg => ?_, fun s g _ hs hn _ x hx => ?_⟩
  · rw [h.stored] at hg
    refine (hs g hg).move h ?_
    intro th e
    cases hm th .shutdown e
  · rcases List.mem_append.mp hx with hx | hx
    · rcases hs x hx with h | h | h
      · exact Or.inl h
      · rw [hn] at h
        cases h
      · exact Or.inr (Or.inr h)
    · rw [List.mem_singleton.mp hx]
      exact Or.inr (Or.inl rfl)

theorem nothing_abandoned (h : Reach (Allowed NoShutdown NoneCanceling) s) : NothingAbandoned s := by
  intro hq g hg
  obtain ⟨hl, -, ha, hs⟩ := held_free accounted_kept (fun g hg => by cases hg) h hq.crit
  -- every goal that arrived was taken from the queue and stored
  have ho := hl.order
  rw [hq.queue, List.filterMap_nil, List.append_nil] at ho
  refine ha g ?_
  rw [hs, Sys.expected, hq.owner, ho, List.mem_range]
  exact hg

/-- A new goal replaces the pending one, is made active, and succeeds. -/
def replacedInTime : List (Ev unitAction) :=
  [.start true] ++ arrival ++ arrival ++ handled 3 ++ handled 10 ++ called (.other 0) (.acceptPending ()) 8 ++
    called (.other 0) (.succeedActive ()) 4

theorem nothing_abandoned_replaced_in_time :
    ∃ s, run step (Allowed NoShutdown NoneCanceling) Sys.init replacedInTime = some s ∧ s.st.state 0 = .aborted ∧
      s.st.state 1 = .succeeded ∧ Quiescent s ∧ NothingAbandoned s :=
  ⟨_, rfl, rfl, rfl, ⟨rfl, rfl, rfl, rfl⟩, nothing_abandoned (run_path replacedInTime rfl)⟩

end RttRos2.Actions
