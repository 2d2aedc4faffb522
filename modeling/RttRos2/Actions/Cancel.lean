/-
  RttRos2.Actions.Cancel — the terminal state `cancelHandler` brings a goal to.

  `cancelCallback` queues the handler, and only then does `rclcpp_action` move the goal
  to CANCELING. When the owner is faster, the handler finds the goal EXECUTING (or
  ACCEPTED, when it is pending) and finishes it as ABORTED (`late_cancel_aborts`).
  When the goal is CANCELING by the time the handler looks (`CancelSeen`), it is
  CANCELED, in every run (`handler_cancels`): by the time `finishActive` tests
  `is_canceling()`, or, for a pending goal, by the time `terminateGoal` executes it.
-/

import RttRos2.Actions.Slots

namespace RttRos2.Actions

open RttRos2.Lib

variable {A : ActionT} {s : Sys A}

/-- The goal of the `cancelHandler` a section belongs to. -/
def Op.handler? : Op A → Option Nat
  | .cancelHandler g | .cancelHandlerFinish g => some g
  | _ => none

/-- What `cancelHandler` finished for an accepted cancel request is CANCELED. -/
def HandlerCancels (s : Sys A) : Prop :=
  ∀ g ∈ s.accepts, ∀ st op, op.handler? = some g → (g, st, op) ∈ s.st.finished → st = .canceled

/-- Goal 0 is active; its cancel request is accepted, handled, and only then does the goal
    move to CANCELING. -/
def lateCancel : List (Ev unitAction) :=
  [.start true] ++ arrival ++ handled 3 ++ called (.other 0) (.acceptPending ()) 8 ++ [.cancelCallback 0] ++ calls 2 ++
    handled 2 ++ [.lock] ++ calls 6 ++ [.cancelGoal 0]

theorem late_cancel_aborts : ∃ s, run step Always Sys.init lateCancel = some s ∧ ¬ HandlerCancels s := by
  refine ⟨_, rfl, fun h => ?_⟩
  have := h 0 (.head _) .aborted (.cancelHandlerFinish 0) rfl (.head _)
  cases this

/-! ## When the goal is CANCELING in time -/

/-- The call finds CANCELING the goal whose terminal state depends on it. -/
def Call.findsCanceling (s : St A) : Call A → Bool
  | .isCanceling .active => s.query .active GoalState.isCanceling
  | .execute r => s.query r GoalState.isCanceling
  | _ => true

/-- `cancelHandler` finds its goal CANCELING. -/
abbrev CancelSeen (op : Op A) (c : Call A) (s : St A) : Prop := op.handler?.isSome = true → c.findsCanceling s = true

/-- All that handlers finished so far is CANCELED. -/
def Clean (s : St A) : Prop := ∀ x ∈ s.finished, x.2.2.handler?.isSome = true → x.2.1 = .canceled

/-- Once a handler aborted a goal, nothing more is asked of the run. -/
def Seen (op : Op A) (c : Call A) (s : St A) : Prop := CancelSeen op c s ∨ ¬ Clean s

theorem Clean.of_finished {s t : St A} (h : Clean s) (ht : t.finished = s.finished) : Clean t := by
  unfold Clean
  rw [ht]
  exact h

theorem Seen.cancelSeen {op : Op A} {c : Call A} {s u : St A} (h : Seen op c u) (hs : Clean s)
    (hu : u.finished = s.finished) : CancelSeen op c u := by
  rcases h with h | h
  · exact h
  · exact absurd (hs.of_finished hu) h

/-- A handler that sees CANCELING does not abort. -/
theorem Ends.of_seen {op : Op A} {s : St A} {g : Nat} {st : GoalState} (h : Ends Seen op s g st) (hs : Clean s)
    (hop : op.handler?.isSome = true) : st = .canceled := by
  cases h with
  | canceled => rfl
  | aborted hok hu ha hc =>
    have hq := hok.cancelSeen hs hu hop
    rw [Call.findsCanceling, query_of (r := .active) ha, GoalState.isCanceling_iff] at hq
    exact absurd hq hc
  | rejected hok hu ha =>
    have hq := hok.cancelSeen hs hu hop
    rw [Call.findsCanceling, query_of (r := .handle g) rfl, ha] at hq
    cases hq
  | succeeded th result e =>
    subst e
    cases hop

theorem Clean.finish {op : Op A} {s : St A} {g : Nat} {st : GoalState} (hs : Clean s) (h : Ends Seen op s g st)
    (result : A.Result) : Clean (s.finish op g st result) := by
  intro x hx hop
  rcases List.mem_append.mp hx with hx | hx
  · exact hs x hx hop
  · rw [List.mem_singleton] at hx
    subst hx
    exact h.of_seen hs hop

theorem clean_kept (meth : Method A → Prop) : Kept Seen meth (Clean : St A → Prop) := by
  refine ⟨fun op s t _ _ hs h => ?_, fun s g _ hs _ _ => hs⟩
  cases h with
  | rely h => exact hs.of_finished h.finished
  | frame h => exact hs.of_finished h.finished
  | finishActive g st result _ he => exact hs.finish he result
  | finishPending g st result _ he => exact hs.finish he result
  | _ => exact hs

theorem handler_cancels (h : Reach (Allowed (fun _ => True) CancelSeen) s) : HandlerCancels s := by
  have h' : Reach (Allowed (fun _ => True) Seen) s := by
    apply h.mono
    intro t e ht
    cases e with
    | run => exact fun op c k hc => Or.inl (ht op c k hc)
    | _ => trivial
  obtain ⟨-, hh⟩ := held (clean_kept _) (fun x hx => by cases hx) h'
  have hclean : Clean s.st := by
    cases hc : s.crit with
    | none => exact (hh.free hc).2.1
    | some c =>
      by_contra hbad
      have hback : ∀ t, Grows s.st t → Clean t → Clean s.st := fun t ht hct x hx => hct x (ht.finished.subset hx)
      obtain ⟨t, -, hct, ht⟩ := hh.finish hc fun x t ht => Or.inr fun hct => hbad (hback t ht hct)
      exact hbad (hback t ht hct)
  intro g _ st op hop hf
  exact hclean _ hf (by rw [hop]; rfl)

/-- The CANCELING step comes before the handler. -/
def timelyCancel : List (Ev unitAction) :=
  [.start true] ++ arrival ++ handled 3 ++ called (.other 0) (.acceptPending ()) 8 ++ [.cancelCallback 0] ++ calls 2 ++
    [.cancelGoal 0] ++ handled 2 ++ [.lock] ++ calls 7

theorem handler_cancels_timely :
    ∃ s, run step (Allowed (fun _ => True) CancelSeen) Sys.init timelyCancel = some s ∧ s.st.state 0 = .canceled ∧
      HandlerCancels s :=
  ⟨_, rfl, rfl, handler_cancels (run_path timelyCancel rfl)⟩

end RttRos2.Actions
