/-
  RttRos2.Actions.Progress — no deadlock: once clients and callers are done, the threads of
  a `SimpleActionServer` finish all their work.

  `owner_drains`: from every reachable state, with no more requests and no more calls of
  public methods,
  - no run goes on forever;
  - where a run ends every goal that `rclcpp_action` had accepted has arrived and was stored
    in the pending slot, in order; every goal to be canceled was moved on; no section is
    left, the queue is empty and the owner's thread is idle.

  The measure: first what is left of a section of another thread, the only one that may
  send the owner an operation (`sends`); then the work there is, counted so that a step of
  the owner, and taking the mutex, lowers it (`work`); then what is left of the owner's own
  section.
-/

import Mathlib.Data.Prod.Lex
import RttRos2.Actions.Abandon
import RttRos2.Actions.Results

namespace RttRos2.Actions

open RttRos2.Lib

variable {A : ActionT} {op : Op A} {s t : Sys A} {e : Ev A}

/-- A step that brings no new request and no new call of a public method. -/
def Ev.drains : Ev A → Bool
  | .accept | .cancelCallback _ | .start _ | .call _ _ => false
  | _ => true

abbrev Drains (_ : Sys A) (e : Ev A) : Prop := e.drains = true

/-! ## What is left to do -/

/-- A section of the owner's operations. -/
def Op.own : Op A → Bool
  | .acceptedCallback _ | .cancelHandler _ | .cancelHandlerFinish _ => true
  | _ => false

/-- What is left of the section that holds `mutex_`, if it is one of the owner's operations
    or if it is another one. -/
def Sys.left (s : Sys A) (own : Bool) : Option (M A Ret) :=
  match s.crit with
  | some ⟨op, p⟩ => if op.own = own then some p else none
  | none => none

/-- How far the owner's thread is from being idle. -/
def Owner.stage : Owner → Nat
  | .idle => 0
  | .handlerFinish _ | .goalHook _ => 1
  | .cancelHook _ | .acceptedHook _ => 2
  | .handlerHook _ | .accepted _ => 3
  | .handler _ => 4

def Sys.work (s : Sys A) : Nat :=
  12 * s.accepting + 10 * s.st.queue.length + s.cancels.length + 2 * s.owner.stage + if s.crit.isNone then 1 else 0

/-- The order of what is left to do. -/
abbrev Less : Option (M A Ret) × Nat × Option (M A Ret) → Option (M A Ret) × Nat × Option (M A Ret) → Prop :=
  Prod.Lex Prog.Left (Prod.Lex (· < ·) Prog.Left)

theorem less_wf : WellFounded (Less (A := A)) := left_wf.prod_lex (Nat.lt_wfRel.wf.prod_lex left_wf)

def Sys.rest (s : Sys A) : Option (M A Ret) × Nat × Option (M A Ret) := (s.left false, s.work, s.left true)

theorem less_work (hl : t.left false = s.left false) (hw : t.work < s.work) : Less t.rest s.rest := by
  unfold Sys.rest
  rw [hl]
  exact .right _ (.left _ _ hw)

/-! ## The owner's sections -/

/-- A section of the owner's operations leaves the queue as it is. -/
theorem own_queue {c : Call A} {k : c.Res → M A Ret} (h : Reach Always s) (hc : s.crit = some ⟨op, .call c k⟩)
    (ho : op.own = true) : (sem op c s.st).2.queue = s.st.queue := by
  obtain ⟨s₀, l, -, hex⟩ := reach_exec h hc
  have hplain : op.body.Only fun c => c.plain = true := by
    refine body_plain (fun th f he => ?_) fun g he => ?_
    · rw [he] at ho
      cases ho
    · rw [he] at ho
      cases ho
  have hp : c.plain = true := (only_exec hplain hex).2.1
  cases c with
  | sendCancelHandler g | publishFeedback r f => cases hp
  | setActive o => cases o <;> rfl
  | setPending o => cases o <;> rfl
  | execute r =>
    simp only [sem, St.execute]
    split
    · rfl
    · split <;> rfl
  | succeed r result | abort r result | canceled r result =>
    simp only [sem, St.terminate]
    split
    · rfl
    · split <;> rfl
  | _ => rfl

/-- The first section of `cancelHandler` tells whether there is a hook. -/
theorem cancelHandler_returns {g : Nat} {v : Ret} (h : Reach Always s) (hc : s.crit = some ⟨.cancelHandler g, .ret v⟩) :
    ∃ o, v = .hook o := by
  obtain ⟨s₀, l, -, hex⟩ := reach_exec h hc
  have hw : wp (setting Anything (.cancelHandler g)) (Op.cancelHandler g : Op A).body (fun v _ => ∃ o, v = .hook o)
      s₀ := wp_bind (wp_trivial fun o _ => wp_pure fun _ _ => ⟨o, rfl⟩)
  exact wp_ret (wp_exec hw hex fun _ _ => trivial)

/-- The owner's thread moves on when its section returns. -/
theorem leave_stage {v : Ret} (h : Reach Always s) (hc : s.crit = some ⟨op, .ret v⟩) (ho : op.own = true) :
    (leave s op v).owner.stage < s.owner.stage ∧ (leave s op v).accepting = s.accepting ∧
      (leave s op v).cancels = s.cancels := by
  obtain ⟨hat, hw⟩ := (held (any_kept _) trivial (reach_allowed h)).2.inside hc
  obtain ⟨-, -, -, hv⟩ := wp_ret hw
  cases op with
  | call th m | cancelCallback g => cases ho
  | acceptedCallback g =>
    have hs : s.owner = .accepted g := hat
    obtain ⟨b, rfl⟩ := hv
    cases b <;> exact ⟨by simp [hs, leave, Owner.stage], rfl, rfl⟩
  | cancelHandler g =>
    have hs : s.owner = .handler g := hat
    obtain ⟨o, rfl⟩ := cancelHandler_returns h hc
    rcases o with _ | _ | _ <;> exact ⟨by simp [hs, leave, Owner.stage], rfl, rfl⟩
  | cancelHandlerFinish g =>
    have hs : s.owner = .handlerFinish g := hat
    exact ⟨by simp [hs, leave, Owner.stage], rfl, rfl⟩

theorem left_of_crit {p : M A Ret} (hc : s.crit = some ⟨op, p⟩) (own : Bool) :
    s.left own = if op.own = own then some p else none := by
  rw [Sys.left, hc]

theorem left_of_free (hc : s.crit = none) (own : Bool) : s.left own = none := by
  rw [Sys.left, hc]

/-! ## One step -/

theorem step_less (h : Reach Always s) (hd : e.drains = true) (he : step s e = some t) : Less t.rest s.rest := by
  cases step_cases he with
  | accept | cancelCallback | start | call => cases hd
  | handleAccepted hne =>
    refine less_work rfl ?_
    simp only [Sys.work, St.arrive, List.length_append, List.length_singleton]
    omega
  | cancelGoal g hg =>
    refine less_work rfl ?_
    have hpos := List.length_pos_of_mem hg
    simp only [Sys.work, (cancelGoal_queue s.st g).1, List.length_erase_of_mem hg]
    omega
  | dequeue w r hi hn hq =>
    refine less_work rfl ?_
    have hidle : s.owner.stage = 0 := by rw [hi]; rfl
    have hw : w.owner.stage ≤ 4 := by cases w <;> simp [Work.owner, Owner.stage]
    simp only [Sys.work, hq, List.length_cons]
    omega
  | lock op hc hop =>
    have ho : op.own = true := by
      cases hs : s.owner <;> rw [hs] at hop <;> cases hop <;> rfl
    refine less_work ?_ ?_
    · rw [left_of_crit rfl, left_of_free hc, ho]
      rfl
    · simp only [Sys.work, enter, hc, Option.isNone_some, Option.isNone_none, Bool.false_eq_true, if_false, if_true]
      omega
  | run op c k hc =>
    cases ho : op.own with
    | false =>
      refine .left _ _ ?_
      rw [left_of_crit rfl, left_of_crit hc, ho, if_pos rfl, if_pos rfl]
      exact .call c k _
    | true =>
      have hf : ({ s with st := (sem op c s.st).2, crit := some ⟨op, k (sem op c s.st).1⟩ } : Sys A).left false =
          s.left false := by
        rw [left_of_crit rfl, left_of_crit hc, ho]
        rfl
      have hw : ({ s with st := (sem op c s.st).2, crit := some ⟨op, k (sem op c s.st).1⟩ } : Sys A).work = s.work := by
        simp only [Sys.work, own_queue h hc ho, hc, Option.isNone_some]
      unfold Sys.rest
      rw [hf, hw]
      refine .right _ (.right _ ?_)
      rw [left_of_crit rfl, left_of_crit hc, ho, if_pos rfl, if_pos rfl]
      exact .call c k _
  | unlock op v hc =>
    have hfree : ∀ own, (leave s op v).left own = none := left_of_free (leave_crit s op v)
    cases ho : op.own with
    | false =>
      refine .left _ _ ?_
      rw [hfree, left_of_crit hc, ho, if_pos rfl]
      exact .none _
    | true =>
      obtain ⟨hstage, hacc, hcan⟩ := leave_stage h hc ho
      refine less_work ?_ ?_
      · rw [hfree, left_of_crit hc, ho]
        rfl
      · simp only [Sys.work, hacc, hcan, leave_st, leave_crit, hc, Option.isNone_some, Option.isNone_none,
          Bool.false_eq_true, if_false, if_true]
        omega
  | goalHook g ho | cancelHook g ho =>
    refine less_work rfl ?_
    simp only [Sys.work, ho, Owner.stage]
    omega
  | goalHookReturn g hn ho | cancelHookReturn g hn ho =>
    refine less_work rfl ?_
    simp only [Sys.work, ho, Owner.stage]
    omega

/-! ## The end -/

/-- No thread can take a step that brings nothing new. -/
def Stuck (s : Sys A) : Prop := ∀ e, e.drains = true → step s e = none

theorem stuck_quiescent (hs : Stuck s) : Quiescent s ∧ s.cancels = [] := by
  have hcrit : s.crit = none := by
    cases hc : s.crit with
    | none => rfl
    | some c =>
      obtain ⟨op, p⟩ := c
      cases p with
      | ret v =>
        have hu := hs .unlock rfl
        rw [step, hc] at hu
        cases hu
      | call c k =>
        have hr := hs .run rfl
        rw [step, hc] at hr
        cases hr
  have hcalls : s.ownerCalls = false := by rw [Sys.ownerCalls, hcrit]
  have hidle : s.owner = .idle := by
    have hlock := hs .lock rfl
    have hhook := hs .hook rfl
    have hreturn := hs .hookReturn rfl
    cases ho : s.owner <;> simp [step, ho, hcrit, hcalls, Owner.op] at hlock hhook hreturn
    rfl
  have hqueue : s.st.queue = [] := by
    cases hq : s.st.queue with
    | nil => rfl
    | cons w r =>
      have hd := hs .dequeue rfl
      rw [step, if_pos ⟨hidle, hcalls⟩, hq] at hd
      cases hd
  have haccepting : s.accepting = 0 := by
    by_contra hne
    have ha := hs .handleAccepted rfl
    rw [step, if_neg hne] at ha
    cases ha
  refine ⟨⟨hqueue, hidle, hcrit, haccepting⟩, ?_⟩
  cases hc : s.cancels with
  | nil => rfl
  | cons g r =>
    have hg := hs (.cancelGoal g) rfl
    rw [step, if_pos (by rw [hc]; exact .head _)] at hg
    cases hg

theorem step_arrived (hd : e.drains = true) (he : step s e = some t) :
    t.st.arrived + t.accepting = s.st.arrived + s.accepting := by
  cases step_cases he with
  | accept | cancelCallback | start | call => cases hd
  | handleAccepted hne =>
    simp only [St.arrive]
    omega
  | cancelGoal g => rw [(cancelGoal_queue s.st g).2]
  | run op c k => rw [(sem_queue op c s.st).2]
  | unlock op v hc =>
    have hacc : (leave s op v).accepting = s.accepting := by
      unfold leave
      split <;> rfl
    rw [leave_st, hacc]
  | _ => rfl

theorem owner_drains (h : Reach Always s) :
    Lib.Ends step Drains s ∧ ∀ t, Path step Drains s t → (∀ e, Drains t e → step t e = none) →
      Quiescent t ∧ t.cancels = [] ∧ t.st.arrived = s.st.arrived + s.accepting ∧
        t.st.stored = List.range t.st.arrived := by
  refine ⟨ends_of_wf less_wf (I := Reach Always) (m := Sys.rest) ?_ h, fun t hp hs => ?_⟩
  · exact fun u e v hu hd he => ⟨.step e hu trivial he, step_less hu hd he⟩
  obtain ⟨hq, hcancels⟩ := stuck_quiescent hs
  have ht : Reach Always t := h.trans (hp.mono fun _ _ _ => trivial)
  have harrived : t.st.arrived + t.accepting = s.st.arrived + s.accepting :=
    hp.invariant (P := fun u => u.st.arrived + u.accepting = s.st.arrived + s.accepting) rfl
      fun u v e hu hd he => (step_arrived hd he).trans hu
  rw [hq.accepting, Nat.add_zero] at harrived
  refine ⟨hq, hcancels, harrived, ?_⟩
  -- with nothing queued, all that arrived was taken, and stored when the owner was done
  obtain ⟨hl, -, -, hstored⟩ := held_free (any_kept _) trivial (reach_allowed ht) hq.crit
  have ho := hl.order
  rw [hq.queue, List.filterMap_nil, List.append_nil] at ho
  rw [hstored, Sys.expected, hq.owner, ho]

/-- Goal 0 is active and being canceled, goal 1 is in the queue and another goal about to
    arrive. -/
def busy : List (Ev unitAction) :=
  [.start true] ++ arrival ++ handled 3 ++ called (.other 0) (.acceptPending ()) 8 ++ arrival ++
    [.accept, .cancelCallback 0, .run]

theorem owner_drains_busy :
    ∃ s, run step Always Sys.init busy = some s ∧ s.crit.isSome = true ∧ s.st.arrived = 2 ∧ s.accepting = 1 ∧
      Lib.Ends step Drains s ∧ ∀ t, Path step Drains s t → (∀ e, Drains t e → step t e = none) →
        Quiescent t ∧ t.cancels = [] ∧ t.st.arrived = s.st.arrived + s.accepting ∧
          t.st.stored = List.range t.st.arrived :=
  ⟨_, rfl, rfl, rfl, rfl, owner_drains (run_path busy rfl)⟩

end RttRos2.Actions
