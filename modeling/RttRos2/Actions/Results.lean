/-
  RttRos2.Actions.Results — what the client of a goal gets: one result, and feedback only
  before it.

  - `results_final`: no goal is finished twice; who finishes it is a section that is for the
    slot it is in, the result is that section's own, and both state and result stay.
  - `feedback_to_active`: a step that publishes feedback is one of a call of
    `publishFeedback`, and the feedback is for the active goal, EXECUTING or CANCELING.
  - `feedback_ends`: so none follows the result.

  All hold in the middle of a section too: what one call does needs the section it belongs
  to, in which goals are finished (`section_finishes`) and feedback is published for a goal
  that the section has found running, and that runs on (`section_publishes`). What
  rclcpp_action does by itself to a goal whose last handle is dropped is left out.
-/

import RttRos2.Actions.Effects
import RttRos2.Actions.Slots

namespace RttRos2.Actions

open RttRos2.Lib

variable {A : ActionT} {op : Op A} {s t : Sys A} {g : Nat} {e : Ev A}

/-! ## One result -/

/-- The histories of the goals' ends and the goals agree. -/
structure Results (s : St A) : Prop where
  once : (s.finished.map Prod.fst).Nodup
  ended : ∀ x ∈ s.finished, s.state x.1 = x.2.1 ∧ x.2.1.terminal = true ∧ (s.goals x.1).result.isSome = true
  only : ∀ g, g ∉ s.finished.map Prod.fst → (s.state g).terminal = false ∧ (s.goals g).result = none

/-- The goals finished so far are as they were, and are still in the history. -/
structure KeepsResults (s t : St A) : Prop where
  finished : s.finished <+: t.finished
  goals : ∀ g ∈ s.finished.map Prod.fst, t.goals g = s.goals g

theorem KeepsResults.refl (s : St A) : KeepsResults s s := ⟨List.prefix_rfl, fun _ _ => rfl⟩

theorem KeepsResults.trans {s t u : St A} (h : KeepsResults s t) (h' : KeepsResults t u) : KeepsResults s u := by
  refine ⟨h.finished.trans h'.finished, fun g hg => (h'.goals g ?_).trans (h.goals g hg)⟩
  exact (h.finished.map Prod.fst).subset hg

theorem results_init : Results (St.init : St A) :=
  ⟨List.nodup_nil, List.forall_mem_nil _, fun _ _ => ⟨rfl, rfl⟩⟩

section
variable {s : St A}

/-- A goal that a transition moves is not finished. -/
theorem Results.not_finished (h : Results s) {e : GoalEvent} {st : GoalState} (hn : (s.state g).next e = some st) :
    g ∉ s.finished.map Prod.fst := by
  intro hg
  obtain ⟨x, hx, rfl⟩ := List.mem_map.mp hg
  obtain ⟨hst, hterm, -⟩ := h.ended x hx
  rw [hst] at hn
  cases hx2 : x.2.1 <;> simp [hx2, GoalState.next, GoalState.terminal] at hn hterm

theorem Results.move (h : Results s) {e : GoalEvent} {st : GoalState} (hn : (s.state g).next e = some st)
    (hst : st.terminal = false) : Results (s.move g st) ∧ KeepsResults s (s.move g st) := by
  have hg := h.not_finished hn
  have hgoals : ∀ g' ≠ g, (s.move g st).goals g' = s.goals g' := fun g' hne => Function.update_of_ne hne ..
  have hne : ∀ g' ∈ s.finished.map Prod.fst, g' ≠ g := by
    rintro g' hg' rfl
    exact hg hg'
  refine ⟨⟨h.once, fun x hx => ?_, fun g' hg' => ?_⟩, List.prefix_rfl, fun g' hg' => hgoals g' (hne g' hg')⟩
  · rw [St.state, hgoals x.1 (hne x.1 (List.mem_map_of_mem hx))]
    exact h.ended x hx
  · by_cases he : g' = g
    · subst he
      rw [state_move, if_pos rfl]
      refine ⟨hst, ?_⟩
      show (Function.update s.goals g' _ g').result = none
      rw [Function.update_self]
      exact (h.only g' hg).2
    · rw [St.state, hgoals g' he]
      exact h.only g' hg'

theorem Results.finish (h : Results s) {e : GoalEvent} {st : GoalState} (hn : (s.state g).next e = some st)
    (hst : st.terminal = true) (op : Op A) (result : A.Result) :
    Results (s.finish op g st result) ∧ KeepsResults s (s.finish op g st result) := by
  have hg := h.not_finished hn
  have hgoals : ∀ g' ≠ g, (s.finish op g st result).goals g' = s.goals g' := fun g' hne => Function.update_of_ne hne ..
  have hself : (s.finish op g st result).goals g = ⟨st, some result⟩ := Function.update_self ..
  have hne : ∀ g' ∈ s.finished.map Prod.fst, g' ≠ g := by
    rintro g' hg' rfl
    exact hg hg'
  have hmap : (s.finish op g st result).finished.map Prod.fst = s.finished.map Prod.fst ++ [g] := List.map_append
  refine ⟨⟨?_, fun x hx => ?_, fun g' hg' => ?_⟩, List.prefix_append _ _, fun g' hg' => hgoals g' (hne g' hg')⟩
  · rw [hmap, List.nodup_append]
    refine ⟨h.once, by simp, fun g' hg' _ hx => ?_⟩
    rw [List.mem_singleton.mp hx]
    exact hne g' hg'
  · rcases List.mem_append.mp hx with hx | hx
    · rw [St.state, hgoals x.1 (hne x.1 (List.mem_map_of_mem hx))]
      exact h.ended x hx
    · rw [List.mem_singleton.mp hx, St.state, hself]
      exact ⟨rfl, hst, rfl⟩
  · rw [hmap, List.mem_append, not_or, List.mem_singleton] at hg'
    rw [St.state, hgoals g' hg'.2]
    exact h.only g' hg'.1

theorem next_execute {a b : GoalState} (h : a.next .execute = some b) : b.terminal = false := by
  cases a <;> simp [GoalState.next] at h
  exact h ▸ rfl

theorem next_cancelGoal {a b : GoalState} (h : a.next .cancelGoal = some b) : b.terminal = false := by
  cases a <;> simp [GoalState.next] at h <;> rw [← h] <;> rfl

theorem next_ends {a b : GoalState} {e : GoalEvent} (he : e = .succeed ∨ e = .abort ∨ e = .canceled)
    (h : a.next e = some b) : b.terminal = true := by
  obtain rfl | rfl | rfl := he <;> cases a <;> simp [GoalState.next] at h <;> rw [← h] <;> rfl

theorem Results.execute (h : Results s) (r : Ref) : Results (s.execute r).2 ∧ KeepsResults s (s.execute r).2 := by
  unfold St.execute
  split
  · exact ⟨h, .refl s⟩
  · split
    · exact ⟨h, .refl s⟩
    · rename_i st hn
      exact h.move hn (next_execute hn)

theorem Results.terminate (h : Results s) (op : Op A) (r : Ref) {e : GoalEvent}
    (he : e = .succeed ∨ e = .abort ∨ e = .canceled) (result : A.Result) :
    Results (s.terminate op r e result).2 ∧ KeepsResults s (s.terminate op r e result).2 := by
  unfold St.terminate
  split
  · exact ⟨h, .refl s⟩
  · split
    · exact ⟨h, .refl s⟩
    · rename_i st hn
      exact h.finish hn (next_ends he hn) op result

/-- Neither the goals nor the history changes. -/
theorem Results.same {t : St A} (h : Results s) (hg : t.goals = s.goals) (hf : t.finished = s.finished) :
    Results t ∧ KeepsResults s t := by
  refine ⟨⟨by rw [hf]; exact h.once, ?_, ?_⟩, hf ▸ List.prefix_rfl, fun g _ => by rw [hg]⟩
  · simp only [St.state, hg, hf]
    exact h.ended
  · simp only [St.state, hg, hf]
    exact h.only

theorem Results.sem (h : Results s) (op : Op A) (c : Call A) :
    Results (sem op c s).2 ∧ KeepsResults s (sem op c s).2 := by
  cases c with
  | execute r => exact h.execute r
  | succeed r result => exact h.terminate op r (.inl rfl) result
  | abort r result => exact h.terminate op r (.inr (.inl rfl)) result
  | canceled r result => exact h.terminate op r (.inr (.inr rfl)) result
  | setActive o => cases o <;> exact h.same rfl rfl
  | setPending o => cases o <;> exact h.same rfl rfl
  | _ => exact h.same rfl rfl

theorem Results.cancelGoal (h : Results s) (g : Nat) : Results (s.cancelGoal g) ∧ KeepsResults s (s.cancelGoal g) := by
  unfold St.cancelGoal
  split
  · exact ⟨h, .refl s⟩
  · rename_i st hn
    exact h.move hn (next_cancelGoal hn)

end

theorem results_step (h : Results s.st) (he : step s e = some t) : Results t.st ∧ KeepsResults s.st t.st := by
  cases step_cases he with
  | cancelGoal g => exact h.cancelGoal g
  | run op c k => exact h.sem op c
  | unlock op v =>
    rw [leave_st]
    exact ⟨h, .refl _⟩
  | _ => exact h.same rfl rfl

theorem results_path (h : Results s.st) (hp : Path step Always s t) : Results t.st ∧ KeepsResults s.st t.st := by
  refine hp.invariant (P := fun u => Results u.st ∧ KeepsResults s.st u.st) ⟨h, .refl _⟩ fun u v e hu _ he => ?_
  obtain ⟨hv, hk⟩ := results_step hu.1 he
  exact ⟨hv, hu.2.trans hk⟩

/-! ## Whose result it is -/

theorem sem_finished (op : Op A) (c : Call A) (s : St A) :
    (sem op c s).2.finished = s.finished ∨ ∃ r e result g st, c.ends = some (r, e, result) ∧ s.deref r = some g ∧
      (s.state g).next e = some st ∧ (sem op c s).2 = s.finish op g st result := by
  have hterminate : ∀ r e result, c.ends = some (r, e, result) → (sem op c s).2 = (s.terminate op r e result).2 →
      (sem op c s).2.finished = s.finished ∨ ∃ r e result g st, c.ends = some (r, e, result) ∧ s.deref r = some g ∧
        (s.state g).next e = some st ∧ (sem op c s).2 = s.finish op g st result := by
    intro r e result hc hsem
    rw [hsem]
    unfold St.terminate
    split
    · exact .inl rfl
    · rename_i g hg
      split
      · exact .inl rfl
      · rename_i st hst
        exact .inr ⟨r, e, result, g, st, hc, hg, hst, rfl⟩
  cases c with
  | succeed r result => exact hterminate r .succeed result rfl rfl
  | abort r result => exact hterminate r .abort result rfl rfl
  | canceled r result => exact hterminate r .canceled result rfl rfl
  | setActive o => cases o <;> exact .inl rfl
  | setPending o => cases o <;> exact .inl rfl
  | execute r =>
    left
    simp only [sem, St.execute]
    split
    · rfl
    · split <;> rfl
  | _ => exact .inl rfl

theorem cancelGoal_finished (s : St A) (g : Nat) : (s.cancelGoal g).finished = s.finished := by
  unfold St.cancelGoal
  split <;> rfl

theorem next_succeeded_iff {a b : GoalState} {e : GoalEvent} (h : a.next e = some b) : b = .succeeded ↔ e = .succeed := by
  cases a <;> cases e <;> simp [GoalState.next] at h <;> simp [← h]

/-- The goals a step ends: at most one, by a call of the section that holds `mutex_`, which
    ends the goal in the slot that it is for. -/
inductive FinishedBy (s : Sys A) (e : Ev A) (t : Sys A) : Prop
  | nothing : t.st.finished = s.st.finished → FinishedBy s e t
  | active (op : Op A) (q : M A Ret) (g : Nat) (st : GoalState) (result : A.Result) : e = .run →
      s.crit = some ⟨op, q⟩ → op.activeResult = some result → s.st.active = some g →
      (st = .succeeded ↔ op.succeeds = true) → t.st = s.st.finish op g st result → FinishedBy s e t
  | pending (op : Op A) (q : M A Ret) (g : Nat) (st : GoalState) (result : A.Result) : e = .run →
      s.crit = some ⟨op, q⟩ → op.pendingResult = some result → s.st.pending = some g → st ≠ .succeeded →
      t.st = s.st.finish op g st result → FinishedBy s e t

theorem finished_step (h : Reach Always s) (he : step s e = some t) : FinishedBy s e t := by
  cases step_cases he with
  | run op c k hc =>
    rcases sem_finished op c s.st with hf | ⟨r, e, result, g, st, hends, hg, hst, hsem⟩
    · exact .nothing hf
    obtain ⟨hmay, hpending⟩ := reach_calls h hc (fun _ hi => section_finishes hi op) r e result hends
    rcases hmay with ⟨rfl, hr, hs⟩ | ⟨⟨g', rfl⟩, hr, hne⟩
    · exact .active op _ g st result rfl hc hr hg ((next_succeeded_iff hst).trans hs) hsem
    · cases hg
      exact .pending op _ g st result rfl hc hr (hpending g rfl) (fun hs => hne ((next_succeeded_iff hst).mp hs)) hsem
  | cancelGoal g => exact .nothing (cancelGoal_finished s.st g)
  | unlock op v => exact .nothing (by rw [leave_st])
  | _ => exact .nothing rfl

/-- The goals in the slots are among those that were stored and activated. -/
structure Listed (s : St A) : Prop where
  active : ∀ g, s.active = some g → g ∈ s.activated
  pending : ∀ g, s.pending = some g → g ∈ s.stored

theorem listed_step (h : Listed s.st) (he : step s e = some t) : Listed t.st := by
  rcases step_st he with hr | ⟨op, c, k, -, ht⟩
  · refine ⟨?_, ?_⟩
    · rw [hr.active, hr.activated]
      exact h.active
    · rw [hr.pending, hr.stored]
      exact h.pending
  · rw [ht]
    have heff := sem_effect op c s.st
    generalize (sem op c s.st).2 = u at heff ⊢
    cases heff with
    | quiet hq =>
      refine ⟨?_, ?_⟩
      · rw [hq.active, hq.activated]
        exact h.active
      · rw [hq.pending, hq.stored]
        exact h.pending
    | finish g st result => exact ⟨h.active, h.pending⟩
    | dropActive => exact ⟨nofun, h.pending⟩
    | dropPending => exact ⟨h.active, nofun⟩
    | activate g =>
      refine ⟨fun g' hg' => ?_, h.pending⟩
      cases hg'
      exact List.mem_append_right _ (List.mem_singleton.mpr rfl)
    | store g =>
      refine ⟨h.active, fun g' hg' => ?_⟩
      cases hg'
      exact List.mem_append_right _ (List.mem_singleton.mpr rfl)

/-- The section is one that ends the goal of that slot so, and the result is its own. -/
inductive Gives (s : St A) (g : Nat) (st : GoalState) (op : Op A) (result : A.Result) : Prop
  | active : op.activeResult = some result → g ∈ s.activated → (st = .succeeded ↔ op.succeeds = true) →
      Gives s g st op result
  | pending : op.pendingResult = some result → g ∈ s.stored → st ≠ .succeeded → Gives s g st op result

theorem Gives.mono {s t : St A} {g : Nat} {st : GoalState} {op : Op A} {result : A.Result}
    (h : Gives s g st op result) (hl : Grows s t) : Gives t g st op result := by
  cases h with
  | active hr hg hs => exact .active hr (hl.activated.subset hg) hs
  | pending hr hg hs => exact .pending hr (hl.stored.subset hg) hs

/-- Every goal finished so far was finished by a section with a result of its own. -/
def Given (s : St A) : Prop := ∀ x ∈ s.finished, ∃ result, Gives s x.1 x.2.1 x.2.2 result ∧
  s.goals x.1 = ⟨x.2.1, some result⟩

theorem given_step (h : Reach Always s) (hl : Listed s.st) (hg : Given s.st) (he : step s e = some t) : Given t.st := by
  have hresults : Results s.st := (results_path results_init h).1
  obtain ⟨-, hkeeps⟩ := results_step hresults he
  have hgrows : Grows s.st t.st := step_grows he
  have hold : ∀ x ∈ s.st.finished, ∃ result, Gives t.st x.1 x.2.1 x.2.2 result ∧
      t.st.goals x.1 = ⟨x.2.1, some result⟩ := by
    intro x hx
    obtain ⟨result, hgives, hgoal⟩ := hg x hx
    exact ⟨result, hgives.mono hgrows, (hkeeps.goals x.1 (List.mem_map_of_mem hx)).trans hgoal⟩
  have hnew : ∀ op g st result, Gives t.st g st op result → t.st = s.st.finish op g st result → Given t.st := by
    intro op g st result hgives hfin x hx
    have hfinished : t.st.finished = s.st.finished ++ [(g, st, op)] := by rw [hfin]; rfl
    rw [hfinished] at hx
    rcases List.mem_append.mp hx with hx | hx
    · exact hold x hx
    · rw [List.mem_singleton.mp hx]
      refine ⟨result, hgives, ?_⟩
      rw [hfin]
      exact Function.update_self ..
  cases finished_step h he with
  | nothing hf => exact fun x hx => hold x (hf ▸ hx)
  | active op q g st result _ _ hr ha hs hfin =>
    exact hnew op g st result (.active hr (hgrows.activated.subset (hl.active g ha)) hs) hfin
  | pending op q g st result _ _ hr hp hs hfin =>
    exact hnew op g st result (.pending hr (hgrows.stored.subset (hl.pending g hp)) hs) hfin

theorem reach_given (h : Reach Always s) : Listed s.st ∧ Given s.st := by
  induction h with
  | refl => exact ⟨⟨nofun, nofun⟩, List.forall_mem_nil _⟩
  | step e hs _ he ih => exact ⟨listed_step ih.1 he, given_step hs ih.1 ih.2 he⟩

theorem results_final (h : Reach Always s) (hp : Path step Always s t) :
    (s.st.finished.map Prod.fst).Nodup ∧ (∀ e u, step s e = some u → FinishedBy s e u) ∧
    ∀ x ∈ s.st.finished, ∃ result, Gives s.st x.1 x.2.1 x.2.2 result ∧ s.st.goals x.1 = ⟨x.2.1, some result⟩ ∧
      x ∈ t.st.finished ∧ t.st.goals x.1 = ⟨x.2.1, some result⟩ := by
  have hs : Results s.st := (results_path results_init h).1
  have hk := (results_path hs hp).2
  refine ⟨hs.once, fun e u he => finished_step h he, fun x hx => ?_⟩
  obtain ⟨result, hgives, hgoal⟩ := (reach_given h).2 x hx
  exact ⟨result, hgives, hgoal, hk.finished.subset hx, (hk.goals x.1 (List.mem_map_of_mem hx)).trans hgoal⟩

/-- Goal 0 becomes active, gets feedback and succeeds. -/
def served : List (Ev unitAction) :=
  [.start true] ++ arrival ++ handled 3 ++ called (.other 0) (.acceptPending ()) 8 ++
    called (.other 0) (.publishFeedback ()) 3 ++ called .owner (.succeedActive ()) 4

/-- Goal 1 becomes active and is given feedback too. -/
def servedNext : List (Ev unitAction) :=
  arrival ++ handled 3 ++ called (.other 0) (.acceptPending ()) 8 ++ called (.other 0) (.publishFeedback ()) 3

theorem results_final_served :
    ∃ s t, run step Always Sys.init served = some s ∧ run step Always s servedNext = some t ∧
      s.st.finished.map Prod.fst = [0] ∧ (s.st.finished.map Prod.fst).Nodup ∧
      (∀ e u, step s e = some u → FinishedBy s e u) ∧
      ∀ x ∈ s.st.finished, ∃ result, Gives s.st x.1 x.2.1 x.2.2 result ∧ s.st.goals x.1 = ⟨x.2.1, some result⟩ ∧
        x ∈ t.st.finished ∧ t.st.goals x.1 = ⟨x.2.1, some result⟩ :=
  ⟨_, _, rfl, rfl, rfl, results_final (run_path served rfl) (run_path servedNext rfl)⟩

/-! ## Feedback -/

/-- A call that publishes feedback is one of `publishFeedback`, and the active goal runs. -/
def Publishes (op : Op A) (c : Call A) (s : St A) : Prop :=
  ∀ r f, c = .publishFeedback r f →
    ∃ th g, op = .call th (.publishFeedback f) ∧ r = .active ∧ s.active = some g ∧ (s.state g).running = true

theorem publishes_of_not {c : Call A} (hc : c.publishes = false) (s : St A) : Publishes op c s := by
  rintro r f rfl
  cases hc

theorem publishFeedback_publishes {s : St A} (hi : Inv s) (th : Tid) (f : A.Feedback) :
    Calls (setting Anything (.call th (.publishFeedback f))) (Publishes (.call th (.publishFeedback f)))
      (publishFeedback f) s := by
  refine calls_invoke fun t ht => ⟨publishes_of_not rfl t, ?_⟩
  have hit := hi.rely ht
  simp only [sem]
  cases ha : t.active with
  | none => trivial
  | some g =>
    have hrun := hit.running g ha
    refine calls_bind (calls_of_only (activeRuns_ending (R := fun _ _ _ => True)) fun c t hc =>
      publishes_of_not (publishes_of_plain hc.plain) t) ?_
    refine wp_mono (activeRuns_spec ha hrun) ?_
    rintro b u ⟨rfl, hu⟩
    refine calls_invoke fun v hv => ⟨fun r f' hc => ?_, trivial⟩
    cases hc
    exact ⟨th, g, rfl, rfl, (hu.trans hv).active.trans ha, ((hu.trans hv).state g).running hrun⟩

/-- Whatever the others do, a section publishes feedback for the active goal alone, and
    while it runs. -/
theorem section_publishes {s : St A} (hi : Inv s) (op : Op A) :
    Calls (setting Anything op) (Publishes op) op.body s := by
  by_cases hop : ∃ th f, op = .call th (.publishFeedback f)
  · obtain ⟨th, f, rfl⟩ := hop
    exact calls_bind (publishFeedback_publishes hi th f) (wp_trivial fun _ _ => trivial)
  · have hno : op.body.Only fun c => c.publishes = false := by
      by_cases hc : ∃ g, op = .cancelCallback g
      · obtain ⟨g, rfl⟩ := hc
        exact only_mono (cancelCallback_ends g) fun _ h => h.1
      · refine only_mono (body_plain (fun th f h => hop ⟨th, f, h⟩) fun g h => hc ⟨g, h⟩) ?_
        exact fun c hp => publishes_of_plain hp
    exact calls_of_only hno fun c t hc => publishes_of_not hc t

theorem sem_feedback (op : Op A) (c : Call A) (s : St A) :
    (c.publishes = false ∧ (sem op c s).2.feedback = s.feedback) ∨
    ∃ r f, c = .publishFeedback r f ∧ (sem op c s).2.feedback = s.feedback ++ ((s.deref r).map (·, f)).toList := by
  cases c with
  | publishFeedback r f => exact .inr ⟨r, f, rfl, rfl⟩
  | setActive o => cases o <;> exact .inl ⟨rfl, rfl⟩
  | setPending o => cases o <;> exact .inl ⟨rfl, rfl⟩
  | execute r =>
    refine .inl ⟨rfl, ?_⟩
    simp only [sem, St.execute]
    split
    · rfl
    · split <;> rfl
  | succeed r result | abort r result | canceled r result =>
    refine .inl ⟨rfl, ?_⟩
    simp only [sem, St.terminate]
    split
    · rfl
    · split <;> rfl
  | _ => exact .inl ⟨rfl, rfl⟩

theorem cancelGoal_feedback (s : St A) (g : Nat) : (s.cancelGoal g).feedback = s.feedback := by
  unfold St.cancelGoal
  split <;> rfl

/-- The feedback a step publishes. -/
inductive Published (s : Sys A) (e : Ev A) (t : Sys A) : Prop
  | nothing : t.st.feedback = s.st.feedback → Published s e t
  | active (th : Tid) (f : A.Feedback) (q : M A Ret) (g : Nat) : e = .run →
      s.crit = some ⟨.call th (.publishFeedback f), q⟩ → s.st.active = some g → (s.st.state g).running = true →
      t.st.feedback = s.st.feedback ++ [(g, f)] → Published s e t

theorem published_step (h : Reach Always s) (he : step s e = some t) : Published s e t := by
  cases step_cases he with
  | run op c k hc =>
    rcases sem_feedback op c s.st with ⟨-, hf⟩ | ⟨r, f, rfl, hf⟩
    · exact .nothing hf
    obtain ⟨th, g, rfl, rfl, ha, hr⟩ := reach_calls h hc (fun _ hi => section_publishes hi op) r f rfl
    exact .active th f _ g rfl hc ha hr (hf.trans (by rw [St.deref, ha]; rfl))
  | cancelGoal g => exact .nothing (cancelGoal_feedback s.st g)
  | unlock op v => exact .nothing (by rw [leave_st])
  | _ => exact .nothing rfl

theorem feedback_to_active (h : Reach Always s) (he : step s e = some t) :
    t.st.feedback = s.st.feedback ∨
    ∃ th f q g, e = .run ∧ s.crit = some ⟨.call th (.publishFeedback f), q⟩ ∧ s.st.active = some g ∧
      (s.st.state g).running = true ∧ t.st.feedback = s.st.feedback ++ [(g, f)] := by
  cases published_step h he with
  | nothing hf => exact .inl hf
  | active th f q g hr hc ha hrun hf => exact .inr ⟨th, f, q, g, hr, hc, ha, hrun, hf⟩

/-- Goal 0 is active and its feedback about to be published. -/
def feeding : List (Ev unitAction) :=
  [.start true] ++ arrival ++ handled 3 ++ called (.other 0) (.acceptPending ()) 8 ++
    [.call (.other 0) (.publishFeedback ()), .run, .run]

theorem feedback_to_active_feeding :
    ∃ s t, run step Always Sys.init feeding = some s ∧ step s .run = some t ∧ t.st.feedback = [(0, ())] ∧
      (t.st.feedback = s.st.feedback ∨
      ∃ th f q g, Ev.run = Ev.run (A := unitAction) ∧ s.crit = some ⟨.call th (.publishFeedback f), q⟩ ∧
        s.st.active = some g ∧ (s.st.state g).running = true ∧ t.st.feedback = s.st.feedback ++ [(g, f)]) :=
  ⟨_, _, rfl, rfl, rfl, feedback_to_active (run_path feeding rfl) rfl⟩

theorem feedback_ends (h : Reach Always s) (hp : Path step Always s t) :
    ∀ x ∈ s.st.finished, t.st.feedback.filter (·.1 = x.1) = s.st.feedback.filter (·.1 = x.1) := by
  intro x hx
  refine (hp.invariant (P := fun u => Reach Always u ∧ x ∈ u.st.finished ∧
    u.st.feedback.filter (·.1 = x.1) = s.st.feedback.filter (·.1 = x.1)) ⟨h, hx, rfl⟩ ?_).2.2
  rintro u v e ⟨hu, hxu, hf⟩ - he
  have hru : Results u.st := (results_path results_init hu).1
  refine ⟨.step e hu trivial he, (results_step hru he).2.finished.subset hxu, ?_⟩
  cases published_step hu he with
  | nothing h => rw [h, hf]
  | active th f q g _ _ _ hrun h =>
    have hne : g ≠ x.1 := by
      rintro rfl
      obtain ⟨hst, hterm, -⟩ := hru.ended x hxu
      rw [hst] at hrun
      cases hx2 : x.2.1 <;> simp [hx2, GoalState.running, GoalState.terminal] at hrun hterm
    rw [h, List.filter_append, hf, List.filter_cons_of_neg (by simpa using hne), List.filter_nil, List.append_nil]

theorem feedback_ends_served :
    ∃ s t, run step Always Sys.init served = some s ∧ run step Always s servedNext = some t ∧
      t.st.feedback = [(0, ()), (1, ())] ∧
      ∀ x ∈ s.st.finished, t.st.feedback.filter (·.1 = x.1) = s.st.feedback.filter (·.1 = x.1) :=
  ⟨_, _, rfl, rfl, rfl, feedback_ends (run_path served rfl) (run_path servedNext rfl)⟩

end RttRos2.Actions
