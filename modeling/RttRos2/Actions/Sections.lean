/-
  RttRos2.Actions.Sections — every critical section of `SimpleActionServer` is a
  sequence of moves of the abstract machine, whatever other threads do meanwhile.

  The helpers first, each with what it returns and the one change of the shared state it
  makes, up to `Rely`:
  - `pendingGoalHandle_spec`: the goal in the pending slot, or nothing when the slot is
    empty or its goal was found CANCELING.
  - `finishActive_spec`: the active goal is CANCELED or ABORTED and leaves its slot; its
    exception branch and its reset of a goal that does not run are never taken.
  - `terminateGoal_spec`: the goal is CANCELED or ABORTED, unless a cancel request came
    between its test and its `execute()`; then nothing is done.
  Then `method_moves` and `section_moves`, and `acceptedCallback_spec`, whose section
  stores the new goal.
-/

import RttRos2.Actions.Moves

namespace RttRos2.Actions

open RttRos2.Lib

variable {A : ActionT} {ok : Op A → Call A → St A → Prop} {op : Op A} {s t : St A} {g p : Nat}

/-! ## One call at a time -/

theorem wp_invoke {α : Type} {c : Call A} {f : c.Res → M A α} {Q : α → St A → Prop}
    (h : ∀ t, Rely s t → ok op c t → wp (setting ok op) (f (sem op c t).1) Q (sem op c t).2) :
    wp (setting ok op) (invoke c >>= f) Q s := wp_perform h

theorem wp_invoke_last {c : Call A} {Q : c.Res → St A → Prop}
    (h : ∀ t, Rely s t → ok op c t → ∀ u, Rely (sem op c t).2 u → Q (sem op c t).1 u) :
    wp (setting ok op) (invoke c) Q s := h

theorem wp_pure {α : Type} {a : α} {Q : α → St A → Prop} (h : ∀ t, Rely s t → Q a t) :
    wp (setting ok op) (pure a) Q s := h

theorem query_of {r : Ref} (h : s.deref r = some g) (q : GoalState → Bool) : s.query r q = q (s.state g) := by
  rw [St.query, h, Option.any_some]

theorem execute_of {r : Ref} (h : s.deref r = some g) (hs : s.state g = .accepted) :
    s.execute r = (true, s.move g .executing) := by
  simp only [St.execute, h, hs, GoalState.next]

theorem execute_canceling {r : Ref} (h : s.deref r = some g) (hs : s.state g = .canceling) :
    s.execute r = (false, s) := by
  simp only [St.execute, h, hs, GoalState.next]

theorem terminate_of {r : Ref} {e : GoalEvent} {x : GoalState} {result : A.Result} (h : s.deref r = some g)
    (hs : (s.state g).next e = some x) : s.terminate op r e result = (true, s.finish op g x result) := by
  simp only [St.terminate, h, hs]

theorem next_abort {st : GoalState} (h : st.running = true) : st.next .abort = some .aborted := by
  rcases GoalState.running_iff.mp h with rfl | rfl <;> rfl

theorem next_succeed {st : GoalState} (h : st.running = true) : st.next .succeed = some .succeeded := by
  rcases GoalState.running_iff.mp h with rfl | rfl <;> rfl

/-! ## The helpers -/

theorem activeRuns_spec (ha : s.active = some g) (hr : (s.state g).running = true) :
    wp (setting ok op) activeRuns (fun b t => b = true ∧ Rely s t) s := by
  apply wp_invoke
  intro t ht _
  have htr := (ht.state g).running hr
  simp only [sem, query_of (r := .active) (ht.active.trans ha)]
  by_cases he : (t.state g).isExecuting = true
  · rw [if_pos he]
    exact wp_pure fun u hu => ⟨rfl, ht.trans hu⟩
  · rw [if_neg he]
    apply wp_invoke_last
    intro u hu _ v hv
    simp only [sem] at hv ⊢
    have hc : t.state g = .canceling := by
      rcases GoalState.running_iff.mp htr with h | h
      · simp [h] at he
      · exact h
    have hcu : u.state g = .canceling := (hc ▸ hu.state g).canceling
    rw [query_of (r := .active) (hu.active.trans (ht.active.trans ha)), hcu]
    exact ⟨rfl, (ht.trans hu).trans hv⟩

theorem pendingGoalHandle_spec (hi : Inv s) :
    wp (setting ok op) pendingGoalHandle
      (fun o t => Rely s t ∧ match o with
        | none => t.pending = none ∨ ∃ p, t.pending = some p ∧ t.state p = .canceling ∧ ∃ u,
            ok op (.isCanceling .pending) u ∧ u.pending = some p ∧ u.state p = .canceling
        | some p => t.pending = some p) s := by
  apply wp_invoke
  intro t ht _
  simp only [sem]
  cases hp : t.pending with
  | none => exact wp_pure fun u hu => ⟨ht.trans hu, Or.inl (hu.pending.trans hp)⟩
  | some p =>
    have hd := hi.rely ht
    apply wp_invoke
    intro u hu _
    have hup : u.deref .pending = some p := hu.pending.trans hp
    have hdu := (hd.rely hu).deferred p hup
    simp only [sem, query_of hup, GoalState.isActive_of_deferred hdu]
    apply wp_invoke
    intro v hv _
    have hvp : v.deref .pending = some p := hv.pending.trans hup
    have hdv := ((hd.rely hu).rely hv).deferred p hvp
    have hne : (v.state p).isExecuting = false := by
      rcases GoalState.deferred_iff.mp hdv with h | h <;> rw [h] <;> rfl
    simp only [sem, query_of hvp, hne]
    apply wp_invoke
    intro w hw hok
    have hwp : w.deref .pending = some p := hw.pending.trans hvp
    simp only [sem, query_of hwp]
    have hsw : Rely s w := ((ht.trans hu).trans hv).trans hw
    by_cases hc : (w.state p).isCanceling = true
    · rw [if_pos hc]
      have hc' := GoalState.isCanceling_iff.mp hc
      exact wp_pure fun x hx => ⟨hsw.trans hx, Or.inr ⟨p, hx.pending.trans hwp, (hc' ▸ hx.state p).canceling,
        w, hok, hwp, hc'⟩⟩
    · rw [if_neg hc]
      exact wp_pure fun x hx => ⟨hsw.trans hx, hx.pending.trans hwp⟩

/-- The active goal finished and out of its slot. -/
def FinishedActive (ok : Op A → Call A → St A → Prop) (op : Op A) (result : A.Result) (s u : St A) : Prop :=
  ∃ g st, s.active = some g ∧ Ends ok op s g st ∧ u = (s.finish op g st result).dropActive

theorem finishActive_spec (hi : Inv s) (result : A.Result) (prefer_canceled : Bool) :
    wp (setting ok op) (finishActive result prefer_canceled)
      (fun b t => (s.active = none ∧ b = false ∧ Rely s t) ∨
        b = true ∧ ∃ u, FinishedActive ok op result s u ∧ Rely u t) s := by
  apply wp_invoke
  intro t ht _
  simp only [sem]
  cases ha : t.active with
  | none => exact wp_pure fun u hu => Or.inl ⟨ht.active.symm.trans ha, rfl, ht.trans hu⟩
  | some g =>
    have hit := hi.rely ht
    refine wp_bind (wp_mono (activeRuns_spec ha (hit.running g ha)) ?_)
    intro b u hb
    obtain ⟨rfl, hu⟩ := hb
    apply wp_invoke
    intro v hv hok
    have hsv : Rely s v := (ht.trans hu).trans hv
    have hav : v.deref .active = some g := hsv.active.trans (ht.active.symm.trans ha)
    have hrv := (hi.rely hsv).running g hav
    simp only [sem, query_of hav]
    by_cases hc : (v.state g).isCanceling = true
    · rw [if_pos hc]
      apply wp_invoke
      intro w hw _
      have hcv := GoalState.isCanceling_iff.mp hc
      have hcw : w.state g = .canceling := (hcv ▸ hw.state g).canceling
      simp only [sem, terminate_of (r := .active) (e := .canceled) (x := .canceled) (hw.active.trans hav)
        (by rw [hcw]; rfl)]
      apply wp_invoke
      intro x hx _
      exact wp_pure fun y hy => Or.inr ⟨rfl, _, ⟨g, _, ht.active.symm.trans ha, .canceled, rfl⟩,
        ((((hsv.trans hw).finish op g _ result).trans hx).dropActive).trans hy⟩
    · rw [if_neg hc]
      have hcv : v.state g ≠ .canceling := fun h => hc (GoalState.isCanceling_iff.mpr h)
      apply wp_invoke
      intro w hw _
      simp only [sem, terminate_of (r := .active) (e := .abort) (hw.active.trans hav)
        (next_abort ((hw.state g).running hrv))]
      apply wp_invoke
      intro x hx _
      exact wp_pure fun y hy => Or.inr ⟨rfl, _, ⟨g, _, ht.active.symm.trans ha, .aborted hok hsv.finished hav hcv, rfl⟩,
        ((((hsv.trans hw).finish op g _ result).trans hx).dropActive).trans hy⟩

theorem terminateGoal_spec (hd : (s.state p).deferred = true) (result : A.Result) :
    wp (setting ok op) (terminateGoal p result)
      (fun _ t => (∃ st, Ends ok op s p st ∧ Rely (s.finish op p st result) t) ∨
        Rely s t ∧ t.state p = .canceling ∧ ∃ u, ok op (.execute (.handle p)) u ∧ u.state p = .canceling) s := by
  apply wp_invoke
  intro t ht _
  have hp : ∀ v : St A, v.deref (.handle p) = some p := fun _ => rfl
  have hdt := (ht.state p).deferred hd
  simp only [sem, query_of (hp t)]
  by_cases hc : (t.state p).isCanceling = true
  · rw [if_pos hc]
    apply wp_invoke
    intro u hu _
    have hct := GoalState.isCanceling_iff.mp hc
    have hcu : u.state p = .canceling := (hct ▸ hu.state p).canceling
    simp only [sem, terminate_of (e := .canceled) (x := .canceled) (hp u) (by rw [hcu]; rfl)]
    exact wp_pure fun v hv => Or.inl ⟨_, .canceled, ((ht.trans hu).finish op p _ result).trans hv⟩
  · rw [if_neg hc]
    apply wp_invoke
    intro u hu _
    have hdu := (hu.state p).deferred hdt
    have hne : (u.state p).isExecuting = false := by
      rcases GoalState.deferred_iff.mp hdu with h | h <;> rw [h] <;> rfl
    simp only [sem, query_of (hp u), hne, Bool.false_eq_true, if_false]
    apply wp_invoke
    intro v hv hok
    have hsv : Rely s v := (ht.trans hu).trans hv
    rcases GoalState.deferred_iff.mp ((hv.state p).deferred hdu) with ha | ha
    · simp only [sem, execute_of (hp v) ha, if_true]
      apply wp_invoke
      intro w hw _
      have hrw : (w.state p).running = true := (hw.state p).running (by rw [state_move, if_pos rfl]; rfl)
      simp only [sem, terminate_of (e := .abort) (hp w) (next_abort hrw)]
      have hfin := ((hsv.move p .executing).trans hw).finish op p .aborted result
      rw [finish_move] at hfin
      exact wp_pure fun x hx => Or.inl ⟨_, .rejected hok hsv.finished ha, hfin.trans hx⟩
    · simp only [sem, execute_canceling (hp v) ha, Bool.false_eq_true, if_false]
      exact wp_pure fun w hw => Or.inr ⟨hsv.trans hw, (ha ▸ hw.state p).canceling, v, hok, ha⟩

/-! ## The methods -/

/-- The active goal, if there is one, finished. -/
def ClearedActive (ok : Op A → Call A → St A → Prop) (op : Op A) (result : A.Result) (s u : St A) : Prop :=
  (s.active = none ∧ u = s) ∨ FinishedActive ok op result s u

/-- The pending goal `p` leaves its slot unfinished. -/
def Loses (ok : Op A → Call A → St A → Prop) (op : Op A) (p : Nat) (s t : St A) : Prop :=
  ∃ v, Rely s v ∧ v.state p = .canceling ∧ Lost ok op p ∧ Rely v.dropPending t

theorem ClearedActive.inv {result : A.Result} {u : St A} (h : ClearedActive ok op result s u) (hi : Inv s) : Inv u := by
  rcases h with ⟨_, rfl⟩ | ⟨g, st, hg, _, rfl⟩
  · exact hi
  · exact hi.finishActive hg st result

theorem ClearedActive.slots {result : A.Result} {u : St A} (h : ClearedActive ok op result s u) :
    u.active = none ∧ u.pending = s.pending := by
  rcases h with ⟨ha, rfl⟩ | ⟨g, st, _, _, rfl⟩
  · exact ⟨ha, rfl⟩
  · exact ⟨rfl, rfl⟩

theorem acceptPending_spec (hi : Inv s) (result : A.Result) :
    wp (setting ok op) (acceptPending result)
      (fun b t => (b = false ∧ Rely s t) ∨ ∃ p u, s.pending = some p ∧ ClearedActive ok op result s u ∧
        ((b = true ∧ Rely ((u.move p .executing).activate p).dropPending t) ∨ (b = false ∧ Loses ok op p u t))) s := by
  refine wp_bind (wp_mono (pendingGoalHandle_spec hi) ?_)
  intro o t ho
  obtain ⟨ht, ho⟩ := ho
  cases o with
  | none => exact wp_pure fun u hu => Or.inl ⟨rfl, ht.trans hu⟩
  | some p =>
    have hp : s.pending = some p := ht.pending.symm.trans ho
    refine wp_bind (wp_mono (finishActive_spec (hi.rely ht) result false) ?_)
    intro b u hb
    obtain ⟨w, hw, hwu⟩ : ∃ w, ClearedActive ok op result s w ∧ Rely w u := by
      rcases hb with ⟨ha, _, hu⟩ | ⟨_, w, ⟨g, st, hg, hst, rfl⟩, hu⟩
      · exact ⟨s, Or.inl ⟨ht.active.symm.trans ha, rfl⟩, ht.trans hu⟩
      · have hfin : FinishedActive ok op result s (s.finish op g st result).dropActive :=
          ⟨g, st, ht.active.symm.trans hg, hst.of_finished ht.finished, rfl⟩
        exact ⟨_, Or.inr hfin, ((ht.finish op g st result).dropActive).trans hu⟩
    have hiw := hw.inv hi
    have hwp : w.pending = some p := hw.slots.2.trans hp
    apply wp_invoke
    intro v hv hok
    have hwv : Rely w v := hwu.trans hv
    rcases GoalState.deferred_iff.mp ((hwv.state p).deferred (hiw.deferred p hwp)) with ha | ha
    · simp only [sem, execute_of (r := .handle p) rfl ha, if_true]
      apply wp_invoke
      intro x hx _
      apply wp_invoke
      intro y hy _
      apply wp_pure
      intro z hz
      exact Or.inr ⟨p, w, hp, hw, Or.inl ⟨rfl,
        ((((((hwv.move p .executing).trans hx).activate p).trans hy).dropPending).trans hz)⟩⟩
    · simp only [sem, execute_canceling (r := .handle p) rfl ha, Bool.false_eq_true, if_false]
      apply wp_invoke
      intro x hx _
      apply wp_pure
      intro y hy
      exact Or.inr ⟨p, w, hp, hw, Or.inr ⟨rfl, v, hwv, ha, Or.inl ⟨v, hok, ha⟩, hx.dropPending.trans hy⟩⟩

/-- The pending goal ends as CANCELED or ABORTED, or leaves its slot unfinished. -/
def Rejected (ok : Op A → Call A → St A → Prop) (op : Op A) (result : A.Result) (p : Nat) (s t : St A) : Prop :=
  (∃ st, Ends ok op s p st ∧ Rely (s.finish op p st result).dropPending t) ∨ Loses ok op p s t

/-- `terminateGoal` on the pending goal, and the reset of its slot. -/
theorem reject_spec (hd : (s.state p).deferred = true) (result : A.Result) {α : Type} (a : α) :
    wp (setting ok op) (do terminateGoal p result; invoke (.setPending none); pure a)
      (fun b t => b = a ∧ Rejected ok op result p s t) s := by
  refine wp_bind (wp_mono (terminateGoal_spec hd result) ?_)
  intro _ t ht
  apply wp_invoke
  intro u hu _
  apply wp_pure
  intro v hv
  refine ⟨rfl, ?_⟩
  rcases ht with ⟨st, hst, ht⟩ | ⟨ht, hc, w, hok, hw⟩
  · exact Or.inl ⟨st, hst, ((ht.trans hu).dropPending).trans hv⟩
  · exact Or.inr ⟨t, ht, hc, Or.inl ⟨w, hok, hw⟩, hu.dropPending.trans hv⟩

theorem rejectPending_spec (hi : Inv s) (result : A.Result) :
    wp (setting ok op) (rejectPending result)
      (fun b t => (b = false ∧ Rely s t) ∨ ∃ p, s.pending = some p ∧ b = true ∧ Rejected ok op result p s t) s := by
  refine wp_bind (wp_mono (pendingGoalHandle_spec hi) ?_)
  intro o t ho
  obtain ⟨ht, ho⟩ := ho
  cases o with
  | none => exact wp_pure fun u hu => Or.inl ⟨rfl, ht.trans hu⟩
  | some p =>
    refine wp_mono (reject_spec ((hi.rely ht).deferred p ho) result true) ?_
    intro b u hb
    refine Or.inr ⟨p, ht.pending.symm.trans ho, hb.1, ?_⟩
    rcases hb.2 with ⟨st, hst, hu⟩ | ⟨v, hv, hc, hl, hu⟩
    · exact Or.inl ⟨st, hst.of_finished ht.finished, ((ht.finish op p st result).dropPending).trans hu⟩
    · exact Or.inr ⟨v, ht.trans hv, hc, hl, hu⟩

theorem succeedActive_spec (hi : Inv s) (result : A.Result) :
    wp (setting ok op) (succeedActive result)
      (fun b t => (s.active = none ∧ b = false ∧ Rely s t) ∨
        ∃ g, s.active = some g ∧ b = true ∧ Rely (s.finish op g .succeeded result).dropActive t) s := by
  apply wp_invoke
  intro t ht _
  simp only [sem]
  cases ha : t.active with
  | none => exact wp_pure fun u hu => Or.inl ⟨ht.active.symm.trans ha, rfl, ht.trans hu⟩
  | some g =>
    have hit := hi.rely ht
    refine wp_bind (wp_mono (activeRuns_spec ha (hit.running g ha)) ?_)
    intro b u hb
    obtain ⟨rfl, hu⟩ := hb
    apply wp_invoke
    intro v hv _
    have hsv : Rely s v := (ht.trans hu).trans hv
    have hav : v.deref .active = some g := hsv.active.trans (ht.active.symm.trans ha)
    simp only [sem, terminate_of (e := .succeed) hav (next_succeed ((hi.rely hsv).running g hav)), if_true]
    apply wp_invoke
    intro w hw _
    apply wp_pure
    intro x hx
    exact Or.inr ⟨g, ht.active.symm.trans ha, rfl, (((hsv.finish op g _ result).trans hw).dropActive).trans hx⟩

/-! ## Sections as moves -/

theorem Moves.rely (h : Rely s t) : Moves ok op s t := .single (.rely h)

theorem ClearedActive.moves {result : A.Result} {u : St A} (h : ClearedActive ok op result s u) : Moves ok op s u := by
  rcases h with ⟨_, rfl⟩ | ⟨g, st, hg, hst, rfl⟩
  · exact .refl
  · exact .single (.finishActive g st result hg hst)

theorem Loses.moves (h : Loses ok op p s t) (hp : s.pending = some p) : Moves ok op s t := by
  obtain ⟨v, hv, hc, hl, ht⟩ := h
  exact ((Moves.rely hv).tail (.lose p (hv.pending.trans hp) hc hl)).tail (.rely ht)

theorem Rejected.moves {result : A.Result} (h : Rejected ok op result p s t) (hp : s.pending = some p) :
    Moves ok op s t := by
  rcases h with ⟨st, hst, ht⟩ | h
  · exact (Moves.rely (.refl s)).tail (.finishPending p st result hp hst) |>.tail
      (.rely ht)
  · exact h.moves hp

/-- What a section returns that finds both slots empty. -/
def Method.idle : Method A → Ret
  | .getActiveGoal | .getPendingGoal => .goal none
  | .setGoalHook _ | .setCancelHook _ | .shutdown => .unit
  | _ => .bool false

def Op.idle : Op A → Ret
  | .call _ m => m.idle
  | .cancelCallback _ | .acceptedCallback _ => .bool false
  | .cancelHandler _ => .hook none
  | .cancelHandlerFinish _ => .unit

def Empty (s : St A) : Prop := s.active = none ∧ s.pending = none

/-- The section moved from `s` to `t`, returning `v`. -/
def Moved (ok : Op A → Call A → St A → Prop) (op : Op A) (s : St A) (v : Ret) (t : St A) : Prop :=
  Moves ok op s t ∧ (Empty s → v = op.idle)

theorem wp_return {α : Type} {q : M A α} {f : α → Ret} {Q : Ret → St A → Prop}
    (h : wp (setting ok op) q (fun a t => ∀ u, Rely t u → Q (f a) u) s) :
    wp (setting ok op) (do return f (← q)) Q s :=
  wp_bind (wp_mono h fun _ _ hq => wp_pure hq)

theorem wp_frame {α : Type} {c : Call A} {f : c.Res → M A α} {Q : α → St A → Prop}
    (hf : ∀ t, Frame t (sem op c t).2) (h : ∀ r t, Moves ok op s t → wp (setting ok op) (f r) Q t) :
    wp (setting ok op) (invoke c >>= f) Q s :=
  wp_invoke fun t ht _ => h _ _ ((Moves.rely ht).tail (.frame (hf t)))

/-- What is asked of the active goal is `false` when there is none. -/
theorem ask_spec {ask : M A Bool} (h : ∀ t, wp (setting ok op) ask (fun _ u => Rely t u) t) :
    wp (setting ok op)
      (do match ← invoke .getActive with
          | none => pure false
          | some _ => ask)
      (fun b t => Rely s t ∧ (s.active = none → b = false)) s := by
  apply wp_invoke
  intro t ht _
  simp only [sem]
  cases ha : t.active with
  | none => exact wp_pure fun u hu => ⟨ht.trans hu, fun _ => rfl⟩
  | some g =>
    refine wp_mono (h t) ?_
    intro b u hu
    refine ⟨ht.trans hu, ?_⟩
    intro hn
    rw [ht.active.trans hn] at ha
    cases ha

theorem isActive_spec : wp (setting ok op) isActive (fun b t => Rely s t ∧ (s.active = none → b = false)) s :=
  ask_spec fun _ => wp_invoke_last fun _ hu _ _ hv => hu.trans hv

theorem isPreempting_spec :
    wp (setting ok op) isPreempting (fun b t => Rely s t ∧ (s.active = none → b = false)) s :=
  ask_spec fun _ => wp_invoke_last fun _ hu _ _ hv => hu.trans hv

theorem getActiveGoal_spec (hi : Inv s) :
    wp (setting ok op) getActiveGoal (fun o t => Rely s t ∧ (s.active = none → o = none)) s := by
  apply wp_invoke
  intro t ht _
  simp only [sem]
  cases ha : t.active with
  | none => exact wp_pure fun u hu => ⟨ht.trans hu, fun _ => rfl⟩
  | some g =>
    refine wp_bind (wp_mono (activeRuns_spec ha ((hi.rely ht).running g ha)) ?_)
    intro b u hb
    obtain ⟨rfl, hu⟩ := hb
    exact wp_pure fun v hv => ⟨(ht.trans hu).trans hv, fun hn => by simp [ht.active.trans hn] at ha⟩

theorem publishFeedback_spec (hi : Inv s) (f : A.Feedback) :
    wp (setting ok op) (publishFeedback f)
      (fun b t => Moves ok op s t ∧ (s.active = none → b = false)) s := by
  apply wp_invoke
  intro t ht _
  simp only [sem]
  cases ha : t.active with
  | none => exact wp_pure fun u hu => ⟨.rely (ht.trans hu), fun _ => rfl⟩
  | some g =>
    refine wp_bind (wp_mono (activeRuns_spec ha ((hi.rely ht).running g ha)) ?_)
    intro b u hb
    obtain ⟨rfl, hu⟩ := hb
    refine wp_invoke fun v hv _ => wp_pure fun w hw => ⟨?_, fun hn => by simp [ht.active.trans hn] at ha⟩
    have hf : Frame v (sem op (.publishFeedback .active f) v).2 := ⟨rfl, rfl, rfl, rfl, rfl, rfl⟩
    exact ((Moves.rely ((ht.trans hu).trans hv)).tail (.frame hf)).tail (.rely hw)

/-- The pending goal that `pendingGoalHandle` returns, unless the slot is empty. -/
theorem pendingGoalHandle_moves (hi : Inv s) :
    wp (setting ok op) pendingGoalHandle (fun o t => Rely s t ∧ (s.pending = none → o = none)) s := by
  refine wp_mono (pendingGoalHandle_spec hi) fun o t ho => ⟨ho.1, fun hn => ?_⟩
  cases o with
  | none => rfl
  | some p => simp [ho.1.pending.symm.trans ho.2] at hn

theorem shutdown_spec (s : St A) :
    wp (setting ok op) shutdown (fun _ t => Rely s.dropActive.dropPending t) s := by
  apply wp_invoke
  intro t ht _
  apply wp_invoke
  intro u hu _
  apply wp_invoke_last
  intro v hv _ w hw
  have h1 := (((ht.dropActive).trans hu).dropPending).trans hv
  exact (h1.trans (rely_connected v false)).trans hw

theorem method_moves (hi : Inv s) (th : Tid) (m : Method A) :
    wp (setting ok (.call th m)) m.body (Moved ok (.call th m) s) s := by
  have rel : ∀ {v : Ret} {t u : St A}, Moved ok (.call th m) s v t → Rely t u → Moved ok (.call th m) s v u :=
    fun h hu => ⟨h.1.tail (.rely hu), h.2⟩
  cases m with
  | acceptPending result =>
    refine wp_return (wp_mono (acceptPending_spec hi result) fun b t hb u hu => rel ?_ hu)
    rcases hb with ⟨rfl, ht⟩ | ⟨p, w, hp, hw, h⟩
    · exact ⟨.rely ht, fun _ => rfl⟩
    · have hwp : w.pending = some p := hw.slots.2.trans hp
      refine ⟨hw.moves.trans ?_, fun he => by simp [he.2] at hp⟩
      rcases h with ⟨_, ht⟩ | ⟨_, hl⟩
      · exact (Relation.ReflTransGen.single (.activate p hw.slots.1 hwp)).tail (.rely ht)
      · exact hl.moves hwp
  | rejectPending result =>
    refine wp_return (wp_mono (rejectPending_spec hi result) fun b t hb u hu => rel ?_ hu)
    rcases hb with ⟨rfl, ht⟩ | ⟨p, hp, _, h⟩
    · exact ⟨.rely ht, fun _ => rfl⟩
    · exact ⟨h.moves hp, fun he => by simp [he.2] at hp⟩
  | publishFeedback f =>
    refine wp_return (wp_mono (publishFeedback_spec hi f) fun b t hb u hu => rel ⟨hb.1, fun he => ?_⟩ hu)
    rw [hb.2 he.1]; rfl
  | abortActive result | cancelActive result =>
    refine wp_return (wp_mono (finishActive_spec hi result _) fun b t hb u hu => rel ?_ hu)
    rcases hb with ⟨_, rfl, ht⟩ | ⟨_, w, hw, ht⟩
    · exact ⟨.rely ht, fun _ => rfl⟩
    · refine ⟨(ClearedActive.moves (Or.inr hw)).tail (.rely ht), fun he => ?_⟩
      obtain ⟨g, _, hg, _⟩ := hw
      simp [he.1] at hg
  | succeedActive result =>
    refine wp_return (wp_mono (succeedActive_spec hi result) fun b t hb u hu => rel ?_ hu)
    rcases hb with ⟨_, rfl, ht⟩ | ⟨g, hg, _, ht⟩
    · exact ⟨.rely ht, fun _ => rfl⟩
    · have hmove : Moves ok (.call th (.succeedActive result)) s _ :=
        .single (.finishActive g _ result hg (.succeeded th result rfl))
      exact ⟨hmove.tail (.rely ht), fun he => by simp [he.1] at hg⟩
  | isActive =>
    refine wp_return (wp_mono isActive_spec fun b t hb u hu => ⟨.rely (hb.1.trans hu), fun he => ?_⟩)
    rw [hb.2 he.1]; rfl
  | isPreempting =>
    refine wp_return (wp_mono isPreempting_spec fun b t hb u hu => ⟨.rely (hb.1.trans hu), fun he => ?_⟩)
    rw [hb.2 he.1]; rfl
  | isPending =>
    refine wp_return (wp_bind (wp_mono (pendingGoalHandle_moves hi) ?_))
    intro o t ho
    apply wp_pure
    intro v hv u hu
    refine ⟨.rely ((ho.1.trans hv).trans hu), fun he => ?_⟩
    rw [ho.2 he.2]; rfl
  | getActiveGoal =>
    refine wp_return (wp_mono (getActiveGoal_spec hi) fun b t hb u hu => ⟨.rely (hb.1.trans hu), fun he => ?_⟩)
    rw [hb.2 he.1]; rfl
  | getPendingGoal =>
    refine wp_return (wp_mono (pendingGoalHandle_moves hi) fun b t hb u hu => ⟨.rely (hb.1.trans hu), fun he => ?_⟩)
    rw [hb.2 he.2]; rfl
  | setGoalHook b | setCancelHook b =>
    refine wp_frame (fun t => ⟨rfl, rfl, rfl, rfl, rfl, rfl⟩) ?_
    intro _ t ht
    apply wp_pure
    intro u hu
    exact ⟨ht.tail (.rely hu), fun _ => rfl⟩
  | shutdown =>
    refine wp_bind (wp_mono (shutdown_spec s) ?_)
    intro _ t ht
    apply wp_pure
    intro u hu
    exact ⟨(Relation.ReflTransGen.single (.shutdown th rfl)).tail (.rely (ht.trans hu)), fun _ => rfl⟩

/-! ## The callbacks -/

theorem acceptedCallback_spec (hi : Inv s) (g : Nat) :
    wp (setting ok (.acceptedCallback g)) (Op.body (.acceptedCallback g))
      (fun v t => (∃ b, v = .bool b) ∧ ∃ u, Moves ok (.acceptedCallback g) s u ∧ u.pending = none ∧
        Rely (u.store g) t) s := by
  refine wp_return (wp_bind (wp_mono (pendingGoalHandle_spec hi) ?_))
  intro o t ho
  obtain ⟨ht, ho⟩ := ho
  have fin : ∀ {u w : St A}, Moves ok (.acceptedCallback g) s u → u.pending = none → Rely (u.store g) w →
      wp (setting ok (.acceptedCallback g)) (invoke .getGoalHook) (fun a t => ∀ x, Rely t x →
        (∃ b, Ret.bool a = .bool b) ∧ ∃ u, Moves ok (.acceptedCallback g) s u ∧ u.pending = none ∧
          Rely (u.store g) x) w := by
    intro u w hu hn huw
    exact wp_invoke_last fun v hv _ y hy x hx => ⟨⟨_, rfl⟩, u, hu, hn, ((huw.trans hv).trans hy).trans hx⟩
  cases o with
  | none =>
    refine wp_bind (wp_invoke_last ?_)
    intro u hu _ w hw
    rcases ho with hn | ⟨p, hp, hc, v, hok, hvp, hvc⟩
    · exact fin (.rely ht) hn ((hu.store g).trans hw)
    · -- the pending goal is CANCELING: it is overwritten
      refine fin (u := t.dropPending) ((Moves.rely ht).tail (.lose p hp hc (Or.inr ⟨v, g, rfl, hok, hvp, hvc⟩))) rfl ?_
      exact (hu.store g).trans hw
  | some p =>
    refine wp_bind (wp_mono (terminateGoal_spec ((hi.rely ht).deferred p ho) A.result) ?_)
    intro _ u hu
    apply wp_invoke
    intro w hw _
    rcases hu with ⟨st, hst, hu⟩ | ⟨hu, hc, v, hok, hvc⟩
    · refine fin (u := (t.finish _ p st A.result).dropPending) ((Moves.rely ht).tail
        (.finishPending p st A.result ho hst)) rfl ?_
      exact (hu.trans hw).store g
    · refine fin (u := u.dropPending) ((Moves.rely (ht.trans hu)).tail
        (.lose p (hu.pending.trans ho) hc (Or.inl ⟨v, hok, hvc⟩))) rfl ?_
      exact hw.store g

theorem cancelCallback_spec (g : Nat) :
    wp (setting ok (.cancelCallback g)) (Op.body (.cancelCallback g)) (Moved ok (.cancelCallback g) s) s := by
  refine wp_return (wp_invoke ?_)
  intro t ht _
  show wp _ (if t.active = some g then _ else _) _ t
  by_cases ha : t.active = some g
  · rw [if_pos ha]
    refine wp_frame (fun t => ⟨rfl, rfl, rfl, rfl, rfl, rfl⟩) ?_
    intro _ u hu
    apply wp_pure
    intro v hv w hw
    exact ⟨(((Moves.rely ht).trans hu).tail (.rely hv)).tail (.rely hw), fun he => by
      simp [ht.active.trans he.1] at ha⟩
  · rw [if_neg ha]
    apply wp_invoke
    intro u hu _
    show wp _ (if u.pending = some g then _ else _) _ u
    by_cases hp : u.pending = some g
    · rw [if_pos hp]
      refine wp_frame (fun t => ⟨rfl, rfl, rfl, rfl, rfl, rfl⟩) ?_
      intro _ v hv
      apply wp_pure
      intro w hw x hx
      exact ⟨(((Moves.rely (ht.trans hu)).trans hv).tail (.rely hw)).tail (.rely hx), fun he => by
        simp [(ht.trans hu).pending.trans he.2] at hp⟩
    · rw [if_neg hp]
      exact wp_pure fun v hv w hw => ⟨.rely (((ht.trans hu).trans hv).trans hw), fun _ => rfl⟩

theorem cancelHandler_spec (hi : Inv s) (g : Nat) :
    wp (setting ok (.cancelHandler g)) (Op.body (.cancelHandler g)) (Moved ok (.cancelHandler g) s) s := by
  refine wp_return (wp_invoke ?_)
  intro t ht _
  show wp _ (if t.active = some g then _ else _) _ t
  by_cases ha : t.active = some g
  · rw [if_pos ha]
    apply wp_invoke
    intro u hu _
    apply wp_pure
    intro v hv w hw
    exact ⟨.rely (((ht.trans hu).trans hv).trans hw), fun he => by simp [ht.active.trans he.1] at ha⟩
  · rw [if_neg ha]
    apply wp_invoke
    intro u hu _
    have hsu := ht.trans hu
    show wp _ (if u.pending = some g then _ else _) _ u
    by_cases hp : u.pending = some g
    · rw [if_pos hp]
      refine wp_mono (reject_spec ((hi.rely hsu).deferred g hp) A.result none) ?_
      intro o v hv w hw
      refine ⟨((Moves.rely hsu).trans (hv.2.moves hp)).tail (.rely hw), fun _ => ?_⟩
      rw [hv.1]; rfl
    · rw [if_neg hp]
      exact wp_pure fun v hv w hw => ⟨.rely ((hsu.trans hv).trans hw), fun _ => rfl⟩

theorem cancelHandlerFinish_spec (hi : Inv s) (g : Nat) :
    wp (setting ok (.cancelHandlerFinish g)) (Op.body (.cancelHandlerFinish g)) (Moved ok (.cancelHandlerFinish g) s)
      s := by
  refine wp_bind (wp_invoke ?_)
  intro t ht _
  show wp _ (if t.active = some g then _ else _) _ t
  by_cases ha : t.active = some g
  · rw [if_pos ha]
    refine wp_bind (wp_mono (finishActive_spec (hi.rely ht) A.result true) ?_)
    intro b u hb
    refine wp_pure fun v hv => wp_pure fun w hw => ⟨?_, fun _ => rfl⟩
    rcases hb with ⟨_, _, hu⟩ | ⟨_, x, hx, hu⟩
    · exact .rely (((ht.trans hu).trans hv).trans hw)
    · exact ((Moves.rely ht).trans (ClearedActive.moves (Or.inr hx))).tail (.rely ((hu.trans hv).trans hw))
  · rw [if_neg ha]
    exact wp_pure fun u hu => wp_pure fun v hv => ⟨.rely ((ht.trans hu).trans hv), fun _ => rfl⟩

/-- Every section but `acceptedCallback`'s is a sequence of moves. -/
theorem section_moves (hi : Inv s) (hop : ∀ g, op ≠ .acceptedCallback g) :
    wp (setting ok op) op.body (Moved ok op s) s := by
  cases op with
  | call th m => exact method_moves hi th m
  | cancelCallback g => exact cancelCallback_spec g
  | acceptedCallback g => exact absurd rfl (hop g)
  | cancelHandler g => exact cancelHandler_spec hi g
  | cancelHandlerFinish g => exact cancelHandlerFinish_spec hi g

end RttRos2.Actions
