/-
  RttRos2.Actions.Effects — which calls the sections make: what they can do to goals and to
  the owner's queue.

  - `body_ending`: but for `publishFeedback` and `cancelCallback`, a section neither
    publishes feedback nor sends an operation to the owner, and ends goals only as
    `Op.mayEnd` says: the active goal, or one through its handle, with the section's own
    result.
  - `section_finishes`: whatever the others do, a handle it ends a goal through is that of
    the pending goal.
-/

import RttRos2.Actions.Calls

namespace RttRos2.Actions

open RttRos2.Lib

variable {A : ActionT} {op : Op A} {g : Nat} {result : A.Result}

def Call.publishes : Call A → Bool
  | .publishFeedback _ _ => true
  | _ => false

/-- It neither publishes feedback nor sends an operation to the owner. -/
def Call.plain : Call A → Bool
  | .publishFeedback _ _ | .sendCancelHandler _ => false
  | _ => true

/-- It ends a goal: through which pointer, how, and with what. -/
def Call.ends : Call A → Option (Ref × GoalEvent × A.Result)
  | .succeed r result => some (r, .succeed, result)
  | .abort r result => some (r, .abort, result)
  | .canceled r result => some (r, .canceled, result)
  | _ => none

def Call.setsSlot : Call A → Bool
  | .setActive _ | .setPending _ => true
  | _ => false

theorem publishes_of_plain {c : Call A} (h : c.plain = true) : c.publishes = false := by
  cases c <;> first | rfl | cases h

/-- It is plain, and ends a goal only as `R` allows. -/
structure Within (R : Ref → GoalEvent → A.Result → Prop) (c : Call A) : Prop where
  plain : c.plain = true
  ends : ∀ r e result, c.ends = some (r, e, result) → R r e result

theorem within_of {R : Ref → GoalEvent → A.Result → Prop} {c : Call A} (hp : c.plain = true) (he : c.ends = none) :
    Within R c := by
  refine ⟨hp, fun r e result h => ?_⟩
  rw [he] at h
  cases h

theorem within_ends {R : Ref → GoalEvent → A.Result → Prop} {c : Call A} {r : Ref} {e : GoalEvent} (hp : c.plain = true)
    (he : c.ends = some (r, e, result)) (h : R r e result) : Within R c := by
  refine ⟨hp, fun r' e' result' h' => ?_⟩
  rw [he] at h'
  cases h'
  exact h

abbrev Ending {α : Type} (R : Ref → GoalEvent → A.Result → Prop) (p : M A α) : Prop := p.Only (Within R)

/-! ## The helpers -/

section
variable {R : Ref → GoalEvent → A.Result → Prop}

theorem activeRuns_ending : Ending R activeRuns := by
  refine only_perform (within_of rfl rfl) fun r => ?_
  cases r
  · exact only_perform (within_of rfl rfl) fun _ => trivial
  · trivial

theorem pendingGoalHandle_ending : Ending R pendingGoalHandle := by
  refine only_perform (within_of rfl rfl) fun o => ?_
  cases o with
  | none => trivial
  | some p =>
    refine only_perform (within_of rfl rfl) fun a => ?_
    cases a
    · trivial
    refine only_perform (within_of rfl rfl) fun x => ?_
    cases x
    · refine only_perform (within_of rfl rfl) fun c => ?_
      cases c <;> trivial
    · trivial

theorem finishActive_ending (hR : ∀ e, e ≠ .succeed → R .active e result) (pc : Bool) :
    Ending R (finishActive result pc) := by
  refine only_perform (within_of rfl rfl) fun o => ?_
  cases o with
  | none => trivial
  | some _ =>
    refine only_bind activeRuns_ending fun b => ?_
    cases b
    · exact only_perform (within_of rfl rfl) fun _ => trivial
    refine only_perform (within_of rfl rfl) fun c => ?_
    cases c
    · exact only_perform (within_ends rfl rfl (hR .abort nofun)) fun _ => only_perform (within_of rfl rfl) fun _ => trivial
    · exact only_perform (within_ends rfl rfl (hR .canceled nofun)) fun _ =>
        only_perform (within_of rfl rfl) fun _ => trivial

theorem terminateGoal_ending (hR : ∀ e, e ≠ .succeed → R (.handle g) e result) :
    (terminateGoal g result).Only fun c => Within R c ∧ c.setsSlot = false := by
  have hcanceled : Within R (.canceled (.handle g) result) := within_ends rfl rfl (hR .canceled nofun)
  have habort : Within R (.abort (.handle g) result) := within_ends rfl rfl (hR .abort nofun)
  refine only_perform ⟨within_of rfl rfl, rfl⟩ fun c => ?_
  cases c
  · refine only_perform ⟨within_of rfl rfl, rfl⟩ fun x => ?_
    cases x
    · refine only_perform ⟨within_of rfl rfl, rfl⟩ fun b => ?_
      cases b
      · trivial
      · exact only_perform ⟨habort, rfl⟩ fun _ => trivial
    · exact only_perform ⟨habort, rfl⟩ fun _ => trivial
  · exact only_perform ⟨hcanceled, rfl⟩ fun _ => trivial

theorem acceptPending_ending (hR : ∀ e, e ≠ .succeed → R .active e result) : Ending R (acceptPending result) := by
  refine only_bind pendingGoalHandle_ending fun o => ?_
  cases o with
  | none => trivial
  | some p =>
    refine only_bind (finishActive_ending hR false) fun _ => only_perform (within_of rfl rfl) fun b => ?_
    cases b
    · exact only_perform (within_of rfl rfl) fun _ => trivial
    · exact only_perform (within_of rfl rfl) fun _ => only_perform (within_of rfl rfl) fun _ => trivial

theorem rejectPending_ending (hR : ∀ g e, e ≠ .succeed → R (.handle g) e result) : Ending R (rejectPending result) := by
  refine only_bind pendingGoalHandle_ending fun o => ?_
  cases o with
  | none => trivial
  | some p =>
    refine only_bind (only_mono (terminateGoal_ending (hR p)) fun _ h => h.1) fun _ => ?_
    exact only_perform (within_of rfl rfl) fun _ => trivial

theorem succeedActive_ending (hR : R .active .succeed result) : Ending R (succeedActive result) := by
  refine only_perform (within_of rfl rfl) fun o => ?_
  cases o with
  | none => trivial
  | some _ =>
    refine only_bind activeRuns_ending fun b => ?_
    cases b
    · trivial
    refine only_perform (within_ends rfl rfl hR) fun done => ?_
    cases done
    · trivial
    · exact only_perform (within_of rfl rfl) fun _ => trivial

theorem getActive_ending {α : Type} {f : Option Nat → M A α} (h : ∀ o, Ending R (f o)) :
    Ending R (invoke .getActive >>= f) := only_perform (within_of rfl rfl) h

end

/-! ## The sections -/

/-- The result that the section ends the active goal with, if it ends that one. -/
def Op.activeResult : Op A → Option A.Result
  | .call _ (.acceptPending r) | .call _ (.abortActive r) | .call _ (.cancelActive r) | .call _ (.succeedActive r) => some r
  | .cancelHandlerFinish _ => some A.result
  | _ => none

/-- And the pending goal. -/
def Op.pendingResult : Op A → Option A.Result
  | .call _ (.rejectPending r) => some r
  | .acceptedCallback _ | .cancelHandler _ => some A.result
  | _ => none

def Op.succeeds : Op A → Bool
  | .call _ (.succeedActive _) => true
  | _ => false

def Op.mayEnd (op : Op A) (r : Ref) (e : GoalEvent) (result : A.Result) : Prop :=
  (r = .active ∧ op.activeResult = some result ∧ (e = .succeed ↔ op.succeeds = true)) ∨
  (∃ g, r = .handle g) ∧ op.pendingResult = some result ∧ e ≠ .succeed

theorem mayEnd_active (hr : op.activeResult = some result) (hs : op.succeeds = false) (e : GoalEvent)
    (he : e ≠ .succeed) : op.mayEnd .active e result := .inl ⟨rfl, hr, by simp [he, hs]⟩

theorem mayEnd_handle (hr : op.pendingResult = some result) (g : Nat) (e : GoalEvent) (he : e ≠ .succeed) :
    op.mayEnd (.handle g) e result := .inr ⟨⟨g, rfl⟩, hr, he⟩

theorem method_ending (th : Tid) {m : Method A} (hm : ∀ f, m ≠ .publishFeedback f) :
    Ending (Op.call th m).mayEnd m.body := by
  cases m with
  | publishFeedback f => exact absurd rfl (hm f)
  | acceptPending r => exact only_bind (acceptPending_ending (mayEnd_active rfl rfl)) fun _ => trivial
  | rejectPending r => exact only_bind (rejectPending_ending (mayEnd_handle rfl)) fun _ => trivial
  | abortActive r => exact only_bind (finishActive_ending (mayEnd_active rfl rfl) false) fun _ => trivial
  | cancelActive r => exact only_bind (finishActive_ending (mayEnd_active rfl rfl) true) fun _ => trivial
  | succeedActive r =>
    exact only_bind (succeedActive_ending (.inl ⟨rfl, rfl, iff_of_true rfl rfl⟩)) fun _ => trivial
  | isPending => exact only_bind (only_bind pendingGoalHandle_ending fun _ => trivial) fun _ => trivial
  | getPendingGoal => exact only_bind pendingGoalHandle_ending fun _ => trivial
  | isActive | isPreempting =>
    refine only_bind (getActive_ending fun o => ?_) fun _ => trivial
    cases o with
    | none => trivial
    | some _ => exact only_perform (within_of rfl rfl) fun _ => trivial
  | getActiveGoal =>
    refine only_bind (getActive_ending fun o => ?_) fun _ => trivial
    cases o with
    | none => trivial
    | some _ => exact only_bind activeRuns_ending fun b => by cases b <;> trivial
  | setGoalHook b | setCancelHook b => exact only_perform (within_of rfl rfl) fun _ => trivial
  | shutdown =>
    exact only_perform (within_of rfl rfl) fun _ => only_perform (within_of rfl rfl) fun _ =>
      only_perform (within_of rfl rfl) fun _ => trivial

theorem body_ending (hop : ∀ th f, op ≠ .call th (.publishFeedback f)) (hc : ∀ g, op ≠ .cancelCallback g) :
    Ending op.mayEnd op.body := by
  cases op with
  | call th m => exact method_ending th fun f h => hop th f (by rw [h])
  | cancelCallback g => exact absurd rfl (hc g)
  | acceptedCallback g =>
    refine only_bind (only_bind pendingGoalHandle_ending fun o => ?_) fun _ => trivial
    have hlast : Ending (Op.acceptedCallback g : Op A).mayEnd (do invoke (.setPending (some g)); invoke .getGoalHook) :=
      only_perform (within_of rfl rfl) fun _ => only_perform (within_of rfl rfl) fun _ => trivial
    cases o with
    | none => exact hlast
    | some p => exact only_bind (only_mono (terminateGoal_ending (mayEnd_handle rfl p)) fun _ h => h.1) fun _ => hlast
  | cancelHandler g =>
    refine only_bind (getActive_ending fun o => ?_) fun _ => trivial
    split
    · exact only_perform (within_of rfl rfl) fun _ => trivial
    · refine only_perform (within_of rfl rfl) fun o' => ?_
      split
      · exact only_bind (only_mono (terminateGoal_ending (mayEnd_handle rfl g)) fun _ h => h.1) fun _ =>
          only_perform (within_of rfl rfl) fun _ => trivial
      · trivial
  | cancelHandlerFinish g =>
    refine only_bind (getActive_ending fun o => ?_) fun _ => trivial
    split
    · exact only_bind (finishActive_ending (mayEnd_active rfl rfl) true) fun _ => trivial
    · trivial

theorem body_plain (hop : ∀ th f, op ≠ .call th (.publishFeedback f)) (hc : ∀ g, op ≠ .cancelCallback g) :
    op.body.Only fun c => c.plain = true := only_mono (body_ending hop hc) fun _ h => h.plain

theorem cancelCallback_ends (g : Nat) :
    (Op.cancelCallback g : Op A).body.Only fun c => c.publishes = false ∧ c.ends = none := by
  refine only_bind (only_perform ⟨rfl, rfl⟩ fun o => ?_) fun _ => trivial
  split
  · exact only_perform ⟨rfl, rfl⟩ fun _ => trivial
  · refine only_perform ⟨rfl, rfl⟩ fun o' => ?_
    split
    · exact only_perform ⟨rfl, rfl⟩ fun _ => trivial
    · trivial

theorem publishFeedback_ends (th : Tid) (f : A.Feedback) :
    (Op.call th (.publishFeedback f)).body.Only fun c => c.ends = none := by
  refine only_bind (only_perform rfl fun o => ?_) fun _ => trivial
  cases o with
  | none => trivial
  | some _ =>
    refine only_bind (only_perform rfl fun b => ?_) fun b => ?_
    · cases b
      · exact only_perform rfl fun _ => trivial
      · trivial
    · cases b
      · trivial
      · exact only_perform rfl fun _ => trivial

/-! ## What they find -/

theorem calls_invoke {α : Type} {G : Call A → St A → Prop} {s : St A} {c : Call A} {f : c.Res → M A α}
    (h : ∀ t, Rely s t → G c t ∧ Calls (setting Anything op) G (f (sem op c t).1) (sem op c t).2) :
    Calls (setting Anything op) G (invoke c >>= f) s := calls_perform fun t ht _ => h t ht

/-- The goals the section ends are those in the slots. -/
def Finishes (op : Op A) (c : Call A) (s : St A) : Prop :=
  ∀ r e result, c.ends = some (r, e, result) → op.mayEnd r e result ∧ ∀ g, r = .handle g → s.pending = some g

theorem finishes_of_not {c : Call A} (hc : c.ends = none) (s : St A) : Finishes op c s := by
  intro r e result h
  rw [hc] at h
  cases h

theorem sem_pending {c : Call A} (hc : c.setsSlot = false) (s : St A) : (sem op c s).2.pending = s.pending := by
  cases c with
  | setActive o | setPending o => cases hc
  | execute r =>
    simp only [sem, St.execute]
    split
    · rfl
    · split <;> rfl
  | succeed r result | abort r result | canceled r result =>
    simp only [sem, St.terminate]
    split
    · rfl
    · split <;> rfl
  | _ => rfl

variable {s : St A}

theorem terminateGoal_finishes (hp : s.pending = some g) (hr : op.pendingResult = some result) :
    Calls (setting Anything op) (Finishes op) (terminateGoal g result) s := by
  refine calls_of_kept (I := fun t => t.pending = some g)
    (terminateGoal_ending (R := fun r e x => r = .handle g ∧ e ≠ .succeed ∧ x = result) fun e he => ⟨rfl, he, rfl⟩) hp
    (fun hs ht => ht.pending.trans hs) (fun hc hs => (sem_pending hc.2 _).trans hs) fun c t hc ht r e x hx => ?_
  obtain ⟨rfl, he, rfl⟩ := hc.1.ends r e x hx
  refine ⟨mayEnd_handle hr g e he, fun g' hg => ?_⟩
  cases hg
  exact ht

theorem only_quiet {α : Type} {p : M A α} (h : p.Only fun c => c.ends = none) (s : St A) :
    Calls (setting Anything op) (Finishes op) p s := calls_of_only h fun _ t hc => finishes_of_not hc t

/-- A call that ends nothing, and the rest. -/
theorem calls_quiet {α : Type} {c : Call A} {f : c.Res → M A α} (hc : c.ends = none)
    (h : ∀ t, Rely s t → Calls (setting Anything op) (Finishes op) (f (sem op c t).1) (sem op c t).2) :
    Calls (setting Anything op) (Finishes op) (invoke c >>= f) s :=
  calls_invoke fun t ht => ⟨finishes_of_not hc t, h t ht⟩

theorem pendingGoalHandle_quiet {α : Type} (hi : Inv s) {f : Option Nat → M A α}
    (h : ∀ o t, (∀ p, o = some p → t.pending = some p) → Calls (setting Anything op) (Finishes op) (f o) t) :
    Calls (setting Anything op) (Finishes op) (pendingGoalHandle >>= f) s := by
  refine calls_bind (calls_of_only (pendingGoalHandle_ending (R := fun _ _ _ => False)) fun c t hc r e x hx =>
    (hc.ends r e x hx).elim) (wp_mono (pendingGoalHandle_spec hi) fun o t ho => h o t ?_)
  rintro p rfl
  exact ho.2

theorem section_finishes (hi : Inv s) (op : Op A) : Calls (setting Anything op) (Finishes op) op.body s := by
  by_cases hpub : ∃ th f, op = .call th (.publishFeedback f)
  · obtain ⟨th, f, rfl⟩ := hpub
    exact only_quiet (publishFeedback_ends th f) s
  by_cases hcancel : ∃ g, op = .cancelCallback g
  · obtain ⟨g, rfl⟩ := hcancel
    exact only_quiet (only_mono (cancelCallback_ends g) fun _ h => h.2) s
  have hends := body_ending (fun th f h => hpub ⟨th, f, h⟩) fun g h => hcancel ⟨g, h⟩
  -- only three sections end the pending goal
  cases hr : op.pendingResult with
  | none =>
    refine calls_of_only hends fun c t hc r e x hx => ?_
    have hmay := hc.ends r e x hx
    refine ⟨hmay, fun g hg => ?_⟩
    rcases hmay with ⟨ha, -⟩ | ⟨-, hx, -⟩
    · rw [hg] at ha
      cases ha
    · rw [hr] at hx
      cases hx
  | some result =>
    cases op with
    | call th m =>
      cases m with
      | rejectPending x =>
        refine calls_bind (pendingGoalHandle_quiet hi fun o t ho => ?_) (wp_trivial fun _ _ => trivial)
        cases o with
        | none => trivial
        | some p =>
          refine calls_bind (terminateGoal_finishes (ho p rfl) rfl) (wp_trivial fun _ u => ?_)
          refine only_quiet ?_ u
          exact only_perform rfl fun _ => trivial
      | _ => cases hr
    | acceptedCallback g =>
      refine calls_bind (pendingGoalHandle_quiet hi fun o t ho => ?_) (wp_trivial fun _ _ => trivial)
      have hstore : (do invoke (.setPending (some g)); invoke .getGoalHook : M A Bool).Only fun c => c.ends = none :=
        only_perform rfl fun _ => only_perform rfl fun _ => trivial
      cases o with
      | none => exact only_quiet hstore t
      | some p =>
        exact calls_bind (terminateGoal_finishes (ho p rfl) rfl) (wp_trivial fun _ u => only_quiet hstore u)
    | cancelHandler g =>
      refine calls_bind (calls_quiet rfl fun t ht => ?_) (wp_trivial fun _ _ => trivial)
      split
      · refine only_quiet ?_ _
        exact only_perform rfl fun _ => trivial
      · refine calls_quiet rfl fun u hu => ?_
        split
        · rename_i hp
          refine calls_bind (terminateGoal_finishes hp rfl) (wp_trivial fun _ v => ?_)
          refine only_quiet ?_ v
          exact only_perform rfl fun _ => trivial
        · trivial
    | cancelCallback g | cancelHandlerFinish g => cases hr

end RttRos2.Actions
