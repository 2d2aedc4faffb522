/-
  RttRos2.Actions.Logs — the calls that the helpers of `SimpleActionServer` make.

  Each helper's log is stated in full, up to the queries before its decision: which
  queries they are depends on how the other threads move the goals, but they only ask,
  and only about the goal in hand (`Asks`).
  - `pendingGoalHandle_log`: queries about the pending goal.
  - `finishActive_log`: queries, the test that selects the transition, the transition, the
    reset of the slot. The transition does not throw.
  - `terminateGoal_log`: queries, then CANCELED, or EXECUTING and ABORTED, or an
    `execute()` that throws.
  - `succeedActive_log`, `acceptPending_log`, `rejectPending_log`: the methods.
  - `cancelHandler_log`, `cancelHandlerFinish_log`: the two sections of `cancelHandler`.
-/

import RttRos2.Actions.Calls

namespace RttRos2.Actions

open RttRos2.Lib

variable {A : ActionT} {op : Op A} {s t u : St A} {l : Log A} {result : A.Result} {g p : Nat}

/-- The pointer a goal-handle call goes through. -/
def Call.ref? : Call A → Option Ref
  | .isActive r | .isExecuting r | .isCanceling r | .execute r => some r
  | .succeed r _ | .abort r _ | .canceled r _ | .publishFeedback r _ => some r
  | _ => none

/-- The call changes nothing. -/
def Call.asks : Call A → Bool
  | .getActive | .getPending | .isActive _ | .isExecuting _ | .isCanceling _ | .getGoalHook | .getCancelHook => true
  | _ => false

theorem sem_asks {c : Call A} (h : c.asks = true) : (sem op c s).2 = s := by
  cases c <;> first | rfl | cases h

/-- Calls that only ask, through `r` if through a pointer at all. -/
def Asks (r : Option Ref) (l : Log A) : Prop := ∀ e ∈ l, e.1.asks = true ∧ (e.1.ref? = none ∨ e.1.ref? = r)

@[simp] theorem asks_nil (r : Option Ref) : Asks r ([] : Log A) := List.forall_mem_nil _

@[simp] theorem asks_cons {r : Option Ref} {e : Call A × St A} :
    Asks r (e :: l) ↔ (e.1.asks = true ∧ (e.1.ref? = none ∨ e.1.ref? = r)) ∧ Asks r l := List.forall_mem_cons

@[simp] theorem asks_append {r : Option Ref} {l' : Log A} : Asks r (l ++ l') ↔ Asks r l ∧ Asks r l' :=
  List.forall_mem_append

/-- The program made the calls `l` in a section `op` and returned `a`. -/
abbrev Executed {α : Type} (op : Op A) (p : M A α) (s : St A) (l : Log A) (a : α) (t : St A) : Prop :=
  Exec (setting Anything op) p s l (.ret a) t

section
variable {α : Type} {prog : M A α} {a : α}

theorem Executed.post {Q : α → St A → Prop} (h : Executed op prog s l a t) (hw : wp (setting Anything op) prog Q s) :
    Q a t := wp_ret (wp_exec hw h fun _ _ => trivial)

theorem Executed.pure {b : α} (h : Executed op (pure b) s l a t) : a = b ∧ l = [] ∧ Rely s t := by
  obtain ⟨hq, hl, ht⟩ := exec_ret h
  cases hq
  exact ⟨rfl, hl, ht⟩

theorem Executed.invoke {c : Call A} {f : c.Res → M A α} (h : Executed op (invoke c >>= f) s l a t) :
    ∃ u l', Rely s u ∧ l = (c, u) :: l' ∧ Executed op (f (sem op c u).1) (sem op c u).2 l' a t := exec_perform h

theorem Executed.body {f : α → Ret} {v : Ret} (h : Executed op (do return f (← prog)) s l v t) :
    ∃ a, v = f a ∧ Executed op prog s l a t := by
  obtain ⟨l₁, l₂, a, u, rfl, h₁, h₂⟩ := exec_bind h
  obtain ⟨hv, rfl, ht⟩ := Executed.pure h₂
  refine ⟨a, hv, ?_⟩
  rw [List.append_nil]
  exact h₁.rely ht

theorem Executed.body_unit {prog : M A Unit} {v w : Ret} (h : Executed op (do prog; return w) s l v t) :
    Executed op prog s l () t := by
  obtain ⟨l₁, l₂, _, u, rfl, h₁, h₂⟩ := exec_bind h
  obtain ⟨-, rfl, ht⟩ := Executed.pure h₂
  rw [List.append_nil]
  exact h₁.rely ht

/-- A section left alone returns; the call it was about to make is among those still made. -/
theorem section_completes {s x : Sys A} (h : Section op s l x) :
    ∃ l' v t, Executed op op.body s.st (l ++ l') v t ∧
      ∀ c k, x.crit = some ⟨op, .call c k⟩ → (c, x.st) ∈ l' := by
  obtain ⟨q, hq, hex⟩ := section_exec Anything h
  obtain ⟨l', v, t, hex', hcall⟩ := exec_complete hex
  refine ⟨l', v, t, hex', fun c k hc => hcall c k ?_⟩
  cases hc.symm.trans hq
  rfl

/-- While a program only asks, the shared state changes by what the others do. -/
theorem Asks.rely {r : Option Ref} {q : M A α} (ha : Asks r l) (h : Exec (setting Anything op) prog s l q t) :
    Rely s t ∧ ∀ e ∈ l, Rely s e.2 := by
  refine exec_le Rely.refl Rely.trans (fun _ _ h => h) h fun e he => ?_
  have hs : ((setting Anything op).sem e.1 e.2).2 = e.2 := sem_asks (ha e he).1
  rw [hs]
  exact .refl _

/-- What the first calls find, when they only ask. -/
theorem Asks.found {r : Option Ref} {l₁ l₂ : Log A} (ha : Asks r l₁) (h : Executed op prog s (l₁ ++ l₂) a t) :
    ∀ e ∈ l₁, Rely s e.2 := by
  obtain ⟨q, u, h⟩ := exec_prefix h rfl
  exact (ha.rely h).2

end

/-! ## What the calls of a log change -/

/-- The call is an `execute()` on a goal that is CANCELING. -/
def Call.executesCanceling (s : St A) : Call A → Bool
  | .execute r => s.query r GoalState.isCanceling
  | _ => false

/-- No `execute()` found its goal CANCELING. -/
def InTime (l : Log A) : Prop := ∀ e ∈ l, e.1.executesCanceling e.2 = false

instance (l : Log A) : Decidable (InTime l) := inferInstanceAs (Decidable (∀ e ∈ l, _))

/-- The calls made left every goal as they found it. -/
def GoalsKept (op : Op A) (l : Log A) : Prop := ∀ e ∈ l, (sem op e.1 e.2).2.goals = e.2.goals

/-- They changed no goal but `p`. -/
def OnlyGoal (op : Op A) (p : Nat) (l : Log A) : Prop := ∀ e ∈ l, ∀ g ≠ p, (sem op e.1 e.2).2.goals g = e.2.goals g

/-- Every goal-handle call is one on the goal `g`. -/
def Concerns (g : Nat) (l : Log A) : Prop := ∀ e ∈ l, ∀ r, e.1.ref? = some r → e.2.deref r = some g

theorem Asks.goalsKept {r : Option Ref} (h : Asks r l) : GoalsKept op l := fun e he => by rw [sem_asks (h e he).1]

theorem Asks.inTime {r : Option Ref} (h : Asks r l) : InTime l := by
  intro e he
  obtain ⟨ha, -⟩ := h e he
  obtain ⟨c, u⟩ := e
  cases c <;> first | rfl | cases ha

theorem InTime.append {l' : Log A} (h : InTime l) (h' : InTime l') : InTime (l ++ l') :=
  List.forall_mem_append.mpr ⟨h, h'⟩

theorem GoalsKept.append {l' : Log A} (h : GoalsKept op l) (h' : GoalsKept op l') : GoalsKept op (l ++ l') :=
  List.forall_mem_append.mpr ⟨h, h'⟩

theorem GoalsKept.onlyGoal (h : GoalsKept op l) : OnlyGoal op p l := fun e he g _ => by rw [h e he]

theorem OnlyGoal.append {l' : Log A} (h : OnlyGoal op p l) (h' : OnlyGoal op p l') : OnlyGoal op p (l ++ l') :=
  List.forall_mem_append.mpr ⟨h, h'⟩

theorem Concerns.append {l' : Log A} (h : Concerns g l) (h' : Concerns g l') : Concerns g (l ++ l') :=
  List.forall_mem_append.mpr ⟨h, h'⟩

/-- Calls that ask through a pointer which stays on `g`. -/
theorem Asks.concerns {r : Ref} (h : Asks (some r) l) (hr : ∀ e ∈ l, e.2.deref r = some g) : Concerns g l := by
  intro e he r' hr'
  rcases (h e he).2 with hn | hn
  · cases hn.symm.trans hr'
  · cases hn.symm.trans hr'
    exact hr e he

/-- A call changes no goal but the one it goes through. -/
theorem sem_other {c : Call A} (h : ∀ r ∈ c.ref?, s.deref r ≠ some g) : (sem op c s).2.goals g = s.goals g := by
  cases c with
  | execute r =>
    simp only [sem, St.execute]
    split
    · rfl
    · rename_i g' hg'
      have hne : g ≠ g' := fun e => h r rfl (e ▸ hg')
      split
      · rfl
      · exact Function.update_of_ne hne ..
  | succeed r result | abort r result | canceled r result =>
    simp only [sem, St.terminate]
    split
    · rfl
    · rename_i g' hg'
      have hne : g ≠ g' := fun e => h r rfl (e ▸ hg')
      split
      · rfl
      · exact Function.update_of_ne hne ..
  | setActive o => cases o <;> rfl
  | setPending o => cases o <;> rfl
  | _ => rfl

/-- A goal finished stays as it is. -/
theorem finished_stays {s t : St A} {g : Nat} {st : GoalState} (h : Rely s t) (hs : s.state g = st)
    (hst : st.terminal = true) (hr : (s.goals g).result = some result) :
    t.state g = st ∧ (t.goals g).result = some result := by
  subst hs
  exact ⟨(h.state g).terminal hst, (h.result g).trans hr⟩

/-! ## The helpers -/

theorem activeRuns_asks {b : Bool} (h : Executed op activeRuns s l b t) : Asks (some .active) l := by
  obtain ⟨u, l₁, -, rfl, h₁⟩ := h.invoke
  split at h₁
  · obtain ⟨-, rfl, -⟩ := h₁.pure
    simp [Call.asks, Call.ref?]
  · obtain ⟨v, l₂, -, rfl, h₂⟩ := Executed.invoke (f := pure) h₁
    obtain ⟨-, rfl, -⟩ := h₂.pure
    simp [Call.asks, Call.ref?]

theorem pendingGoalHandle_asks {o : Option Nat} (h : Executed op pendingGoalHandle s l o t) :
    Asks (s.pending.map fun _ => .pending) l := by
  obtain ⟨u, l₁, hu, rfl, h₁⟩ := h.invoke
  simp only [sem] at h₁
  rw [← hu.pending]
  cases hp : u.pending with
  | none =>
    rw [hp] at h₁
    obtain ⟨-, rfl, -⟩ := h₁.pure
    simp [Call.asks, Call.ref?]
  | some p =>
    rw [hp] at h₁
    obtain ⟨v, l₂, -, rfl, h₂⟩ := h₁.invoke
    split at h₂
    · obtain ⟨-, rfl, -⟩ := h₂.pure
      simp [Call.asks, Call.ref?]
    · obtain ⟨w, l₃, -, rfl, h₃⟩ := h₂.invoke
      split at h₃
      · obtain ⟨-, rfl, -⟩ := h₃.pure
        simp [Call.asks, Call.ref?]
      · obtain ⟨x, l₄, -, rfl, h₄⟩ := h₃.invoke
        split at h₄ <;> obtain ⟨-, rfl, -⟩ := h₄.pure <;> simp [Call.asks, Call.ref?]

theorem pendingGoalHandle_log (hi : Inv s) {o : Option Nat} (h : Executed op pendingGoalHandle s l o t) :
    Asks (s.pending.map fun _ => .pending) l ∧ Rely s t ∧ ∀ p, o = some p → s.pending = some p := by
  obtain ⟨hr, ho⟩ := h.post (pendingGoalHandle_spec hi)
  refine ⟨pendingGoalHandle_asks h, hr, fun p hp => ?_⟩
  subst hp
  exact hr.pending.symm.trans ho

/-- How `finishActive` ends a goal that it found in the state `st`. -/
def GoalState.ending (st : GoalState) : GoalState := if st = .canceling then .canceled else .aborted

def endCall (r : Ref) (st : GoalState) (result : A.Result) : Call A :=
  if st = .canceling then .canceled r result else .abort r result

theorem ref_endCall (r : Ref) (st : GoalState) : (endCall r st result : Call A).ref? = some r := by
  unfold endCall
  split <;> rfl

theorem finishActive_none {pc b : Bool} {result : A.Result} (ha : s.active = none)
    (h : Executed op (finishActive result pc) s l b t) : b = false ∧ Asks none l ∧ Rely s t := by
  obtain ⟨u, l₁, hu, rfl, h₁⟩ := h.invoke
  simp only [sem, hu.active.trans ha] at h₁
  obtain ⟨rfl, rfl, ht⟩ := h₁.pure
  exact ⟨rfl, by simp [Call.asks, Call.ref?], hu.trans ht⟩

/-- What ends the active goal, after the test of `is_canceling()` that selects it. -/
theorem finishActive_log (hi : Inv s) (ha : s.active = some g) {pc b : Bool} {result : A.Result}
    (h : Executed op (finishActive result pc) s l b t) :
    ∃ l₁ v w x, b = true ∧ Asks (some .active) l₁ ∧
      l = l₁ ++ [(.isCanceling .active, v), (endCall .active (v.state g) result, w), (.setActive none, x)] ∧
      Rely s v ∧ Rely v w ∧ Rely (w.finish op g (v.state g).ending result) x ∧ Rely x.dropActive t := by
  obtain ⟨u, l₁, hu, rfl, h₁⟩ := h.invoke
  have hau : u.active = some g := hu.active.trans ha
  have hiu := hi.rely hu
  simp only [sem, hau] at h₁
  obtain ⟨l₂, l₃, r, u', rfl, hruns, h₂⟩ := exec_bind h₁
  obtain ⟨rfl, hu'⟩ := Executed.post hruns (activeRuns_spec hau (hiu.running g hau))
  simp only [Bool.not_true, Bool.false_eq_true, if_false] at h₂
  obtain ⟨v, l₄, hv, rfl, h₃⟩ := Executed.invoke h₂
  have huv : Rely u v := hu'.trans hv
  have hav : v.deref .active = some g := huv.active.trans hau
  have hasks := activeRuns_asks hruns
  simp only [sem, query_of hav] at h₃
  have hasks' : Asks (some .active) ((Call.getActive, u) :: l₂) := by simpa [Call.asks, Call.ref?] using hasks
  by_cases hc : v.state g = .canceling
  · rw [if_pos (GoalState.isCanceling_iff.mpr hc)] at h₃
    obtain ⟨w, l₅, hw, rfl, h₄⟩ := h₃.invoke
    have hcw : w.state g = .canceling := (hc ▸ hw.state g).canceling
    simp only [sem, terminate_of (r := .active) (e := .canceled) (x := .canceled) (hw.active.trans hav)
      (by rw [hcw]; rfl)] at h₄
    obtain ⟨x, l₆, hx, rfl, h₅⟩ := h₄.invoke
    obtain ⟨rfl, rfl, ht⟩ := h₅.pure
    refine ⟨_, v, w, x, rfl, hasks', ?_, hu.trans huv, hw, ?_, ht⟩
    · simp [endCall, hc]
    · simpa [GoalState.ending, hc] using hx
  · rw [if_neg fun h => hc (GoalState.isCanceling_iff.mp h)] at h₃
    obtain ⟨w, l₅, hw, rfl, h₄⟩ := h₃.invoke
    have hrw : (w.state g).running = true := (hiu.rely (huv.trans hw)).running g (hw.active.trans hav)
    simp only [sem, terminate_of (r := .active) (e := .abort) (hw.active.trans hav) (next_abort hrw)] at h₄
    obtain ⟨x, l₆, hx, rfl, h₅⟩ := h₄.invoke
    obtain ⟨rfl, rfl, ht⟩ := h₅.pure
    refine ⟨_, v, w, x, rfl, hasks', ?_, hu.trans huv, hw, ?_, ht⟩
    · simp [endCall, hc]
    · simpa [GoalState.ending, hc] using hx

theorem finishActive_cleared (hi : Inv s) {pc b : Bool} {result : A.Result}
    (h : Executed op (finishActive result pc) s l b t) : ∃ w, ClearedActive Anything op result s w ∧ Rely w t := by
  rcases h.post (finishActive_spec hi result pc) with ⟨ha, -, ht⟩ | ⟨-, w, hw, ht⟩
  · exact ⟨s, .inl ⟨ha, rfl⟩, ht⟩
  · exact ⟨w, .inr hw, ht⟩

/-- The calls of `terminateGoal` after its queries: the goal is CANCELED, or it is executed
    and ABORTED, or `execute()` throws. -/
inductive Terminates (op : Op A) (p : Nat) (result : A.Result) (s : St A) : Log A → St A → Prop
  | canceled {v t : St A} : Rely s v → v.state p = .canceling → Rely (v.finish op p .canceled result) t →
      Terminates op p result s [(.canceled (.handle p) result, v)] t
  | aborted {v w t : St A} : Rely s v → v.state p = .accepted → Rely (v.move p .executing) w →
      Rely (w.finish op p .aborted result) t →
      Terminates op p result s [(.execute (.handle p), v), (.abort (.handle p) result, w)] t
  | threw {v t : St A} : Rely s v → v.state p = .canceling → Rely v t →
      Terminates op p result s [(.execute (.handle p), v)] t

theorem terminateGoal_log (hd : (s.state p).deferred = true) {result : A.Result} {v : Unit}
    (h : Executed op (terminateGoal p result) s l v t) :
    ∃ l₁ l₂, l = l₁ ++ l₂ ∧ Asks (some (.handle p)) l₁ ∧ Terminates op p result s l₂ t := by
  obtain ⟨u, l₁, hu, rfl, h₁⟩ := h.invoke
  have hp : ∀ v : St A, v.deref (.handle p) = some p := fun _ => rfl
  have hdu := (hu.state p).deferred hd
  simp only [sem, query_of (hp u)] at h₁
  by_cases hc : (u.state p).isCanceling = true
  · rw [if_pos hc] at h₁
    obtain ⟨v, l₂, hv, rfl, h₂⟩ := h₁.invoke
    have hcu := GoalState.isCanceling_iff.mp hc
    have hcv : v.state p = .canceling := (hcu ▸ hv.state p).canceling
    simp only [sem, terminate_of (e := .canceled) (x := .canceled) (hp v) (by rw [hcv]; rfl)] at h₂
    obtain ⟨-, rfl, ht⟩ := h₂.pure
    exact ⟨[_], _, rfl, by simp [Call.asks, Call.ref?], .canceled (hu.trans hv) hcv ht⟩
  · rw [if_neg hc] at h₁
    obtain ⟨v, l₂, hv, rfl, h₂⟩ := h₁.invoke
    have hdv := (hv.state p).deferred hdu
    have hne : (v.state p).isExecuting = false := by
      rcases GoalState.deferred_iff.mp hdv with h | h <;> rw [h] <;> rfl
    simp only [sem, query_of (hp v), hne, Bool.false_eq_true, if_false] at h₂
    obtain ⟨w, l₃, hw, rfl, h₃⟩ := h₂.invoke
    have hsw : Rely s w := (hu.trans hv).trans hw
    refine ⟨[_, _], _, rfl, by simp [Call.asks, Call.ref?], ?_⟩
    rcases GoalState.deferred_iff.mp ((hw.state p).deferred hdv) with ha | ha
    · simp only [sem, execute_of (hp w) ha, if_true] at h₃
      obtain ⟨x, l₄, hx, rfl, h₄⟩ := h₃.invoke
      have hrx : (x.state p).running = true := (hx.state p).running (by rw [state_move, if_pos rfl]; rfl)
      simp only [sem, terminate_of (e := .abort) (hp x) (next_abort hrx)] at h₄
      obtain ⟨-, rfl, ht⟩ := h₄.pure
      exact .aborted hsw ha hx ht
    · simp only [sem, execute_canceling (hp w) ha, Bool.false_eq_true, if_false] at h₃
      obtain ⟨-, rfl, ht⟩ := h₃.pure
      exact .threw hsw ha ht

theorem Terminates.active {s t : St A} (h : Terminates op p result s l t) : t.active = s.active := by
  cases h with
  | canceled hv _ ht => exact ht.active.trans hv.active
  | aborted hv _ hw ht => exact ht.active.trans (hw.active.trans hv.active)
  | threw hv _ ht => exact ht.active.trans hv.active

theorem Terminates.pending {s t : St A} (h : Terminates op p result s l t) : t.pending = s.pending := by
  cases h with
  | canceled hv _ ht => exact ht.pending.trans hv.pending
  | aborted hv _ hw ht => exact ht.pending.trans (hw.pending.trans hv.pending)
  | threw hv _ ht => exact ht.pending.trans hv.pending

/-- Its calls go through the pointer it was given. -/
theorem Terminates.ref {s t : St A} (h : Terminates op p result s l t) : ∀ e ∈ l, e.1.ref? = some (.handle p) := by
  cases h with
  | canceled | threw => exact List.forall_mem_singleton.mpr rfl
  | aborted => exact List.forall_mem_cons.mpr ⟨rfl, List.forall_mem_singleton.mpr rfl⟩

theorem terminateGoal_concerns (hd : (s.state p).deferred = true) {result : A.Result} {v : Unit}
    (h : Executed op (terminateGoal p result) s l v t) : Concerns p l := by
  obtain ⟨l₁, l₂, rfl, hl₁, hl₂⟩ := terminateGoal_log hd h
  refine (hl₁.concerns fun e _ => rfl).append fun e he r hr => ?_
  cases (hl₂.ref e he).symm.trans hr
  rfl

/-! ## The methods -/

theorem succeedActive_none {b : Bool} {result : A.Result} (ha : s.active = none)
    (h : Executed op (succeedActive result) s l b t) : b = false ∧ Asks none l ∧ Rely s t := by
  obtain ⟨u, l₁, hu, rfl, h₁⟩ := h.invoke
  simp only [sem, hu.active.trans ha] at h₁
  obtain ⟨rfl, rfl, ht⟩ := h₁.pure
  exact ⟨rfl, by simp [Call.asks, Call.ref?], hu.trans ht⟩

theorem succeedActive_log (hi : Inv s) (ha : s.active = some g) {b : Bool} {result : A.Result}
    (h : Executed op (succeedActive result) s l b t) :
    ∃ l₁ v x, b = true ∧ Asks (some .active) l₁ ∧ l = l₁ ++ [(.succeed .active result, v), (.setActive none, x)] ∧
      Rely s v ∧ Rely (v.finish op g .succeeded result) x ∧ Rely x.dropActive t := by
  obtain ⟨u, l₁, hu, rfl, h₁⟩ := h.invoke
  have hau : u.active = some g := hu.active.trans ha
  have hiu := hi.rely hu
  simp only [sem, hau] at h₁
  obtain ⟨l₂, l₃, r, u', rfl, hruns, h₂⟩ := exec_bind h₁
  obtain ⟨rfl, hu'⟩ := Executed.post hruns (activeRuns_spec hau (hiu.running g hau))
  simp only [Bool.not_true, Bool.false_eq_true, if_false] at h₂
  obtain ⟨v, l₄, hv, rfl, h₃⟩ := Executed.invoke h₂
  have huv : Rely u v := hu'.trans hv
  have hav : v.deref .active = some g := huv.active.trans hau
  simp only [sem, terminate_of (e := .succeed) hav (next_succeed ((hiu.rely huv).running g hav)), if_true] at h₃
  obtain ⟨x, l₅, hx, rfl, h₄⟩ := h₃.invoke
  obtain ⟨rfl, rfl, ht⟩ := h₄.pure
  refine ⟨(.getActive, u) :: l₂, v, x, rfl, ?_, rfl, hu.trans huv, hx, ht⟩
  simpa [Call.asks, Call.ref?] using activeRuns_asks hruns

/-- The calls of `acceptPending` after `finishActive`: the pending goal is made active, or
    `execute()` throws and it leaves its slot. -/
inductive Promotes (p : Nat) (s : St A) : Bool → Log A → St A → Prop
  | done {w x y t : St A} : Rely s w → w.state p = .accepted → Rely (w.move p .executing) x → Rely (x.activate p) y →
      Rely y.dropPending t →
      Promotes p s true [(.execute (.handle p), w), (.setActive (some p), x), (.setPending none, y)] t
  | threw {w x t : St A} : Rely s w → w.state p = .canceling → Rely w x → Rely x.dropPending t →
      Promotes p s false [(.execute (.handle p), w), (.setPending none, x)] t

theorem acceptPending_log (hi : Inv s) {b : Bool} {result : A.Result}
    (h : Executed op (acceptPending result) s l b t) :
    (b = false ∧ Asks (s.pending.map fun _ => .pending) l ∧ Rely s t) ∨
    ∃ p l₁ l₂ l₃ u v b', s.pending = some p ∧ l = l₁ ++ (l₂ ++ l₃) ∧ Asks (some .pending) l₁ ∧ Rely s u ∧
      Executed op (finishActive result false) u l₂ b' v ∧ Promotes p v b l₃ t := by
  obtain ⟨l₁, l', o, u, rfl, hpend, h₁⟩ := exec_bind h
  obtain ⟨hasks, hu, ho⟩ := pendingGoalHandle_log hi hpend
  cases o with
  | none =>
    obtain ⟨rfl, rfl, ht⟩ := Executed.pure h₁
    exact .inl ⟨rfl, by simpa using hasks, hu.trans ht⟩
  | some p =>
    have hp := ho p rfl
    obtain ⟨l₂, l₃, b', v, rfl, hfin, h₂⟩ := exec_bind h₁
    rw [hp] at hasks
    refine .inr ⟨p, l₁, l₂, l₃, u, v, b', hp, rfl, hasks, hu, hfin, ?_⟩
    -- the pending goal is still ACCEPTED or CANCELING
    have hiu := hi.rely hu
    obtain ⟨w, hw, hwv⟩ := finishActive_cleared hiu hfin
    have hwp : w.pending = some p := hw.slots.2.trans (hu.pending.trans hp)
    have hdv : (v.state p).deferred = true := (hwv.state p).deferred ((hw.inv hiu).deferred p hwp)
    obtain ⟨x, l₄, hx, rfl, h₃⟩ := Executed.invoke h₂
    rcases GoalState.deferred_iff.mp ((hx.state p).deferred hdv) with ha | ha
    · simp only [sem, execute_of (r := .handle p) rfl ha, if_true] at h₃
      obtain ⟨y, l₅, hy, rfl, h₄⟩ := h₃.invoke
      obtain ⟨z, l₆, hz, rfl, h₅⟩ := h₄.invoke
      obtain ⟨rfl, rfl, ht⟩ := h₅.pure
      exact .done hx ha hy hz ht
    · simp only [sem, execute_canceling (r := .handle p) rfl ha, Bool.false_eq_true, if_false] at h₃
      obtain ⟨y, l₅, hy, rfl, h₄⟩ := h₃.invoke
      obtain ⟨rfl, rfl, ht⟩ := h₄.pure
      exact .threw hx ha hy ht

theorem rejectPending_log (hi : Inv s) {b : Bool} {result : A.Result}
    (h : Executed op (rejectPending result) s l b t) :
    (b = false ∧ Asks (s.pending.map fun _ => .pending) l ∧ Rely s t) ∨
    ∃ p l₁ l₂ u v x, b = true ∧ s.pending = some p ∧ l = l₁ ++ (l₂ ++ [(.setPending none, x)]) ∧
      Asks (some .pending) l₁ ∧ Rely s u ∧ Executed op (terminateGoal p result) u l₂ () v ∧ Rely v x ∧
      Rely x.dropPending t := by
  obtain ⟨l₁, l', o, u, rfl, hpend, h₁⟩ := exec_bind h
  obtain ⟨hasks, hu, ho⟩ := pendingGoalHandle_log hi hpend
  cases o with
  | none =>
    obtain ⟨rfl, rfl, ht⟩ := Executed.pure h₁
    exact .inl ⟨rfl, by simpa using hasks, hu.trans ht⟩
  | some p =>
    have hp := ho p rfl
    obtain ⟨l₂, l₃, _, v, rfl, hterm, h₂⟩ := exec_bind h₁
    obtain ⟨x, l₄, hx, rfl, h₃⟩ := Executed.invoke h₂
    obtain ⟨rfl, rfl, ht⟩ := h₃.pure
    rw [hp] at hasks
    exact .inr ⟨p, l₁, l₂, u, v, x, rfl, hp, rfl, hasks, hu, hterm, hx, ht⟩

/-! ## The sections of `cancelHandler` -/

/-- The first section: the goal is active and its hook is asked for, it is pending and is
    terminated, or it is in neither slot. -/
inductive Handles (op : Op A) (g : Nat) (s : St A) : Option Bool → Log A → St A → Prop
  | active {u v t : St A} : Rely s u → u.active = some g → Rely u v → Rely v t →
      Handles op g s (some v.cancelHook) [(.getActive, u), (.getCancelHook, v)] t
  | pending {u v w x t : St A} {l : Log A} : Rely s u → u.active ≠ some g → Rely u v → v.pending = some g →
      Executed op (terminateGoal g A.result) v l () w → Rely w x → Rely x.dropPending t →
      Handles op g s none ((.getActive, u) :: (.getPending, v) :: (l ++ [(.setPending none, x)])) t
  | neither {u v t : St A} : Rely s u → u.active ≠ some g → Rely u v → v.pending ≠ some g → Rely v t →
      Handles op g s none [(.getActive, u), (.getPending, v)] t

theorem cancelHandler_log {o : Option Bool} (h : Executed op (cancelHandler g) s l o t) : Handles op g s o l t := by
  obtain ⟨u, l₁, hu, rfl, h₁⟩ := h.invoke
  change Executed op (if u.active = some g then _ else _) u l₁ o t at h₁
  by_cases ha : u.active = some g
  · rw [if_pos ha] at h₁
    obtain ⟨v, l₂, hv, rfl, h₂⟩ := h₁.invoke
    obtain ⟨rfl, rfl, ht⟩ := h₂.pure
    exact .active hu ha hv ht
  · rw [if_neg ha] at h₁
    obtain ⟨v, l₂, hv, rfl, h₂⟩ := h₁.invoke
    change Executed op (if v.pending = some g then _ else _) v l₂ o t at h₂
    by_cases hp : v.pending = some g
    · rw [if_pos hp] at h₂
      obtain ⟨l₃, l₄, _, w, rfl, hterm, h₃⟩ := exec_bind h₂
      obtain ⟨x, l₅, hx, rfl, h₄⟩ := Executed.invoke h₃
      obtain ⟨rfl, rfl, ht⟩ := h₄.pure
      exact .pending hu ha hv hp hterm hx ht
    · rw [if_neg hp] at h₂
      obtain ⟨rfl, rfl, ht⟩ := h₂.pure
      exact .neither hu ha hv hp ht

theorem cancelHandlerFinish_log {v : Unit} (h : Executed op (cancelHandlerFinish g) s l v t) :
    ∃ u l₁, Rely s u ∧ l = (.getActive, u) :: l₁ ∧
      ((u.active ≠ some g ∧ l₁ = [] ∧ Rely u t) ∨
        (u.active = some g ∧ ∃ b, Executed op (finishActive A.result true) u l₁ b t)) := by
  obtain ⟨u, l₁, hu, rfl, h₁⟩ := h.invoke
  change Executed op (if u.active = some g then _ else _) u l₁ v t at h₁
  by_cases ha : u.active = some g
  · rw [if_pos ha] at h₁
    obtain ⟨l₂, l₃, b, w, rfl, hfin, h₂⟩ := exec_bind h₁
    obtain ⟨-, rfl, ht⟩ := Executed.pure h₂
    rw [List.append_nil]
    exact ⟨u, l₂, hu, rfl, .inr ⟨ha, b, hfin.rely ht⟩⟩
  · rw [if_neg ha] at h₁
    obtain ⟨-, rfl, ht⟩ := h₁.pure
    exact ⟨u, [], hu, rfl, .inl ⟨ha, rfl, ht⟩⟩

end RttRos2.Actions
