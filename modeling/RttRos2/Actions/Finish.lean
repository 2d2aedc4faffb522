/-
  RttRos2.Actions.Finish — finishing the active goal never fails halfway.

  `succeedActive`, `abortActive` and `cancelActive` ask for the goal's state several times
  before they end it, and a client's cancel request may move it to CANCELING between any
  two calls. The transition they choose is allowed all the same: `succeed` and `abort`
  are from EXECUTING and CANCELING, and a goal found CANCELING stays so. The goal is ended
  with the result and leaves its slot, nothing else is touched, and no call that ends the
  active goal throws, in any section of any run (`finishing_never_fails`).
-/

import RttRos2.Actions.Logs
import RttRos2.Actions.Slots

namespace RttRos2.Actions

open RttRos2.Lib

variable {A : ActionT} {op : Op A} {s t : St A} {l : Log A} {b : Bool} {result : A.Result} {g : Nat}

/-- The methods that finish the active goal, and the result they give it. -/
def Method.finishes? : Method A → Option A.Result
  | .succeedActive result | .abortActive result | .cancelActive result => some result
  | _ => none

/-- The last test of `is_canceling()` found the goal in `st`. -/
def TestedLast (l : Log A) (g : Nat) (st : GoalState) : Prop :=
  ∃ l₁ v l₂, l = l₁ ++ (.isCanceling .active, v) :: l₂ ∧ v.state g = st ∧ ∀ e ∈ l₂, ∀ r, e.1 ≠ .isCanceling r

/-- The terminal state each method chooses. -/
inductive Chosen (l : Log A) (g : Nat) : Method A → GoalState → Prop
  | succeeded (result : A.Result) : Chosen l g (.succeedActive result) .succeeded
  | aborted (result : A.Result) {st : GoalState} : TestedLast l g st → Chosen l g (.abortActive result) st.ending
  | canceled (result : A.Result) {st : GoalState} : TestedLast l g st → Chosen l g (.cancelActive result) st.ending

structure FinishedGoal (op : Op A) (m : Method A) (result : A.Result) (g : Nat) (s : St A) (l : Log A) (t : St A) :
    Prop where
  state : Chosen l g m (t.state g)
  result : (t.goals g).result = some result
  active : t.active = none
  pending : t.pending = s.pending
  others : OnlyGoal op g l

/-- The call ends the active goal, and throws. -/
def Call.throws (op : Op A) (s : St A) : Call A → Bool
  | .succeed .active result => !(sem op (.succeed .active result) s).1
  | .abort .active result => !(sem op (.abort .active result) s).1
  | .canceled .active result => !(sem op (.canceled .active result) s).1
  | _ => false

/-! ## The calls that end the active goal -/

theorem endCall_ne (r r' : Ref) (st : GoalState) : (endCall r st result : Call A) ≠ .isCanceling r' := by
  unfold endCall
  split <;> nofun

/-- Chosen by the test in `s`, it is allowed in `t`. -/
theorem endCall_returns (ha : s.active = some g) (hr : (s.state g).running = true) (h : Rely s t) :
    (endCall .active (s.state g) result).throws op t = false := by
  have hat : t.deref .active = some g := h.active.trans ha
  unfold endCall
  split
  · rename_i hc
    have hct : t.state g = .canceling := (hc ▸ h.state g).canceling
    simp [Call.throws, sem, terminate_of (e := .canceled) (x := .canceled) hat (by rw [hct]; rfl)]
  · simp [Call.throws, sem, terminate_of (e := .abort) hat (next_abort ((h.state g).running hr))]

theorem succeed_returns (ha : s.active = some g) (hr : (s.state g).running = true) :
    (Call.succeed .active result).throws op s = false := by
  simp [Call.throws, sem, terminate_of (r := .active) (e := .succeed) ha (next_succeed hr)]

/-- Nothing but the active goal is touched, when it is ended and leaves its slot. -/
theorem onlyGoal_end {c : Call A} {u v : St A} (ha : u.active = some g) (hc : c.ref? = some .active) :
    OnlyGoal op g [(c, u), (.setActive none, v)] := by
  refine List.forall_mem_cons.mpr ⟨fun g' hne => sem_other fun r hr e => hne ?_, ?_⟩
  · cases hc.symm.trans hr
    exact (Option.some.inj (ha.symm.trans e)).symm
  · exact List.forall_mem_singleton.mpr fun _ _ => rfl

/-- What the other threads leave of a goal that was ended and has left its slot. -/
theorem ended_stays {st : GoalState} {u v : St A} (hst : st.terminal = true) (hv : Rely (u.finish op g st result) v)
    (ht : Rely v.dropActive t) :
    t.state g = st ∧ (t.goals g).result = some result ∧ t.active = none ∧ t.pending = u.pending := by
  have hd : Rely (u.finish op g st result).dropActive t := hv.dropActive.trans ht
  have hr : ((u.finish op g st result).dropActive.goals g).result = some result := by simp [St.finish, St.dropActive]
  obtain ⟨hs, hr⟩ := finished_stays hd (by rw [state_dropActive, state_finish, if_pos rfl]) hst hr
  exact ⟨hs, hr, hd.active, hd.pending⟩

theorem terminal_ending (st : GoalState) : st.ending.terminal = true := by
  unfold GoalState.ending
  split <;> rfl

theorem finishActive_finished (hi : Inv s) (ha : s.active = some g) {pc : Bool}
    (h : Executed op (finishActive result pc) s l b t) :
    b = true ∧ (∃ st, TestedLast l g st ∧ t.state g = st.ending) ∧ (t.goals g).result = some result ∧
      t.active = none ∧ t.pending = s.pending ∧ OnlyGoal op g l := by
  obtain ⟨l₁, v, w, x, rfl, hl₁, rfl, hv, hw, hx, ht⟩ := finishActive_log hi ha h
  have haw : w.active = some g := hw.active.trans (hv.active.trans ha)
  obtain ⟨hst, hres, hact, hpend⟩ := ended_stays (terminal_ending _) hx ht
  refine ⟨rfl, ⟨_, ⟨l₁, v, _, rfl, rfl, fun e he => ?_⟩, hst⟩, hres, hact, ?_, ?_⟩
  · rcases List.mem_cons.mp he with rfl | he
    · exact fun r => endCall_ne _ r _
    · cases List.mem_singleton.mp he
      exact nofun
  · exact hpend.trans (hw.pending.trans hv.pending)
  · exact hl₁.goalsKept.onlyGoal.append (List.forall_mem_cons.mpr ⟨fun _ _ => rfl, onlyGoal_end haw (ref_endCall ..)⟩)

theorem succeedActive_finished (hi : Inv s) (ha : s.active = some g) (h : Executed op (succeedActive result) s l b t) :
    b = true ∧ t.state g = .succeeded ∧ (t.goals g).result = some result ∧ t.active = none ∧
      t.pending = s.pending ∧ OnlyGoal op g l := by
  obtain ⟨l₁, v, x, rfl, hl₁, rfl, hv, hx, ht⟩ := succeedActive_log hi ha h
  obtain ⟨hst, hres, hact, hpend⟩ := ended_stays rfl hx ht
  refine ⟨rfl, hst, hres, hact, hpend.trans hv.pending, ?_⟩
  exact hl₁.goalsKept.onlyGoal.append (onlyGoal_end (hv.active.trans ha) rfl)

/-! ## Every other call -/

/-- No call that ends the active goal threw. -/
def NoneThrows (op : Op A) (l : Log A) : Prop := ∀ e ∈ l, e.1.throws op e.2 = false

/-- It is none of the calls that end the active goal. -/
abbrev NeverThrows (c : Call A) : Prop := ∀ op s, c.throws op s = false

theorem NoneThrows.append {l' : Log A} (h : NoneThrows op l) (h' : NoneThrows op l') : NoneThrows op (l ++ l') :=
  List.forall_mem_append.mpr ⟨h, h'⟩

theorem Asks.noneThrows {r : Option Ref} (h : Asks r l) : NoneThrows op l := by
  intro e he
  obtain ⟨ha, -⟩ := h e he
  obtain ⟨c, u⟩ := e
  cases c <;> first | rfl | cases ha

theorem Promotes.noneThrows {p : Nat} (h : Promotes p s b l t) : NoneThrows op l := by
  cases h with
  | done => exact List.forall_mem_cons.mpr ⟨rfl, List.forall_mem_cons.mpr ⟨rfl, List.forall_mem_singleton.mpr rfl⟩⟩
  | threw => exact List.forall_mem_cons.mpr ⟨rfl, List.forall_mem_singleton.mpr rfl⟩

theorem finishActive_noneThrows (hi : Inv s) {pc : Bool} (h : Executed op (finishActive result pc) s l b t) :
    NoneThrows op l := by
  cases ha : s.active with
  | none => exact (finishActive_none ha h).2.1.noneThrows
  | some g =>
    obtain ⟨l₁, v, w, x, -, hl₁, rfl, hv, hw, -⟩ := finishActive_log hi ha h
    refine hl₁.noneThrows.append (List.forall_mem_cons.mpr ⟨rfl, List.forall_mem_cons.mpr ⟨?_, ?_⟩⟩)
    · have hav : v.active = some g := hv.active.trans ha
      exact endCall_returns hav ((hi.rely hv).running g hav) hw
    · exact List.forall_mem_singleton.mpr rfl

theorem succeedActive_noneThrows (hi : Inv s) (h : Executed op (succeedActive result) s l b t) : NoneThrows op l := by
  cases ha : s.active with
  | none => exact (succeedActive_none ha h).2.1.noneThrows
  | some g =>
    obtain ⟨l₁, v, x, -, hl₁, rfl, hv, -⟩ := succeedActive_log hi ha h
    refine hl₁.noneThrows.append (List.forall_mem_cons.mpr ⟨?_, List.forall_mem_singleton.mpr rfl⟩)
    have hav : v.active = some g := hv.active.trans ha
    exact succeed_returns hav ((hi.rely hv).running g hav)

theorem acceptPending_noneThrows (hi : Inv s) (h : Executed op (acceptPending result) s l b t) : NoneThrows op l := by
  rcases acceptPending_log hi h with ⟨-, hl, -⟩ | ⟨p, l₁, l₂, l₃, u, v, b', -, rfl, hl₁, hu, hfin, hl₃⟩
  · exact hl.noneThrows
  · exact hl₁.noneThrows.append ((finishActive_noneThrows (hi.rely hu) hfin).append hl₃.noneThrows)

/-! ## The sections that end no active goal -/

theorem activeRuns_never : (activeRuns : M A Bool).Only NeverThrows := by
  refine only_perform (fun _ _ => rfl) fun b => ?_
  split
  · trivial
  · exact ⟨fun _ _ => rfl, fun _ => trivial⟩

theorem pendingGoalHandle_never : (pendingGoalHandle : M A (Option Nat)).Only NeverThrows := by
  refine only_perform (fun _ _ => rfl) fun o => ?_
  split
  · trivial
  · refine only_perform (fun _ _ => rfl) fun b₁ => ?_
    split
    · trivial
    · refine only_perform (fun _ _ => rfl) fun b₂ => ?_
      split
      · trivial
      · refine only_perform (fun _ _ => rfl) fun b₃ => ?_
        split <;> trivial

theorem terminateGoal_never (p : Nat) (result : A.Result) : (terminateGoal p result).Only NeverThrows := by
  refine only_perform (fun _ _ => rfl) fun b₁ => ?_
  split
  · exact ⟨fun _ _ => rfl, fun _ => trivial⟩
  · refine only_perform (fun _ _ => rfl) fun b₂ => ?_
    split
    · exact ⟨fun _ _ => rfl, fun _ => trivial⟩
    · refine only_perform (fun _ _ => rfl) fun b₃ => ?_
      split
      · exact ⟨fun _ _ => rfl, fun _ => trivial⟩
      · trivial

/-- The sections that may end the active goal. -/
def Op.finishes : Op A → Bool
  | .call _ (.acceptPending _) | .call _ (.abortActive _) | .call _ (.cancelActive _) => true
  | .call _ (.succeedActive _) | .cancelHandlerFinish _ => true
  | _ => false

/-- What a query of the active goal leads to. -/
theorem active_never {α : Type} {f : Option Nat → M A α} (hn : (f none).Only NeverThrows)
    (hs : ∀ g, (f (some g)).Only NeverThrows) : (invoke .getActive >>= f).Only NeverThrows := by
  refine only_perform (fun _ _ => rfl) fun o => ?_
  cases o with
  | none => exact hn
  | some g => exact hs g

/-- Bringing the pending goal to an end and out of its slot. -/
theorem reject_never {α : Type} (p : Nat) (result : A.Result) (a : α) :
    (do terminateGoal p result; invoke (.setPending none); pure a : M A α).Only NeverThrows :=
  only_bind (terminateGoal_never p result) fun _ => only_perform (fun _ _ => rfl) fun _ => trivial

theorem method_never (th : Tid) (m : Method A) (hm : (Op.call th m).finishes = false) : m.body.Only NeverThrows := by
  cases m with
  | acceptPending | abortActive | cancelActive | succeedActive => cases hm
  | rejectPending result =>
    refine only_bind (only_bind pendingGoalHandle_never fun o => ?_) fun _ => trivial
    cases o with
    | none => trivial
    | some p => exact reject_never p result true
  | publishFeedback f =>
    refine only_bind (active_never trivial fun _ => only_bind activeRuns_never fun b => ?_) fun _ => trivial
    split
    · trivial
    · exact only_perform (fun _ _ => rfl) fun _ => trivial
  | isActive | isPreempting =>
    exact only_bind (active_never trivial fun _ => ⟨fun _ _ => rfl, fun _ => trivial⟩) fun _ => trivial
  | isPending => exact only_bind (only_bind pendingGoalHandle_never fun _ => trivial) fun _ => trivial
  | getActiveGoal =>
    refine only_bind (active_never trivial fun _ => only_bind activeRuns_never fun b => ?_) fun _ => trivial
    split <;> trivial
  | getPendingGoal => exact only_bind pendingGoalHandle_never fun _ => trivial
  | setGoalHook b | setCancelHook b => exact only_perform (fun _ _ => rfl) fun _ => trivial
  | shutdown =>
    refine only_bind ?_ fun _ => trivial
    refine only_perform (fun _ _ => rfl) fun _ => only_perform (fun _ _ => rfl) fun _ => ?_
    exact ⟨fun _ _ => rfl, fun _ => trivial⟩

theorem body_never (hop : op.finishes = false) : op.body.Only NeverThrows := by
  cases op with
  | call th m => exact method_never th m hop
  | cancelHandlerFinish g => cases hop
  | cancelCallback g =>
    refine only_bind (only_perform (fun _ _ => rfl) fun o => ?_) fun _ => trivial
    split
    · exact only_perform (fun _ _ => rfl) fun _ => trivial
    · refine only_perform (fun _ _ => rfl) fun o' => ?_
      split
      · exact only_perform (fun _ _ => rfl) fun _ => trivial
      · trivial
  | acceptedCallback g =>
    refine only_bind (only_bind pendingGoalHandle_never fun o => ?_) fun _ => trivial
    cases o with
    | none => exact only_perform (fun _ _ => rfl) fun _ => ⟨fun _ _ => rfl, fun _ => trivial⟩
    | some p =>
      refine only_bind (terminateGoal_never p A.result) fun _ => ?_
      exact only_perform (fun _ _ => rfl) fun _ => ⟨fun _ _ => rfl, fun _ => trivial⟩
  | cancelHandler g =>
    refine only_bind (only_perform (fun _ _ => rfl) fun o => ?_) fun _ => trivial
    split
    · exact only_perform (fun _ _ => rfl) fun _ => trivial
    · refine only_perform (fun _ _ => rfl) fun o' => ?_
      split
      · exact reject_never g A.result none
      · trivial

/-! ## Any section -/

theorem cancelHandlerFinish_noneThrows (hi : Inv s) {v : Unit} (h : Executed op (cancelHandlerFinish g) s l v t) :
    NoneThrows op l := by
  obtain ⟨u, l₁, hu, rfl, ⟨-, rfl, -⟩ | ⟨-, b, hfin⟩⟩ := cancelHandlerFinish_log h
  · exact List.forall_mem_singleton.mpr rfl
  · exact List.forall_mem_cons.mpr ⟨rfl, finishActive_noneThrows (hi.rely hu) hfin⟩

theorem body_noneThrows (hi : Inv s) {v : Ret} (h : Executed op op.body s l v t) : NoneThrows op l := by
  by_cases hf : op.finishes = false
  · exact fun e he => (only_exec (body_never hf) h).1 e he op e.2
  cases op with
  | call th m =>
    cases m with
    | acceptPending result =>
      obtain ⟨b, -, h⟩ := Executed.body h
      exact acceptPending_noneThrows hi h
    | abortActive result | cancelActive result =>
      obtain ⟨b, -, h⟩ := Executed.body h
      exact finishActive_noneThrows hi h
    | succeedActive result =>
      obtain ⟨b, -, h⟩ := Executed.body h
      exact succeedActive_noneThrows hi h
    | _ => exact absurd rfl hf
  | cancelHandlerFinish g => exact cancelHandlerFinish_noneThrows hi h.body_unit
  | _ => exact absurd rfl hf

/-- The three methods: they return false at once when there is no active goal, and finish it otherwise. -/
theorem finishing_spec (hi : Inv s) {m : Method A} (hm : m.finishes? = some result)
    (h : Executed op m.body s l (.bool b) t) :
    (s.active = none → b = false) ∧ ∀ g, s.active = some g → b = true ∧ FinishedGoal op m result g s l t := by
  cases m with
  | abortActive | cancelActive =>
    cases hm
    obtain ⟨b', hb, h⟩ := Executed.body h
    cases hb
    refine ⟨fun ha => (finishActive_none ha h).1, fun g ha => ?_⟩
    obtain ⟨rfl, ⟨st, htest, hst⟩, hres, hact, hpend, honly⟩ := finishActive_finished hi ha h
    refine ⟨rfl, ?_, hres, hact, hpend, honly⟩
    rw [hst]
    constructor
    exact htest
  | succeedActive =>
    cases hm
    obtain ⟨b', hb, h⟩ := Executed.body h
    cases hb
    refine ⟨fun ha => (succeedActive_none ha h).1, fun g ha => ?_⟩
    obtain ⟨rfl, hst, hres, hact, hpend, honly⟩ := succeedActive_finished hi ha h
    refine ⟨rfl, ?_, hres, hact, hpend, honly⟩
    rw [hst]
    constructor
  | _ => cases hm

theorem finishing_never_fails {s : Sys A} (hs : Reach Always s) :
    (∀ th m result l b x, m.finishes? = some result → Completed (.call th m) s l (.bool b) x →
      (b = true ↔ s.st.active.isSome = true) ∧
        ∀ g, s.st.active = some g → FinishedGoal (.call th m) m result g s.st l x.st) ∧
    ∀ op c k, s.crit = some ⟨op, .call c k⟩ → c.throws op s.st = false := by
  constructor
  · intro th m result l b x hm h
    obtain ⟨hnone, hsome⟩ := finishing_spec (section_inv h.inside hs) hm h.exec
    refine ⟨?_, fun g ha => (hsome g ha).2⟩
    cases ha : s.st.active with
    | none => simp [hnone ha]
    | some g => simp [(hsome g ha).1]
  · intro op c k hc
    obtain ⟨y, l, hy, h⟩ := reach_section hs hc
    -- what is left of the section still makes the call
    obtain ⟨l', v, t, hex, hcall⟩ := section_completes h
    exact body_noneThrows (section_inv h hy) hex (c, s.st) (List.mem_append_right _ (hcall c k hc))

/-- Goal 0 is active, and its cancel request is accepted. -/
def activeCancelAccepted : List (Ev unitAction) :=
  [.start true] ++ arrival ++ handled 3 ++ called (.other 0) (.acceptPending ()) 8 ++ [.cancelCallback 0] ++ calls 2

/-- The goal moves to CANCELING after the test, and is ABORTED. -/
theorem finishing_never_fails_canceled_between :
    ∃ s l x, run step Always Sys.init activeCancelAccepted = some s ∧
      Completed (.call (.other 0) (.abortActive ())) s l (.bool true) x ∧ x.st.state 0 = .aborted ∧
      FinishedGoal (.call (.other 0) (.abortActive ())) (.abortActive ()) () 0 s.st l x.st := by
  have h : ∃ s l x, run step Always Sys.init activeCancelAccepted = some s ∧
      Completed (.call (.other 0) (.abortActive ())) s l (.bool true) x ∧ x.st.state 0 = .aborted ∧
      s.st.active = some 0 :=
    ⟨_, _, _, rfl, ⟨section_record (List.replicate 3 .run ++ [.cancelGoal 0] ++ List.replicate 2 .run)
      (.enter (e := .call (.other 0) (.abortActive ())) rfl rfl) rfl, rfl⟩, rfl, rfl⟩
  obtain ⟨s, l, x, hs, hx, hst, ha⟩ := h
  exact ⟨s, l, x, hs, hx, hst, ((finishing_never_fails (run_path activeCancelAccepted hs)).1 _ _ _ _ _ _ rfl hx).2 0 ha⟩

end RttRos2.Actions
