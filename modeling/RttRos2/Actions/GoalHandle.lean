/-
  RttRos2.Actions.GoalHandle — the goals of an `rclcpp_action` server.

  The transition table is `rcl_action`'s: `execute` only from ACCEPTED, a client's
  cancel request only from ACCEPTED or EXECUTING, `succeed` and `abort` from EXECUTING
  or CANCELING, `canceled` only from CANCELING. Any other call throws and changes
  nothing (`next` is `none`). The queries are `ServerGoalHandle`'s `is_active`,
  `is_executing` and `is_canceling`.
-/

namespace RttRos2.Actions

inductive GoalState where
  | accepted
  | executing
  | canceling
  | succeeded
  | canceled
  | aborted
  deriving DecidableEq, Repr

inductive GoalEvent where
  | execute
  | cancelGoal
  | succeed
  | abort
  | canceled
  deriving DecidableEq, Repr

namespace GoalState

def next : GoalState → GoalEvent → Option GoalState
  | accepted, .execute => some executing
  | accepted, .cancelGoal => some canceling
  | executing, .cancelGoal => some canceling
  | executing, .succeed => some succeeded
  | executing, .abort => some aborted
  | canceling, .succeed => some succeeded
  | canceling, .abort => some aborted
  | canceling, .canceled => some canceled
  | _, _ => none

def isActive (st : GoalState) : Bool := st == accepted || st == executing || st == canceling

def isExecuting (st : GoalState) : Bool := st == executing

def isCanceling (st : GoalState) : Bool := st == canceling

def terminal (st : GoalState) : Bool := st == succeeded || st == canceled || st == aborted

/-- In the active slot: EXECUTING or CANCELING. -/
def running (st : GoalState) : Bool := st == executing || st == canceling

/-- In the pending slot: ACCEPTED or CANCELING. -/
def deferred (st : GoalState) : Bool := st == accepted || st == canceling

@[simp] theorem isExecuting_iff {st : GoalState} : st.isExecuting = true ↔ st = executing := by simp [isExecuting]

@[simp] theorem isCanceling_iff {st : GoalState} : st.isCanceling = true ↔ st = canceling := by simp [isCanceling]

theorem running_iff {st : GoalState} : st.running = true ↔ st = executing ∨ st = canceling := by simp [running]

theorem deferred_iff {st : GoalState} : st.deferred = true ↔ st = accepted ∨ st = canceling := by simp [deferred]

theorem isActive_of_deferred {st : GoalState} (h : st.deferred = true) : st.isActive = true := by
  cases st <;> simp_all [deferred, isActive]

/-- What a client's cancel request leaves of a goal's state, if it comes at all. -/
def Cancels (st st' : GoalState) : Prop := st' = st ∨ st.next .cancelGoal = some st'

theorem Cancels.refl (st : GoalState) : Cancels st st := Or.inl rfl

theorem Cancels.trans {a b c : GoalState} (h1 : Cancels a b) (h2 : Cancels b c) : Cancels a c := by
  unfold Cancels at *
  cases a <;> cases b <;> cases c <;> simp_all [next]

theorem Cancels.running {a b : GoalState} (h : Cancels a b) (ha : a.running = true) : b.running = true := by
  unfold Cancels at h
  cases a <;> cases b <;> simp_all [next, GoalState.running]

theorem Cancels.deferred {a b : GoalState} (h : Cancels a b) (ha : a.deferred = true) : b.deferred = true := by
  unfold Cancels at h
  cases a <;> cases b <;> simp_all [next, GoalState.deferred]

theorem Cancels.terminal {a b : GoalState} (h : Cancels a b) (ha : a.terminal = true) : b = a := by
  unfold Cancels at h
  cases a <;> cases b <;> simp_all [next, GoalState.terminal]

theorem Cancels.canceling {b : GoalState} (h : Cancels .canceling b) : b = .canceling := by
  unfold Cancels at h
  cases b <;> simp_all [next]

/-- A goal found in `b`, one of the states a cancel request never leads to, was in it before. -/
theorem Cancels.eq_of_ne {a b : GoalState} (h : Cancels a b) (hb : b ≠ .canceling) : a = b := by
  unfold Cancels at h
  cases a <;> cases b <;> simp_all [next]

end GoalState

end RttRos2.Actions
