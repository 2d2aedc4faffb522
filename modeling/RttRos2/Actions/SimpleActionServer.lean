/-
  RttRos2.Actions.SimpleActionServer — the methods and callbacks of
  `SimpleActionServer` (rtt_ros2_actions/simple_action_server.hpp), as programs.

  A program makes one call at a time: a goal-handle call of `rclcpp_action`, an access
  to a slot or a hook, the `send` of `cancelHandler` to the owner's engine. Other threads
  take their steps between two calls; what `mutex_` excludes is `Actions.System`'s
  business. A transition call answers whether it returned (`true`) or threw (`false`); a
  `catch` branch is what follows a `false`.

  Goals are numbered in the order `handleAccepted` queues them. Log messages are not
  modelled, so `msg` is not an argument and `prefer_canceled` has no effect. The
  clean-up `rclcpp_action` performs on a dropped handle is not modelled either: the
  goal stays in the state it was dropped in.
-/

import Mathlib.Logic.Function.Basic
import RttRos2.Actions.GoalHandle
import RttRos2.Lib.Prog

namespace RttRos2.Actions

open RttRos2.Lib

/-- An action type: its messages, and `Result()`. -/
structure ActionT where
  Feedback : Type
  Result : Type
  result : Result

/-- The pointer a goal-handle call goes through. -/
inductive Ref where
  | active
  | pending
  | handle (g : Nat)
  deriving DecidableEq, Repr

inductive Work where
  | acceptedCallback (g : Nat)
  | cancelHandler (g : Nat)
  deriving DecidableEq, Repr

inductive Call (A : ActionT) where
  | getActive
  | getPending
  | setActive (g : Option Nat)
  | setPending (g : Option Nat)
  | isActive (r : Ref)
  | isExecuting (r : Ref)
  | isCanceling (r : Ref)
  | execute (r : Ref)
  | succeed (r : Ref) (result : A.Result)
  | abort (r : Ref) (result : A.Result)
  | canceled (r : Ref) (result : A.Result)
  | publishFeedback (r : Ref) (feedback : A.Feedback)
  | getGoalHook
  | getCancelHook
  | setGoalHook (set : Bool)
  | setCancelHook (set : Bool)
  | sendCancelHandler (g : Nat)
  | shutdownServer

@[reducible] def Call.Res {A : ActionT} : Call A → Type
  | .getActive | .getPending => Option Nat
  | .isActive _ | .isExecuting _ | .isCanceling _ => Bool
  | .execute _ | .succeed _ _ | .abort _ _ | .canceled _ _ => Bool
  | .getGoalHook | .getCancelHook => Bool
  | _ => Unit

/-- Threads that call public methods: the owner's, and any other. -/
inductive Tid where
  | owner
  | other (n : Nat)
  deriving DecidableEq, Repr

/-- The public methods that take `mutex_`. A hook is null or set. -/
inductive Method (A : ActionT) where
  | acceptPending (result : A.Result)
  | rejectPending (result : A.Result)
  | publishFeedback (feedback : A.Feedback)
  | abortActive (result : A.Result)
  | cancelActive (result : A.Result)
  | succeedActive (result : A.Result)
  | isActive
  | isPreempting
  | isPending
  | getActiveGoal
  | getPendingGoal
  | setGoalHook (set : Bool)
  | setCancelHook (set : Bool)
  | shutdown

/-- The critical sections of `mutex_`. `cancelHandler` has two, around its hook. -/
inductive Op (A : ActionT) where
  | call (t : Tid) (m : Method A)
  | cancelCallback (g : Nat)
  | acceptedCallback (g : Nat)
  | cancelHandler (g : Nat)
  | cancelHandlerFinish (g : Nat)

/-- What a critical section returns. `goal` is the handle whose goal is returned. `hook`
    is the first section of `cancelHandler`: `none` when the handler returns there,
    otherwise whether the hook is set. -/
inductive Ret where
  | unit
  | bool (b : Bool)
  | goal (g : Option Nat)
  | hook (h : Option Bool)
  deriving DecidableEq, Repr

/-! ## The state the methods share -/

structure GoalHandle (A : ActionT) where
  state : GoalState
  result : Option A.Result

structure St (A : ActionT) where
  goals : Nat → GoalHandle A
  /-- How many goals `handleAccepted` has queued. -/
  arrived : Nat
  active : Option Nat
  pending : Option Nat
  goalHook : Bool
  cancelHook : Bool
  connected : Bool
  /-- The owner's FIFO engine. -/
  queue : List Work
  feedback : List (Nat × A.Feedback)
  /-- Goals stored in the pending slot so far, and goals stored in the active slot. -/
  stored : List Nat
  activated : List Nat
  /-- Goals brought to a terminal state so far, the state, and the section that did it. -/
  finished : List (Nat × GoalState × Op A)

variable {A : ActionT}

namespace St

def state (s : St A) (g : Nat) : GoalState := (s.goals g).state

def deref (s : St A) : Ref → Option Nat
  | .active => s.active
  | .pending => s.pending
  | .handle g => some g

def query (s : St A) (r : Ref) (q : GoalState → Bool) : Bool := (s.deref r).any fun g => q (s.state g)

/-- A goal moves to `st`. -/
def move (s : St A) (g : Nat) (st : GoalState) : St A :=
  { s with goals := Function.update s.goals g { s.goals g with state := st } }

/-- A goal moves to the terminal state `st` with `result`. -/
def finish (s : St A) (op : Op A) (g : Nat) (st : GoalState) (result : A.Result) : St A :=
  { s with goals := Function.update s.goals g ⟨st, some result⟩, finished := s.finished ++ [(g, st, op)] }

def store (s : St A) (g : Nat) : St A := { s with pending := some g, stored := s.stored ++ [g] }

def activate (s : St A) (g : Nat) : St A := { s with active := some g, activated := s.activated ++ [g] }

def dropActive (s : St A) : St A := { s with active := none }

def dropPending (s : St A) : St A := { s with pending := none }

/-- `execute()` through `r`. -/
def execute (s : St A) (r : Ref) : Bool × St A :=
  match s.deref r with
  | none => (false, s)
  | some g => match (s.state g).next .execute with
    | none => (false, s)
    | some st => (true, s.move g st)

/-- `succeed()`, `abort()` or `canceled()` through `r`. -/
def terminate (s : St A) (op : Op A) (r : Ref) (e : GoalEvent) (result : A.Result) : Bool × St A :=
  match s.deref r with
  | none => (false, s)
  | some g => match (s.state g).next e with
    | none => (false, s)
    | some st => (true, s.finish op g st result)

end St

/-- What each call does, made by the section `op`. -/
def sem (op : Op A) : (c : Call A) → St A → c.Res × St A
  | .getActive, s => (s.active, s)
  | .getPending, s => (s.pending, s)
  | .setActive none, s => ((), s.dropActive)
  | .setActive (some g), s => ((), s.activate g)
  | .setPending none, s => ((), s.dropPending)
  | .setPending (some g), s => ((), s.store g)
  | .isActive r, s => (s.query r GoalState.isActive, s)
  | .isExecuting r, s => (s.query r GoalState.isExecuting, s)
  | .isCanceling r, s => (s.query r GoalState.isCanceling, s)
  | .execute r, s => s.execute r
  | .succeed r result, s => s.terminate op r .succeed result
  | .abort r result, s => s.terminate op r .abort result
  | .canceled r result, s => s.terminate op r .canceled result
  | .publishFeedback r f, s => ((), { s with feedback := s.feedback ++ ((s.deref r).map (·, f)).toList })
  | .getGoalHook, s => (s.goalHook, s)
  | .getCancelHook, s => (s.cancelHook, s)
  | .setGoalHook b, s => ((), { s with goalHook := b })
  | .setCancelHook b, s => ((), { s with cancelHook := b })
  | .sendCancelHandler g, s => ((), { s with queue := s.queue ++ [.cancelHandler g] })
  | .shutdownServer, s => ((), { s with connected := false })

/-! ## The methods -/

abbrev M (A : ActionT) := Prog (Call A) Call.Res

def invoke (c : Call A) : M A c.Res := Prog.perform c

/-- `goal_active_->is_executing() || goal_active_->is_canceling()` -/
def activeRuns : M A Bool := do
  if ← invoke (.isExecuting .active) then pure true else invoke (.isCanceling .active)

def pendingGoalHandle : M A (Option Nat) := do
  match ← invoke .getPending with
  | none => pure none
  | some p =>
    if !(← invoke (.isActive .pending)) then pure none
    else if ← invoke (.isExecuting .pending) then pure none
    else if ← invoke (.isCanceling .pending) then pure none
    else pure (some p)

def finishActive (result : A.Result) (_prefer_canceled : Bool) : M A Bool := do
  match ← invoke .getActive with
  | none => pure false
  | some _ =>
    if !(← activeRuns) then
      invoke (.setActive none)
      pure false
    else if ← invoke (.isCanceling .active) then
      -- the exception branch resets the slot and returns false
      let done ← invoke (.canceled .active result)
      invoke (.setActive none)
      pure done
    else
      let done ← invoke (.abort .active result)
      invoke (.setActive none)
      pure done

def terminateGoal (gh : Nat) (result : A.Result) : M A Unit := do
  if ← invoke (.isCanceling (.handle gh)) then
    let _ ← invoke (.canceled (.handle gh) result)
    pure ()
  else if ← invoke (.isExecuting (.handle gh)) then
    let _ ← invoke (.abort (.handle gh) result)
    pure ()
  else if ← invoke (.execute (.handle gh)) then
    let _ ← invoke (.abort (.handle gh) result)
    pure ()
  else pure ()

def acceptPending (result : A.Result) : M A Bool := do
  match ← pendingGoalHandle with
  | none => pure false
  | some p =>
    let _ ← finishActive result false
    if ← invoke (.execute (.handle p)) then
      invoke (.setActive (some p))
      invoke (.setPending none)
      pure true
    else
      invoke (.setPending none)
      pure false

def rejectPending (result : A.Result) : M A Bool := do
  match ← pendingGoalHandle with
  | none => pure false
  | some p =>
    terminateGoal p result
    invoke (.setPending none)
    pure true

def publishFeedback (feedback : A.Feedback) : M A Bool := do
  match ← invoke .getActive with
  | none => pure false
  | some _ =>
    if !(← activeRuns) then pure false
    else
      invoke (.publishFeedback .active feedback)
      pure true

def abortActive (result : A.Result) : M A Bool := finishActive result false

def cancelActive (result : A.Result) : M A Bool := finishActive result true

def succeedActive (result : A.Result) : M A Bool := do
  match ← invoke .getActive with
  | none => pure false
  | some _ =>
    if !(← activeRuns) then pure false
    else if ← invoke (.succeed .active result) then
      invoke (.setActive none)
      pure true
    else pure false

def isActive : M A Bool := do
  match ← invoke .getActive with
  | none => pure false
  | some _ => invoke (.isExecuting .active)

def isPreempting : M A Bool := do
  match ← invoke .getActive with
  | none => pure false
  | some _ => invoke (.isCanceling .active)

def isPending : M A Bool := do return (← pendingGoalHandle).isSome

def getActiveGoal : M A (Option Nat) := do
  match ← invoke .getActive with
  | none => pure none
  | some g => if ← activeRuns then pure (some g) else pure none

def getPendingGoal : M A (Option Nat) := pendingGoalHandle

def shutdown : M A Unit := do
  invoke (.setActive none)
  invoke (.setPending none)
  invoke .shutdownServer

/-! ## The callbacks -/

/-- Whether the cancel request is accepted. -/
def cancelCallback (gh : Nat) : M A Bool := do
  if (← invoke .getActive) = some gh then
    invoke (.sendCancelHandler gh)
    pure true
  else if (← invoke .getPending) = some gh then
    invoke (.sendCancelHandler gh)
    pure true
  else pure false

/-- The section of `acceptedCallback`; whether there is a hook to call. -/
def acceptedCallback (gh : Nat) : M A Bool := do
  match ← pendingGoalHandle with
  | some replaced => terminateGoal replaced A.result
  | none => pure ()
  invoke (.setPending (some gh))
  invoke .getGoalHook

/-- The first section of `cancelHandler`. -/
def cancelHandler (gh : Nat) : M A (Option Bool) := do
  if (← invoke .getActive) = some gh then
    return some (← invoke .getCancelHook)
  else if (← invoke .getPending) = some gh then
    terminateGoal gh A.result
    invoke (.setPending none)
    pure none
  else pure none

/-- The second section of `cancelHandler`, after the hook. -/
def cancelHandlerFinish (gh : Nat) : M A Unit := do
  if (← invoke .getActive) = some gh then
    let _ ← finishActive A.result true
    pure ()
  else pure ()

def Method.body : Method A → M A Ret
  | .acceptPending r => do return .bool (← Actions.acceptPending r)
  | .rejectPending r => do return .bool (← Actions.rejectPending r)
  | .publishFeedback f => do return .bool (← Actions.publishFeedback f)
  | .abortActive r => do return .bool (← Actions.abortActive r)
  | .cancelActive r => do return .bool (← Actions.cancelActive r)
  | .succeedActive r => do return .bool (← Actions.succeedActive r)
  | .isActive => do return .bool (← Actions.isActive)
  | .isPreempting => do return .bool (← Actions.isPreempting)
  | .isPending => do return .bool (← Actions.isPending)
  | .getActiveGoal => do return .goal (← Actions.getActiveGoal)
  | .getPendingGoal => do return .goal (← Actions.getPendingGoal)
  | .setGoalHook b => do invoke (.setGoalHook b); return .unit
  | .setCancelHook b => do invoke (.setCancelHook b); return .unit
  | .shutdown => do Actions.shutdown; return .unit

def Op.body : Op A → M A Ret
  | .call _ m => m.body
  | .cancelCallback g => do return .bool (← Actions.cancelCallback g)
  | .acceptedCallback g => do return .bool (← Actions.acceptedCallback g)
  | .cancelHandler g => do return .hook (← Actions.cancelHandler g)
  | .cancelHandlerFinish g => do Actions.cancelHandlerFinish g; return .unit

end RttRos2.Actions
