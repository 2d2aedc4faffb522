/-
  RttRos2.Actions.System — the threads around a `SimpleActionServer`.

  - The ROS executor (any number of its callbacks in flight): `rclcpp_action` accepts a
    goal request (`accept`; `goalCallback` answers ACCEPT_AND_DEFER to all) and calls
    `RTTActionServer::handleAccepted`, which sends `acceptedCallback` to the owner's
    engine; it calls `cancelCallback` for a goal that is ACCEPTED or EXECUTING and, after
    that returned ACCEPT, moves the goal to CANCELING in a step of its own (`cancelGoal`).
  - The owner's thread takes its operations in FIFO order (`dequeue`), runs their
    sections of `mutex_`, and between them the user's hook. The hook, and the owner
    between operations, may call any public method.
  - Any other thread may call any public method at any time.
  `crit` is the section that holds `mutex_` and what remains of it: one call per `run`.
  Everything but a section's own calls can happen while it is held. `step_cases` lists what
  a step can do.
-/

import RttRos2.Actions.SimpleActionServer
import RttRos2.Lib.Path

namespace RttRos2.Actions

open RttRos2.Lib

/-- Where the owner's thread is. `accepted`: at or in the section of `acceptedCallback`;
    `acceptedHook`: about to call the goal hook; `goalHook`: in it; and so on. -/
inductive Owner where
  | idle
  | accepted (g : Nat)
  | acceptedHook (g : Nat)
  | goalHook (g : Nat)
  | handler (g : Nat)
  | handlerHook (g : Nat)
  | cancelHook (g : Nat)
  | handlerFinish (g : Nat)
  deriving DecidableEq, Repr

structure Crit (A : ActionT) where
  op : Op A
  prog : M A Ret

structure Sys (A : ActionT) where
  st : St A
  owner : Owner
  crit : Option (Crit A)
  /-- Goals accepted by `rclcpp_action` whose `handleAccepted` is still to come. -/
  accepting : Nat
  /-- Goals for which `cancelCallback` returned ACCEPT, the CANCELING step still to come. -/
  cancels : List Nat
  /-- Every goal for which `cancelCallback` returned ACCEPT. -/
  accepts : List Nat
  /-- Goals whose operation `acceptedCallback` the owner took from its queue. -/
  taken : List Nat
  /-- Goals a hook was called for. -/
  hooks : List Nat

inductive Ev (A : ActionT) where
  | accept
  | handleAccepted
  | cancelCallback (g : Nat)
  | cancelGoal (g : Nat)
  | start (created : Bool)
  | call (t : Tid) (m : Method A)
  | dequeue
  | lock
  | run
  | unlock
  | hook
  | hookReturn

variable {A : ActionT}

def St.init : St A :=
  ⟨fun _ => ⟨.accepted, none⟩, 0, none, none, false, false, false, [], [], [], [], []⟩

def Sys.init : Sys A := ⟨St.init, .idle, none, 0, [], [], [], []⟩

/-- `RTTActionServer::handleAccepted`: send `acceptedCallback` for a new goal. -/
def St.arrive (s : St A) : St A :=
  { s with arrived := s.arrived + 1, queue := s.queue ++ [.acceptedCallback s.arrived] }

/-- `rclcpp_action`'s CANCELING step, if the goal still allows it. -/
def St.cancelGoal (s : St A) (g : Nat) : St A :=
  match (s.state g).next .cancelGoal with
  | none => s
  | some st => s.move g st

def Work.owner : Work → Owner
  | .acceptedCallback g => .accepted g
  | .cancelHandler g => .handler g

def Work.goal? : Work → Option Nat
  | .acceptedCallback g => some g
  | .cancelHandler _ => none

/-- The section the owner's operation is about to enter. -/
def Owner.op : Owner → Option (Op A)
  | .accepted g => some (.acceptedCallback g)
  | .handler g => some (.cancelHandler g)
  | .handlerFinish g => some (.cancelHandlerFinish g)
  | _ => none

/-- The owner's thread runs user code. -/
def Owner.user : Owner → Bool
  | .idle | .goalHook _ | .cancelHook _ => true
  | _ => false

/-- The owner's thread is inside a public method. -/
def Sys.ownerCalls (s : Sys A) : Bool :=
  match s.crit with
  | some ⟨.call .owner _, _⟩ => true
  | _ => false

def enter (s : Sys A) (op : Op A) : Sys A := { s with crit := some ⟨op, op.body⟩ }

/-- What follows the section `op` that returned `v`. -/
def leave (s : Sys A) : Op A → Ret → Sys A
  | .acceptedCallback g, .bool hook => { s with crit := none, owner := if hook then .acceptedHook g else .idle }
  | .cancelHandler _, .hook none => { s with crit := none, owner := .idle }
  | .cancelHandler g, .hook (some hook) =>
    { s with crit := none, owner := if hook then .handlerHook g else .handlerFinish g }
  | .cancelHandlerFinish _, _ => { s with crit := none, owner := .idle }
  | .cancelCallback g, .bool true => { s with crit := none, cancels := s.cancels ++ [g], accepts := s.accepts ++ [g] }
  | _, _ => { s with crit := none }

@[simp] theorem leave_crit (s : Sys A) (op : Op A) (v : Ret) : (leave s op v).crit = none := by
  unfold leave
  split <;> rfl

@[simp] theorem leave_st (s : Sys A) (op : Op A) (v : Ret) : (leave s op v).st = s.st := by
  unfold leave
  split <;> rfl

@[simp] theorem leave_taken (s : Sys A) (op : Op A) (v : Ret) : (leave s op v).taken = s.taken := by
  unfold leave
  split <;> rfl

def step (s : Sys A) : Ev A → Option (Sys A)
  | .accept => if s.st.connected then some { s with accepting := s.accepting + 1 } else none
  | .handleAccepted =>
    if s.accepting = 0 then none else some { s with accepting := s.accepting - 1, st := s.st.arrive }
  | .cancelCallback g =>
    if s.crit.isNone ∧ g < s.st.arrived ∧ ((s.st.state g).next .cancelGoal).isSome then
      some (enter s (.cancelCallback g))
    else none
  | .cancelGoal g =>
    if g ∈ s.cancels then some { s with cancels := s.cancels.erase g, st := s.st.cancelGoal g } else none
  | .start created => some { s with st := { s.st with connected := s.st.connected || created } }
  | .call t m =>
    if s.crit.isNone ∧ (t = .owner → s.owner.user) then some (enter s (.call t m)) else none
  | .dequeue =>
    if s.owner = .idle ∧ s.ownerCalls = false then
      match s.st.queue with
      | [] => none
      | w :: r => some { s with owner := w.owner, taken := s.taken ++ w.goal?.toList, st := { s.st with queue := r } }
    else none
  | .lock =>
    if s.crit.isNone then s.owner.op.map (enter s) else none
  | .run =>
    match s.crit with
    | some ⟨op, .call c k⟩ => some { s with st := (sem op c s.st).2, crit := some ⟨op, k (sem op c s.st).1⟩ }
    | _ => none
  | .unlock =>
    match s.crit with
    | some ⟨op, .ret v⟩ => some (leave s op v)
    | _ => none
  | .hook =>
    match s.owner with
    | .acceptedHook g => some { s with owner := .goalHook g, hooks := s.hooks ++ [g] }
    | .handlerHook g => some { s with owner := .cancelHook g, hooks := s.hooks ++ [g] }
    | _ => none
  | .hookReturn =>
    if s.ownerCalls then none
    else match s.owner with
      | .goalHook _ => some { s with owner := .idle }
      | .cancelHook g => some { s with owner := .handlerFinish g }
      | _ => none

/-- Everything a step can do, and when. -/
inductive Step (s : Sys A) : Ev A → Sys A → Prop
  | accept : s.st.connected = true → Step s .accept { s with accepting := s.accepting + 1 }
  | handleAccepted : s.accepting ≠ 0 →
      Step s .handleAccepted { s with accepting := s.accepting - 1, st := s.st.arrive }
  | cancelCallback (g : Nat) : s.crit = none → g < s.st.arrived → ((s.st.state g).next .cancelGoal).isSome = true →
      Step s (.cancelCallback g) (enter s (.cancelCallback g))
  | cancelGoal (g : Nat) : g ∈ s.cancels →
      Step s (.cancelGoal g) { s with cancels := s.cancels.erase g, st := s.st.cancelGoal g }
  | start (created : Bool) :
      Step s (.start created) { s with st := { s.st with connected := s.st.connected || created } }
  | call (t : Tid) (m : Method A) : s.crit = none → (t = .owner → s.owner.user = true) →
      Step s (.call t m) (enter s (.call t m))
  | dequeue (w : Work) (r : List Work) : s.owner = .idle → s.ownerCalls = false → s.st.queue = w :: r →
      Step s .dequeue
        { s with owner := w.owner, taken := s.taken ++ w.goal?.toList, st := { s.st with queue := r } }
  | lock (op : Op A) : s.crit = none → s.owner.op = some op → Step s .lock (enter s op)
  | run (op : Op A) (c : Call A) (k : c.Res → M A Ret) : s.crit = some ⟨op, .call c k⟩ →
      Step s .run { s with st := (sem op c s.st).2, crit := some ⟨op, k (sem op c s.st).1⟩ }
  | unlock (op : Op A) (v : Ret) : s.crit = some ⟨op, .ret v⟩ → Step s .unlock (leave s op v)
  | goalHook (g : Nat) : s.owner = .acceptedHook g →
      Step s .hook { s with owner := .goalHook g, hooks := s.hooks ++ [g] }
  | cancelHook (g : Nat) : s.owner = .handlerHook g →
      Step s .hook { s with owner := .cancelHook g, hooks := s.hooks ++ [g] }
  | goalHookReturn (g : Nat) : s.ownerCalls = false → s.owner = .goalHook g →
      Step s .hookReturn { s with owner := .idle }
  | cancelHookReturn (g : Nat) : s.ownerCalls = false → s.owner = .cancelHook g →
      Step s .hookReturn { s with owner := .handlerFinish g }

theorem step_cases {s t : Sys A} {e : Ev A} (h : step s e = some t) : Step s e t := by
  cases e with
  | accept =>
    simp only [step] at h
    split at h
    · rename_i hc
      cases h
      exact .accept hc
    · cases h
  | handleAccepted =>
    simp only [step] at h
    split at h
    · cases h
    · rename_i hc
      cases h
      exact .handleAccepted hc
  | cancelCallback g =>
    simp only [step] at h
    split at h
    · rename_i hc
      cases h
      exact .cancelCallback g (Option.isNone_iff_eq_none.mp hc.1) hc.2.1 hc.2.2
    · cases h
  | cancelGoal g =>
    simp only [step] at h
    split at h
    · rename_i hc
      cases h
      exact .cancelGoal g hc
    · cases h
  | start created =>
    cases h
    exact .start created
  | call t m =>
    simp only [step] at h
    split at h
    · rename_i hc
      cases h
      exact .call t m (Option.isNone_iff_eq_none.mp hc.1) hc.2
    · cases h
  | dequeue =>
    simp only [step] at h
    split at h
    · rename_i hc
      split at h
      · cases h
      · rename_i w r hq
        cases h
        exact .dequeue w r hc.1 hc.2 hq
    · cases h
  | lock =>
    simp only [step] at h
    split at h
    · rename_i hc
      obtain ⟨op, hop, rfl⟩ := Option.map_eq_some_iff.mp h
      exact .lock op (Option.isNone_iff_eq_none.mp hc) hop
    · cases h
  | run =>
    simp only [step] at h
    split at h
    · rename_i op c k hc
      cases h
      exact .run op c k hc
    · cases h
  | unlock =>
    simp only [step] at h
    split at h
    · rename_i op v hc
      cases h
      exact .unlock op v hc
    · cases h
  | hook =>
    simp only [step] at h
    split at h
    · rename_i g ho
      cases h
      exact .goalHook g ho
    · rename_i g ho
      cases h
      exact .cancelHook g ho
    · cases h
  | hookReturn =>
    simp only [step] at h
    split at h
    · cases h
    · rename_i hc
      split at h
      · rename_i g ho
        cases h
        exact .goalHookReturn g (Bool.eq_false_iff.mpr hc) ho
      · rename_i g ho
        cases h
        exact .cancelHookReturn g (Bool.eq_false_iff.mpr hc) ho
      · cases h

/-- A condition on the public methods that are called and on what each call of a section
    finds. -/
def Allowed (meth : Method A → Prop) (ok : Op A → Call A → St A → Prop) (s : Sys A) : Ev A → Prop
  | .call _ m => meth m
  | .run => ∀ op c k, s.crit = some ⟨op, .call c k⟩ → ok op c s.st
  | _ => True

instance {meth : Method A → Prop} {ok : Op A → Call A → St A → Prop} [∀ m, Decidable (meth m)]
    [∀ op c s, Decidable (ok op c s)] (s : Sys A) (e : Ev A) : Decidable (Allowed meth ok s e) :=
  match e with
  | .call _ m => inferInstanceAs (Decidable (meth m))
  | .run =>
    match hc : s.crit with
    | none => .isTrue fun _ _ _ e => by rw [hc] at e; cases e
    | some ⟨op, .ret _⟩ => .isTrue fun _ _ _ e => by rw [hc] at e; cases e
    | some ⟨op, .call c k⟩ => decidable_of_iff (ok op c s.st)
        ⟨fun h _ _ _ e => by rw [hc] at e; cases e; exact h, fun h => h op c k hc⟩
  | .accept | .handleAccepted | .cancelCallback _ | .cancelGoal _ | .start _ | .dequeue | .lock | .unlock | .hook
  | .hookReturn => .isTrue trivial

/-- Every state a call may find. -/
def Anything : Op A → Call A → St A → Prop := fun _ _ _ => True

instance (op : Op A) (c : Call A) (s : St A) : Decidable (Anything op c s) := .isTrue trivial

def Method.isShutdown : Method A → Bool
  | .shutdown => true
  | _ => false

abbrev NoShutdown (m : Method A) : Prop := m.isShutdown = false

/-- Runs from the start, each step meeting `ok`. -/
abbrev Reach (ok : Sys A → Ev A → Prop) (s : Sys A) : Prop := Path step ok Sys.init s

/-! ## Events of a trace -/

def arrival : List (Ev A) := [.accept, .handleAccepted]

/-- `n` calls of the section that holds `mutex_`, and its return. -/
def calls (n : Nat) : List (Ev A) := List.replicate n .run ++ [.unlock]

/-- The owner takes its next operation and runs its first section. -/
def handled (n : Nat) : List (Ev A) := [.dequeue, .lock] ++ calls n

def called (t : Tid) (m : Method A) (n : Nat) : List (Ev A) := .call t m :: calls n

end RttRos2.Actions
