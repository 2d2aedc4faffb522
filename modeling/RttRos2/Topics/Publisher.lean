/-
  RttRos2.Topics.Publisher — the sending side of a ROS topic stream: `Waitable` and
  `RosPublisherChannelElement` (rtt_ros2_topics), behind an RTT storage element.

  Threads, any number of each.
  - A writer stores a sample and, unless the storage refuses it, calls `signal()`, which is
    `Waitable::trigger`.
  - An executor calls `is_ready` and, when that is true, `execute`, which runs `publish()`
    under `execute_mutex_` and triggers the waitable again when it returns false.
  - A canceler calls `cancel`, which clears `func_` under the same mutex.
  One step is one access to what the threads share: `has_work_`, `func_`, the mutex, the
  storage, the publisher. The guard condition only wakes an executor; here one may call
  `is_ready` at any time. What `can_loan_messages()` and `borrow_loaned_message()` answer
  is up to the middleware.
-/

import Mathlib.Logic.Function.Basic
import RttRos2.Lib.Path

namespace RttRos2.Topics

/-- RTT's storage, by the samples in it that are still unread. It may refuse a sample and
    drop others, but keeps those it has in the order they were written. -/
structure Storage (T : Type) where
  retain : List T → T → Option (List T)
  sublist : ∀ {u : List T} {x : T} {u' : List T}, retain u x = some u' → u'.Sublist (u ++ [x])

namespace Storage

variable {T : Type}

/-- A storage of the last sample. -/
def data : Storage T where
  retain _ x := some [x]
  sublist h := by cases h; exact List.sublist_append_right _ _

/-- A storage that refuses samples when it is full. -/
def buffer (size : Nat) : Storage T where
  retain u x := if u.length < size then some (u ++ [x]) else none
  sublist h := by
    split at h
    · cases h; exact List.Sublist.refl _
    · cases h

end Storage

inductive WriterPc where
  | idle
  | stored
  deriving DecidableEq, Repr

/-- Inside `publish()`. `loan`: in `publish_impl_loaned_message`. -/
inductive FuncPc (T : Type) where
  | enter
  | borrow
  | read (loan : Bool)
  | publish (loan : Bool) (x : T)

/-- `ready`: `is_ready` was true, `execute` is still to come. `locked` to `leave`: inside
    `execute`, holding the mutex. -/
inductive ExecPc (T : Type) where
  | idle
  | ready
  | locked
  | clear
  | func (p : FuncPc T)
  | returned (done : Bool)
  | leave

inductive CancelPc where
  | idle
  | locked
  | leave
  | returned
  deriving DecidableEq, Repr

inductive Holder where
  | executor (e : Nat)
  | canceler (c : Nat)
  deriving DecidableEq, Repr

structure St (T : Type) where
  unread : List T
  hasWork : Bool
  /-- `func_` is set. -/
  func : Bool
  mutex : Option Holder
  writer : Nat → WriterPc
  executor : Nat → ExecPc T
  canceler : Nat → CancelPc
  /-- Samples stored, read from the storage and published so far. -/
  written : List T
  reads : List T
  published : List T

inductive Ev (T : Type) where
  | store (w : Nat) (x : T)
  | signal (w : Nat)
  | isReady (e : Nat)
  | lock (e : Nat)
  | execute (e : Nat) (answer : Bool)
  | cancel (c : Nat)
  | reset (c : Nat)
  | cancelReturn (c : Nat)

variable {T : Type}

def init : St T := ⟨[], false, true, none, fun _ => .idle, fun _ => .idle, fun _ => .idle, [], [], []⟩

def St.trigger (s : St T) : St T := { s with hasWork := true }

def St.goto (s : St T) (e : Nat) (p : ExecPc T) : St T := { s with executor := Function.update s.executor e p }

def St.cancelGoto (s : St T) (c : Nat) (p : CancelPc) : St T := { s with canceler := Function.update s.canceler c p }

/-- One step of `execute` by the executor `e`, which holds the mutex. -/
def St.execute (s : St T) (e : Nat) (answer : Bool) : Option (St T) :=
  match s.executor e with
  | .idle | .ready => none
  | .locked => some (s.goto e (if s.func then .clear else .leave))
  | .clear => some { s.goto e (.func .enter) with hasWork := false }
  | .func .enter => some (s.goto e (.func (if answer then .borrow else .read false)))
  | .func .borrow => some (s.goto e (if answer then .func (.read true) else .returned false))
  | .func (.read loan) =>
    match s.unread with
    | [] => some (s.goto e (.returned true))
    | x :: u => some { s.goto e (.func (.publish loan x)) with unread := u, reads := s.reads ++ [x] }
  | .func (.publish loan x) =>
    some { s.goto e (.func (if loan then .borrow else .read false)) with published := s.published ++ [x] }
  | .returned done => some (if done then s.goto e .leave else (s.goto e .leave).trigger)
  | .leave => some { s.goto e .idle with mutex := none }

def step (B : Storage T) (s : St T) : Ev T → Option (St T)
  | .store w x =>
    if s.writer w = .idle then
      match B.retain s.unread x with
      | none => some s
      | some u => some { s with unread := u, written := s.written ++ [x], writer := Function.update s.writer w .stored }
    else none
  | .signal w =>
    if s.writer w = .stored then some { s.trigger with writer := Function.update s.writer w .idle } else none
  | .isReady e =>
    match s.executor e with
    | .idle => if s.hasWork then some (s.goto e .ready) else none
    | _ => none
  | .lock e =>
    match s.executor e, s.mutex with
    | .ready, none => some { s.goto e .locked with mutex := some (.executor e) }
    | _, _ => none
  | .execute e answer => s.execute e answer
  | .cancel c =>
    if s.canceler c = .idle ∧ s.mutex = none then
      some { s.cancelGoto c .locked with mutex := some (.canceler c) }
    else none
  | .reset c => if s.canceler c = .locked then some { s.cancelGoto c .leave with func := false } else none
  | .cancelReturn c =>
    if s.canceler c = .leave then some { s.cancelGoto c .returned with mutex := none } else none

/-! ## What a step does -/

variable {B : Storage T} {s t : St T} {w e c : Nat} {x : T}

theorem step_store (h : step B s (.store w x) = some t) :
    s.writer w = .idle ∧ (t = s ∨ ∃ u, B.retain s.unread x = some u ∧
      t = { s with unread := u, written := s.written ++ [x], writer := Function.update s.writer w .stored }) := by
  simp only [step] at h
  split at h
  · rename_i hw
    refine ⟨hw, ?_⟩
    split at h
    · cases h
      exact Or.inl rfl
    · rename_i u hu
      cases h
      exact Or.inr ⟨u, hu, rfl⟩
  · cases h

theorem step_signal (h : step B s (.signal w) = some t) :
    s.writer w = .stored ∧ t = { s.trigger with writer := Function.update s.writer w .idle } := by
  simp only [step] at h
  split at h
  · rename_i hw
    cases h
    exact ⟨hw, rfl⟩
  · cases h

theorem step_isReady (h : step B s (.isReady e) = some t) :
    s.executor e = .idle ∧ s.hasWork = true ∧ t = s.goto e .ready := by
  simp only [step] at h
  split at h
  · rename_i he
    split at h
    · rename_i hw
      cases h
      exact ⟨he, hw, rfl⟩
    · cases h
  · cases h

theorem step_lock (h : step B s (.lock e) = some t) :
    s.executor e = .ready ∧ s.mutex = none ∧ t = { s.goto e .locked with mutex := some (.executor e) } := by
  simp only [step] at h
  split at h
  · rename_i he hm
    cases h
    exact ⟨he, hm, rfl⟩
  · cases h

theorem step_cancel (h : step B s (.cancel c) = some t) :
    s.canceler c = .idle ∧ s.mutex = none ∧ t = { s.cancelGoto c .locked with mutex := some (.canceler c) } := by
  simp only [step] at h
  split at h
  · rename_i hc
    cases h
    exact ⟨hc.1, hc.2, rfl⟩
  · cases h

theorem step_reset (h : step B s (.reset c) = some t) :
    s.canceler c = .locked ∧ t = { s.cancelGoto c .leave with func := false } := by
  simp only [step] at h
  split at h
  · rename_i hc
    cases h
    exact ⟨hc, rfl⟩
  · cases h

theorem step_cancelReturn (h : step B s (.cancelReturn c) = some t) :
    s.canceler c = .leave ∧ t = { s.cancelGoto c .returned with mutex := none } := by
  simp only [step] at h
  split at h
  · rename_i hc
    cases h
    exact ⟨hc, rfl⟩
  · cases h

end RttRos2.Topics
