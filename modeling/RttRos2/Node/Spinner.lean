/-
  RttRos2.Node.Spinner — the spinner of a node service (rtt_ros2_node.cpp).

  Actors. The owner constructs the service, calls `spin` and `cancel` one after the other
  and destroys the service. Each executor has a thread of its own, which `spin` starts:
  its first step sets the executor's `spinning` flag, then it loops while the flag is set.
  `cancel` clears the flag of the executor it finds in `executor_` and joins `thread_`.

  `cancel` may clear the flag before the thread has set it: the thread then sets it again,
  with nobody left to clear it, and the owner waits in `join` for good
  (`early_clear_deadlocks`, `cancel_before_spin_deadlocks`). When every `cancel` finds a
  thread that has entered `spin` (`Entered`) no state is deadlocked (`join_not_deadlocked`).
-/

import RttRos2.Lib.Path

namespace RttRos2.Node

open RttRos2.Lib

inductive Thread where
  /-- Started, before its first step in `Executor::spin`. -/
  | created
  | looping
  | finished
  deriving DecidableEq, Repr

/-- `rclcpp::executors::MultiThreadedExecutor` and the thread that spins it. -/
structure Executor where
  threads : Nat
  spinning : Bool
  thread : Thread
  deriving DecidableEq, Repr

namespace Executor

def create (threads : Nat) : Executor := ⟨threads, false, .created⟩

/-- One step of the thread in `spin`. -/
def spin (x : Executor) : Option Executor :=
  match x.thread with
  | .created => some { x with spinning := true, thread := .looping }
  | .looping => some (if x.spinning then x else { x with thread := .finished })
  | .finished => none

def cancel (x : Executor) : Executor := { x with spinning := false }

end Executor

inductive Call where
  | spin (threads : Nat)
  | cancel
  /-- The destructor. -/
  | destroy
  deriving DecidableEq, Repr

/-- Where the owner is. Every call begins with `Node::cancel`. -/
inductive Owner where
  | idle
  /-- `executor = std::move(executor_)` -/
  | move (call : Call)
  /-- `executor->cancel()` -/
  | clear (executor : Nat) (call : Call)
  /-- `thread_.join()`, if it is joinable -/
  | join (call : Call)
  /-- The new executor, and its thread. -/
  | start (threads : Nat)
  /-- `executor_ = std::move(executor)` -/
  | keep (executor : Nat)
  | destroyed
  deriving DecidableEq, Repr

structure St where
  /-- The executors, in the order of their creation. -/
  executors : List Executor
  /-- `executor_` -/
  executor : Option Nat
  /-- `thread_`, as the executor whose thread it is. -/
  thread : Option Nat
  owner : Owner
  deriving DecidableEq, Repr

inductive Ev where
  | call (call : Call)
  /-- The owner's next step. -/
  | owner
  /-- The next step of the executor's thread. -/
  | spinner (executor : Nat)
  deriving DecidableEq, Repr

/-- The constructor, with the value of the parameter `spinner_threads`. -/
def init (spinnerThreads : Int) : St :=
  ⟨[], none, none, if 0 ≤ spinnerThreads then .move (.spin spinnerThreads.toNat) else .idle⟩

def Call.afterCancel : Call → Owner
  | .spin threads => .start threads
  | .cancel => .idle
  | .destroy => .destroyed

/-- `join` waits until the thread has finished. -/
def St.joins (s : St) : Bool :=
  match s.thread with
  | none => true
  | some e => s.executors[e]?.any (·.thread = .finished)

def ownerStep (s : St) : Option St :=
  match s.owner with
  | .idle | .destroyed => none
  | .move call =>
    match s.executor with
    | some e => some { s with executor := none, owner := .clear e call }
    | none => some { s with owner := .join call }
  | .clear e call => some { s with executors := s.executors.modify e Executor.cancel, owner := .join call }
  | .join call => if s.joins then some { s with thread := none, owner := call.afterCancel } else none
  | .start threads =>
    some { s with
      executors := s.executors ++ [.create threads]
      thread := some s.executors.length
      owner := .keep s.executors.length }
  | .keep e => some { s with executor := some e, owner := .idle }

def step (s : St) : Ev → Option St
  | .call call => if s.owner = .idle then some { s with owner := .move call } else none
  | .owner => ownerStep s
  | .spinner e =>
    (s.executors[e]?.bind Executor.spin).map fun x => { s with executors := s.executors.set e x }

/-- The owner waits for a thread that loops, and the flag is never cleared again. -/
structure Deadlocked (s : St) (e : Nat) : Prop where
  joining : ∃ call, s.owner = .join call ∧ s.thread = some e
  looping : ∃ x, s.executors[e]? = some x ∧ x.thread = .looping
  never : ∀ t, Path step Always s t → ∃ x, t.executors[e]? = some x ∧ x.spinning = true

variable {s t : St} {e : Nat} {ev : Ev} {x y : Executor} {call : Call} {k : Int}

theorem spinner_spec (h : step s (.spinner e) = some t) :
    ∃ x y, s.executors[e]? = some x ∧ x.spin = some y ∧ t = { s with executors := s.executors.set e y } := by
  simp only [step] at h
  obtain ⟨y, hy, rfl⟩ := Option.map_eq_some_iff.mp h
  obtain ⟨x, hx, hy⟩ := Option.bind_eq_some_iff.mp hy
  exact ⟨x, y, hx, hy, rfl⟩

/-! ## What the owner holds -/

/-- Outside `cancel` and `spin`, `thread_` is the thread of the executor in `executor_`;
    inside, the executor is the one the owner has at hand. -/
structure Inv (s : St) : Prop where
  held : match s.owner with
    | .idle | .move _ => s.thread = s.executor
    | .clear e _ | .keep e => s.thread = some e ∧ s.executor = none
    | .join _ => s.executor = none
    | .start _ | .destroyed => s.thread = none ∧ s.executor = none
  created : ∀ e, s.thread = some e → e < s.executors.length

theorem init_inv : Inv (init k) := by
  refine ⟨?_, nofun⟩
  by_cases hk : 0 ≤ k <;> simp [init, hk]

theorem owner_inv (hi : Inv s) (h : ownerStep s = some t) : Inv t := by
  obtain ⟨hh, hc⟩ := hi
  unfold ownerStep at h
  split at h <;> rename_i ho <;> simp only [ho] at hh
  · cases h
  · cases h
  · split at h
    · rename_i e he
      cases h
      exact ⟨⟨hh.trans he, rfl⟩, hc⟩
    · rename_i he
      cases h
      exact ⟨he, hc⟩
  · cases h
    refine ⟨hh.2, fun e he => ?_⟩
    simpa using hc e he
  · rename_i call
    split at h
    · cases h
      refine ⟨?_, nofun⟩
      cases call with
      | spin | destroy => exact ⟨rfl, hh⟩
      | cancel => exact hh.symm
    · cases h
  · cases h
    exact ⟨⟨rfl, hh.2⟩, by simp⟩
  · cases h
    exact ⟨hh.1, hc⟩

theorem step_inv (hi : Inv s) (h : step s ev = some t) : Inv t := by
  cases ev with
  | call call =>
    simp only [step] at h
    split at h
    · rename_i ho
      have hh := hi.held
      simp only [ho] at hh
      cases h
      exact ⟨hh, hi.created⟩
    · cases h
  | owner => exact owner_inv hi h
  | spinner e =>
    obtain ⟨x, y, -, -, rfl⟩ := spinner_spec h
    exact ⟨hi.held, by simpa using hi.created⟩

theorem path_inv (h : Path step Always (init k) s) : Inv s :=
  h.invariant init_inv fun _ _ _ hi _ h => step_inv hi h

/-! ## A cancel that comes too early -/

/-- While the owner joins a thread that loops with the flag set, only the loop goes on. -/
theorem stuck_step (ho : s.owner = .join call) (ht : s.thread = some e) (hx : s.executors[e]? = some x)
    (hl : x.thread = .looping) (hs : x.spinning = true) (h : step s ev = some t) :
    t.owner = .join call ∧ t.thread = some e ∧ t.executors[e]? = some x := by
  cases ev with
  | call call' => simp [step, ho] at h
  | owner => simp [step, ownerStep, ho, St.joins, ht, hx, hl] at h
  | spinner e' =>
    obtain ⟨x', y, hx', hy, rfl⟩ := spinner_spec h
    refine ⟨ho, ht, ?_⟩
    by_cases he : e' = e
    · subst he
      cases hx.symm.trans hx'
      simp only [Executor.spin, hl, hs, if_true, Option.some.injEq] at hy
      subst hy
      exact List.getElem?_set_self (List.getElem?_eq_some_iff.mp hx).1
    · simpa [List.getElem?_set_ne he] using hx

theorem stuck_deadlocked (ho : s.owner = .join call) (ht : s.thread = some e) (hx : s.executors[e]? = some x)
    (hl : x.thread = .looping) (hs : x.spinning = true) : Deadlocked s e := by
  refine ⟨⟨call, ho, ht⟩, ⟨x, hx, hl⟩, fun t hp => ?_⟩
  have := hp.invariant (P := fun t => t.owner = .join call ∧ t.thread = some e ∧ t.executors[e]? = some x)
    ⟨ho, ht, hx⟩ fun t u ev ⟨ho, ht, hx⟩ _ h => stuck_step ho ht hx hl hs h
  exact ⟨x, this.2.2, hs⟩

/-- Clearing the flag of an executor whose thread has not set it yet may deadlock. -/
theorem early_clear_deadlocks (h : Path step Always (init k) s) (ho : s.owner = .clear e call)
    (hx : s.executors[e]? = some x) (hc : x.thread = .created) : ∃ t, Path step Always s t ∧ Deadlocked t e := by
  have hh := (path_inv h).held
  simp only [ho] at hh
  have hlt : e < s.executors.length := (List.getElem?_eq_some_iff.mp hx).1
  let u : St := { s with executors := s.executors.modify e Executor.cancel, owner := .join call }
  have hu : step s .owner = some u := by simp [step, ownerStep, ho, u]
  have hux : u.executors[e]? = some x.cancel := by simp [u, hx]
  -- the thread sets the flag again
  have hv : step u (.spinner e) =
      some { u with executors := u.executors.set e { x.cancel with spinning := true, thread := .looping } } := by
    simp [step, hux, Executor.spin, Executor.cancel, hc]
  refine ⟨_, .step (.spinner e) (.step .owner .refl trivial hu) trivial hv, ?_⟩
  refine stuck_deadlocked rfl hh.1 (List.getElem?_set_self (by simpa [u] using hlt)) rfl rfl

/-- The service is destroyed right after it was constructed. -/
theorem cancel_before_spin_deadlocks :
    ∃ s, run step Always (init 1) [.owner, .owner, .owner, .owner, .call .destroy, .owner, .owner, .spinner 0] =
      some s ∧ Deadlocked s 0 :=
  ⟨_, rfl, stuck_deadlocked rfl rfl rfl rfl rfl⟩

/-! ## When the thread has entered spin -/

/-- The owner is about to clear the flag of an executor whose thread has not set it yet. -/
def early (s : St) : Bool :=
  match s.owner with
  | .clear e _ => s.executors[e]?.any (·.thread = .created)
  | _ => false

abbrev Entered (s : St) (ev : Ev) : Prop := ev = .owner → early s = false

/-- The flag of the thread that the owner joins stays cleared. -/
def Cleared (s : St) : Prop :=
  ∀ call, s.owner = .join call → ∀ e, s.thread = some e →
    ∃ x, s.executors[e]? = some x ∧ x.spinning = false ∧ x.thread ≠ .created

theorem owner_cleared (hi : Inv s) (he : early s = false) (h : ownerStep s = some t) : Cleared t := by
  obtain ⟨hh, hc⟩ := hi
  unfold ownerStep at h
  split at h <;> rename_i ho <;> simp only [ho] at hh
  · cases h
  · cases h
  · split at h
    · cases h
      exact nofun
    · rename_i hn
      cases h
      intro _ _ e ht
      rw [hn] at hh
      cases hh.symm.trans ht
  · rename_i e call
    cases h
    intro _ _ e' ht
    cases hh.1.symm.trans ht
    obtain ⟨x, hx⟩ : ∃ x, s.executors[e]? = some x := ⟨_, List.getElem?_eq_getElem (hc e ht)⟩
    refine ⟨x.cancel, by simp [hx], rfl, ?_⟩
    simpa [early, ho, hx, Executor.cancel] using he
  · rename_i call
    split at h
    · cases h
      cases call <;> exact nofun
    · cases h
  · cases h
    exact nofun
  · cases h
    exact nofun

theorem spin_cleared (hs : x.spinning = false) (hc : x.thread ≠ .created) (h : x.spin = some y) :
    y.spinning = false ∧ y.thread ≠ .created := by
  unfold Executor.spin at h
  split at h
  · contradiction
  · rw [hs] at h
    cases h
    exact ⟨rfl, nofun⟩
  · cases h

theorem step_cleared (hi : Inv s) (hc : Cleared s) (he : Entered s ev) (h : step s ev = some t) : Cleared t := by
  cases ev with
  | call call =>
    simp only [step] at h
    split at h <;> cases h
    exact nofun
  | owner => exact owner_cleared hi (he rfl) h
  | spinner e' =>
    obtain ⟨x', y, hx', hy, rfl⟩ := spinner_spec h
    intro call ho e ht
    obtain ⟨x, hx, hs, hn⟩ := hc call ho e ht
    by_cases hee : e' = e
    · subst hee
      cases hx.symm.trans hx'
      exact ⟨y, List.getElem?_set_self (List.getElem?_eq_some_iff.mp hx).1, spin_cleared hs hn hy⟩
    · exact ⟨x, by simpa [List.getElem?_set_ne hee] using hx, hs, hn⟩

theorem init_cleared : Cleared (init k) := by
  intro call ho
  by_cases hk : 0 ≤ k <;> simp [init, hk] at ho

theorem join_not_deadlocked (h : Path step Entered (init k) s) (e : Nat) : ¬ Deadlocked s e := by
  have hc : Inv s ∧ Cleared s := h.invariant (P := fun s => Inv s ∧ Cleared s) ⟨init_inv, init_cleared⟩
    fun _ _ _ hc he h => ⟨step_inv hc.1 h, step_cleared hc.1 hc.2 he h⟩
  intro hd
  obtain ⟨call, ho, ht⟩ := hd.joining
  obtain ⟨x, hx, hs, -⟩ := hc.2 call ho e ht
  obtain ⟨y, hy, hs'⟩ := hd.never s .refl
  cases hx.symm.trans hy
  rw [hs] at hs'
  cases hs'

def destroyRunning : List Ev :=
  [.owner, .owner, .owner, .owner, .spinner 0, .call .destroy, .owner, .owner]

/-- The spinner runs when the service is destroyed. -/
theorem join_not_deadlocked_running :
    ∃ s, run step Entered (init 1) destroyRunning = some s ∧ s.owner = .join .destroy ∧ ¬ Deadlocked s 0 := by
  refine ⟨_, rfl, rfl, join_not_deadlocked (k := 1) (run_path destroyRunning ?_) 0⟩
  rfl

end RttRos2.Node
