/-
  RttRos2.Params.Owners — whose parameters an operation of the parameter service reaches.

  An operation asks `getNode` for the node of the component that owns the service, once, and
  makes its calls to the node it was given. Components run their operations at the same
  time, and node services come and go (Node.Service).

  `parameters_private`: the parameters of a component with the rosnode plugin are its own.
  Whatever the others do, with the nodes they find or have found before, none of their calls
  reaches its node, until somebody removes services from it or adds node services to it by
  hand. The node an operation has found belongs to its component or is process-wide (`Inv`).
-/

import RttRos2.Lib.Path
import RttRos2.Node.Service
import RttRos2.Params.Service

namespace RttRos2.Params

open RttRos2.Lib RttRos2.Node

variable {σ D : Type}

structure Host (σ : Type) where
  process : Process
  /-- The state of each ROS node. -/
  states : Nat → σ
  /-- The operation each thread is in: its component, and the node that was found. -/
  running : Nat → Option (String × Option Nat)

namespace Host

inductive Ev (D : Type) where
  | process (e : Process.Ev)
  /-- `auto rosnode = rtt_ros2_node::getNode(getOwner())` -/
  | start (thread : Nat) (c : String)
  | call (thread : Nat) (c : Call D)
  | finish (thread : Nat)

def init (states : Nat → σ) : Host σ := ⟨Node.start, states, fun _ => none⟩

def step (accepts : RosNode → Bool) (N : Node σ D) (h : Host σ) : Ev D → Option (Host σ)
  | .process e => some { h with process := h.process.step accepts e }
  | .start thread c =>
    match h.running thread with
    | some _ => none
    | none =>
      some { h with running := Function.update h.running thread (some (c, h.process.getNodeService (some c))) }
  | .call thread c =>
    match h.running thread with
    | some (_, some n) => some { h with states := Function.update h.states n (N.sem c (h.states n)).2 }
    | _ => none
  | .finish thread => some { h with running := Function.update h.running thread none }

variable {accepts : RosNode → Bool} {N : Node σ D} {h t : Host σ} {e : Ev D} {c : String} {n : Nat}

/-- The node was made for the component, or for the process. -/
def Reaches (p : Process) (c : String) (n : Nat) : Prop :=
  ∃ node, p.nodes[n]? = some node ∧ (node.owner = some c ∨ node.owner = none)

structure Inv (h : Host σ) : Prop where
  process : h.process.Inv
  found : ∀ thread c n, h.running thread = some (c, some n) → Reaches h.process c n

theorem init_inv (states : Nat → σ) : Inv (init states) where
  process := Process.start_inv
  found thread c n hn := by cases hn

theorem Reaches.grows {p q : Process} (h : Reaches p c n) (hpq : p.nodes <+: q.nodes) : Reaches q c n := by
  obtain ⟨node, hn, ho⟩ := h
  obtain ⟨later, hq⟩ := hpq
  have hlt := (List.getElem?_eq_some_iff.mp hn).1
  exact ⟨node, by rw [← hq, List.getElem?_append_left hlt, hn], ho⟩

theorem reaches_found {p : Process} (hp : p.Inv) (h : p.getNodeService (some c) = some n) : Reaches p c n := by
  rcases Process.component_spec.mp h with h | ⟨-, h⟩
  · obtain ⟨name, h⟩ := h.has
    obtain ⟨node, hn, ho⟩ := hp.created _ name n h
    exact ⟨node, hn, Or.inl ho⟩
  · obtain ⟨node, hn, ho⟩ := hp.created _ _ n (Process.global_spec.mp h)
    exact ⟨node, hn, Or.inr ho⟩

theorem step_inv (hi : Inv h) (hs : step accepts N h e = some t) : Inv t := by
  cases e with
  | process e =>
    cases hs
    refine ⟨Process.step_inv hi.process e, fun thread c n hn => ?_⟩
    exact (hi.found thread c n hn).grows (Process.step_nodes accepts h.process e)
  | start thread c =>
    simp only [step] at hs
    split at hs
    · cases hs
    · cases hs
      refine ⟨hi.process, fun thread' c' n hn => ?_⟩
      dsimp only at hn ⊢
      by_cases ht : thread' = thread
      · subst ht
        simp only [Function.update_self, Option.some.injEq, Prod.mk.injEq] at hn
        obtain ⟨rfl, hn⟩ := hn
        exact reaches_found hi.process hn
      · rw [Function.update_of_ne ht] at hn
        exact hi.found thread' c' n hn
  | call thread c =>
    simp only [step] at hs
    split at hs
    · cases hs
      exact ⟨hi.process, hi.found⟩
    · cases hs
  | finish thread =>
    cases hs
    refine ⟨hi.process, fun thread' c' n hn => ?_⟩
    dsimp only at hn ⊢
    by_cases ht : thread' = thread
    · subst ht
      rw [Function.update_self] at hn
      cases hn
    · rw [Function.update_of_ne ht] at hn
      exact hi.found thread' c' n hn

/-! ## Other components -/

/-- A step of another component's, or one that leaves the node services of `c` alone. -/
def Others (c : String) (h : Host σ) : Ev D → Prop
  | .process e => Process.Keeps c e
  | .start _ d => d ≠ c
  | .call thread _ => ∀ d n, h.running thread = some (d, n) → d ≠ c
  | .finish _ => True

/-- `c` has loaded the plugin, and `n` is its node. -/
structure Owns (h : Host σ) (c : String) (n : Nat) : Prop where
  rosnode : "rosnode" ∈ h.process.services (some c)
  first : Process.First (h.process.services (some c)) n

theorem step_others (hi : Inv h) (ho : Owns h c n) (he : Others c h e) (hs : step accepts N h e = some t) :
    Owns t c n ∧ t.states n = h.states n := by
  cases e with
  | process e =>
    cases hs
    obtain ⟨hr, hp⟩ := Process.step_kept accepts ho.rosnode he
    exact ⟨⟨hr, (Process.first_congr hp).mpr ho.first⟩, rfl⟩
  | start thread d =>
    simp only [step] at hs
    split at hs <;> cases hs
    exact ⟨⟨ho.rosnode, ho.first⟩, rfl⟩
  | call thread x =>
    simp only [step] at hs
    split at hs
    · rename_i d m hrun
      cases hs
      refine ⟨⟨ho.rosnode, ho.first⟩, Function.update_of_ne ?_ _ _⟩
      -- the node of `c` belongs to `c`, the one that was found to another or to none
      rintro rfl
      obtain ⟨name, hname⟩ := ho.first.has
      obtain ⟨node, hn, hc⟩ := hi.process.created _ name n hname
      obtain ⟨node', hn', hd⟩ := hi.found thread d n hrun
      cases hn.symm.trans hn'
      rw [hc] at hd
      rcases hd with hd | hd
      · exact he d _ hrun (Option.some.inj hd).symm
      · cases hd
    · cases hs
  | finish thread =>
    cases hs
    exact ⟨⟨ho.rosnode, ho.first⟩, rfl⟩

theorem parameters_private (accepts : RosNode → Bool) (N : Node σ D) (states : Nat → σ) (h t : Host σ)
    (hr : Path (step accepts N) Always (init states) h) (c : String) (n : Nat) (ho : Owns h c n)
    (ht : Path (step accepts N) (Others c) h t) :
    t.states n = h.states n ∧ t.process.getNodeService (some c) = some n := by
  have hi : Inv h := hr.invariant (init_inv states) fun _ _ _ hi _ hs => step_inv hi hs
  have hall : Inv t ∧ Owns t c n ∧ t.states n = h.states n :=
    ht.invariant (P := fun t => Inv t ∧ Owns t c n ∧ t.states n = h.states n) ⟨hi, ho, rfl⟩ ?_
  · exact ⟨hall.2.2, Process.component_spec.mpr (Or.inl hall.2.1.first)⟩
  · intro t u e ⟨hi, ho, hst⟩ he hs
    obtain ⟨ho', hst'⟩ := step_others hi ho he hs
    exact ⟨step_inv hi hs, ho', hst'.trans hst⟩

/-- "arm" has its own node, 0, and there is a process-wide node, 1. -/
def loaded : List (Ev Int) :=
  [.process (.load (some "arm") 0), .process (.create "cell" "" 0), .start 0 "arm",
    .call 0 (.setParameter "speed" (.integer 1))]

def undeclared (_ : Nat) : Table Int := ⟨fun _ => none, fun _ => none, true⟩

/-- "leg" sets the same parameter, of the process-wide node, while it loads the plugin. -/
theorem parameters_private_arm :
    ∃ h t : Host (Table Int), run (step (fun _ => true) (Table.node Int)) Always (init undeclared) loaded = some h ∧
      (h.states 0).declared "speed" = some (.integer 1) ∧ (t.states 1).declared "speed" = some (.integer 2) ∧
      t.states 0 = h.states 0 ∧ t.process.getNodeService (some "arm") = some 0 := by
  have h : ∃ h t, run (step (fun _ => true) (Table.node Int)) Always (init undeclared) loaded = some h ∧
      Path (step (fun _ => true) (Table.node Int)) (Others "arm") h t ∧ Owns h "arm" 0 ∧
      (h.states 0).declared "speed" = some (.integer 1) ∧ (t.states 1).declared "speed" = some (.integer 2) := by
    refine ⟨_, _, rfl, .step (.finish 1) (.step (.call 1 (.setParameter "speed" (.integer 2)))
      (.step (.process (.load (some "leg") 1)) (.step (.start 1 "leg") .refl ?_ rfl) trivial rfl) ?_ rfl) trivial rfl,
      ⟨Std.TreeMap.mem_insert_self, Process.first_rosnode 0⟩, rfl, rfl⟩
    · show "leg" ≠ "arm"
      decide
    · rintro d n ⟨⟩
      decide
  obtain ⟨h, t, hh, ht, ho, h0, h1⟩ := h
  obtain ⟨hst, hnode⟩ := parameters_private _ _ undeclared h t (run_path loaded hh) "arm" 0 ho ht
  exact ⟨h, t, hh, h0, h1, hst, hnode⟩

end Host

end RttRos2.Params
