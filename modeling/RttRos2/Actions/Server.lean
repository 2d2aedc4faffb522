/-
  RttRos2.Actions.Server — `RTTActionServer` (rtt_ros2_actions/rtt_action_server.hpp): who
  handles a goal, and what becomes of the goals that were accepted.

  Handlers are registered as operations or as callbacks, which take precedence, by any
  thread at any time. With no goal handler the server accepts the goals "which somebody is
  going to execute": an accepted handler is registered at that moment. `rclcpp_action` calls
  `handleAccepted` in a step of its own, and others may register in between.

  - `handlers_latest`: after any run the handler in effect is the callback set last, or else
    the operation registered last. A registration that is refused takes the handler before
    it away all the same, unless the pointer was null.
  - `accepted_accounted`: every accepted goal waits for its `handleAccepted`, was handed to
    one handler once, or was dropped, and one accepted by default is dropped only in a run
    that withdraws the accepted handler.
  - `simple_follows`: with the three operations a `SimpleActionServer` registers nothing is
    dropped, and the server takes the steps of `Actions.System`.

  A goal is numbered by its request. Whether `create_server` throws is up to the run.
-/

import Mathlib.Data.List.Nodup
import RttRos2.Actions.Slots

namespace RttRos2.Actions

open RttRos2.Lib

/-- The three requests a server hands on. -/
inductive Kind where
  | goal
  | cancel
  | accepted
  deriving DecidableEq, Repr

inductive GoalResponse where
  | reject
  | acceptAndExecute
  | acceptAndDefer
  deriving DecidableEq, Repr

inductive CancelResponse where
  | reject
  | accept
  deriving DecidableEq, Repr

/-- Operations and callbacks, with the signature that the operation callers expect. -/
structure Handlers where
  Operation : Type
  Callback : Type
  compatible : Kind → Operation → Bool

inductive Handler (H : Handlers) where
  | operation (op : H.Operation)
  | callback (f : H.Callback)

/-- An `RTTActionServer`, with nodes in `ν`. -/
structure RTTActionServer (H : Handlers) (ν : Type) where
  name : String
  node : Option ν
  /-- The `rclcpp_action::Server`: its node and its action name. -/
  server : Option (ν × String)
  /-- The operation callers; `none` when not `ready()`. -/
  operation : Kind → Option H.Operation
  callback : Kind → Option H.Callback

namespace RTTActionServer

variable {H : Handlers} {ν : Type}

def create (name : String) : RTTActionServer H ν := ⟨name, none, none, fun _ => none, fun _ => none⟩

/-! ## Registration -/

def registerOperation (s : RTTActionServer H ν) (k : Kind) (operation : Option H.Operation) :
    Bool × RTTActionServer H ν :=
  match operation with
  | none => (false, s)
  | some op =>
    -- the caller is replaced before it is found not to be ready
    if H.compatible k op then (true, { s with operation := Function.update s.operation k (some op) })
    else (false, { s with operation := Function.update s.operation k none })

def registerGoalOperation (s : RTTActionServer H ν) (operation : Option H.Operation) : Bool × RTTActionServer H ν :=
  s.registerOperation .goal operation

def registerCancelOperation (s : RTTActionServer H ν) (operation : Option H.Operation) : Bool × RTTActionServer H ν :=
  s.registerOperation .cancel operation

def registerAcceptedOperation (s : RTTActionServer H ν) (operation : Option H.Operation) :
    Bool × RTTActionServer H ν :=
  s.registerOperation .accepted operation

def registerCallback (s : RTTActionServer H ν) (k : Kind) (callback : Option H.Callback) : RTTActionServer H ν :=
  { s with callback := Function.update s.callback k callback }

def registerGoalCallback (s : RTTActionServer H ν) (callback : Option H.Callback) : RTTActionServer H ν :=
  s.registerCallback .goal callback

def registerCancelCallback (s : RTTActionServer H ν) (callback : Option H.Callback) : RTTActionServer H ν :=
  s.registerCallback .cancel callback

def registerAcceptedCallback (s : RTTActionServer H ν) (callback : Option H.Callback) : RTTActionServer H ν :=
  s.registerCallback .accepted callback

/-! ## Connection -/

/-- `node` is `rtt_ros2_node::getNode(owner)`; `created` is false when `create_server` throws. -/
def connect (s : RTTActionServer H ν) (node : Option ν) (actionName : String) (created : Bool) :
    Bool × RTTActionServer H ν :=
  match node with
  | none => (false, { s with node := none })
  | some n =>
    if created then
      (true, { s with node := some n, server := some (n, if actionName = "" then s.name else actionName) })
    else (false, { s with node := none, server := none })

def connected (s : RTTActionServer H ν) : Bool := s.server.isSome

def shutdown (s : RTTActionServer H ν) : RTTActionServer H ν := { s with node := none, server := none }

/-! ## Requests -/

/-- `answer` is what a handler returns. -/
def handleGoal (s : RTTActionServer H ν) (answer : Handler H → GoalResponse) : GoalResponse :=
  match s.callback .goal with
  | some f => answer (.callback f)
  | none =>
    match s.operation .goal with
    | some op => answer (.operation op)
    | none =>
      if (s.callback .accepted).isSome || (s.operation .accepted).isSome then .acceptAndExecute else .reject

def handleCancel (s : RTTActionServer H ν) (answer : Handler H → CancelResponse) : CancelResponse :=
  match s.callback .cancel with
  | some f => answer (.callback f)
  | none =>
    match s.operation .cancel with
    | some op => answer (.operation op)
    | none => .reject

/-- Whom the goal goes to. -/
def handleAccepted (s : RTTActionServer H ν) : Option (Handler H) :=
  match s.callback .accepted with
  | some f => some (.callback f)
  | none =>
    match s.operation .accepted with
    | some op => some (.operation op)
    | none => none

/-- The handler in effect. -/
def handler (s : RTTActionServer H ν) (k : Kind) : Option (Handler H) :=
  match s.callback k with
  | some f => some (.callback f)
  | none => (s.operation k).map .operation

theorem handleGoal_eq (s : RTTActionServer H ν) (answer : Handler H → GoalResponse) :
    s.handleGoal answer = match s.handler .goal with
      | some h => answer h
      | none => if (s.handler .accepted).isSome then .acceptAndExecute else .reject := by
  unfold handleGoal handler
  cases s.callback .goal with
  | some f => rfl
  | none =>
    cases s.operation .goal with
    | some op => rfl
    | none => cases s.callback .accepted <;> simp

theorem handleCancel_eq (s : RTTActionServer H ν) (answer : Handler H → CancelResponse) :
    s.handleCancel answer = ((s.handler .cancel).map answer).getD .reject := by
  unfold handleCancel handler
  cases s.callback .cancel <;> cases s.operation .cancel <;> rfl

theorem handleAccepted_eq (s : RTTActionServer H ν) : s.handleAccepted = s.handler .accepted := by
  unfold handleAccepted handler
  cases s.callback .accepted <;> cases s.operation .accepted <;> rfl

end RTTActionServer

/-! ## Runs -/

/-- A server and the goals it was asked for, numbered by their requests. -/
structure Serving (H : Handlers) (ν : Type) where
  server : RTTActionServer H ν
  requests : Nat
  /-- Each goal accepted, and whether no goal handler was asked. -/
  accepted : List (Nat × Bool)
  /-- Accepted, with `handleAccepted` still to come. -/
  accepting : List Nat
  handed : List (Nat × Handler H)
  /-- With nobody to hand the goal to. -/
  dropped : List Nat

namespace Serving

variable {H : Handlers} {ν : Type}

inductive Ev (H : Handlers) (ν : Type) where
  | registerOperation (k : Kind) (operation : Option H.Operation)
  | registerCallback (k : Kind) (callback : Option H.Callback)
  | connect (node : Option ν) (actionName : String) (created : Bool)
  | shutdown
  /-- A goal request, and what a handler answers to it. -/
  | handleGoal (answer : Handler H → GoalResponse)
  | handleAccepted (g : Nat)

def init (server : RTTActionServer H ν) : Serving H ν := ⟨server, 0, [], [], [], []⟩

def step (r : Serving H ν) : Ev H ν → Option (Serving H ν)
  | .registerOperation k operation => some { r with server := (r.server.registerOperation k operation).2 }
  | .registerCallback k callback => some { r with server := r.server.registerCallback k callback }
  | .connect node actionName created => some { r with server := (r.server.connect node actionName created).2 }
  | .shutdown => some { r with server := r.server.shutdown }
  | .handleGoal answer =>
    if r.server.connected then
      if r.server.handleGoal answer = .reject then some { r with requests := r.requests + 1 }
      else some { r with
        requests := r.requests + 1
        accepted := r.accepted ++ [(r.requests, (r.server.handler .goal).isNone)]
        accepting := r.accepting ++ [r.requests] }
    else none
  | .handleAccepted g =>
    if g ∈ r.accepting then
      match r.server.handleAccepted with
      | some h => some { r with accepting := r.accepting.erase g, handed := r.handed ++ [(g, h)] }
      | none => some { r with accepting := r.accepting.erase g, dropped := r.dropped ++ [g] }
    else none

/-! ## The handler in effect -/

def Ev.operation? (k : Kind) : Ev H ν → Option H.Operation
  | .registerOperation k' (some op) => if k' = k then some op else none
  | _ => none

def Ev.callback? (k : Kind) : Ev H ν → Option (Option H.Callback)
  | .registerCallback k' callback => if k' = k then some callback else none
  | _ => none

/-- The operation registered last, unless that was refused. -/
def lastOperation (k : Kind) (es : List (Ev H ν)) : Option H.Operation :=
  (es.reverse.findSome? (Ev.operation? k)).filter (H.compatible k)

def lastCallback (k : Kind) (es : List (Ev H ν)) : Option H.Callback :=
  (es.reverse.findSome? (Ev.callback? k)).join

def latest (k : Kind) (es : List (Ev H ν)) : Option (Handler H) :=
  match lastCallback k es with
  | some f => some (.callback f)
  | none => (lastOperation k es).map .operation

variable {r t : Serving H ν} {e : Ev H ν} {es : List (Ev H ν)} {k : Kind} {name : String} {g : Nat}

/-- What a step does to the server. -/
theorem step_server (h : step r e = some t) : t.server = match e with
    | .registerOperation k operation => (r.server.registerOperation k operation).2
    | .registerCallback k callback => r.server.registerCallback k callback
    | .connect node actionName created => (r.server.connect node actionName created).2
    | .shutdown => r.server.shutdown
    | .handleGoal _ | .handleAccepted _ => r.server := by
  cases e with
  | registerOperation | registerCallback | connect | shutdown => cases h; rfl
  | handleGoal answer =>
    simp only [step] at h
    split at h
    · split at h <;> cases h <;> rfl
    · cases h
  | handleAccepted g =>
    simp only [step] at h
    split at h
    · split at h <;> cases h <;> rfl
    · cases h

theorem connect_handlers (s : RTTActionServer H ν) (node : Option ν) (actionName : String) (created : Bool) :
    (s.connect node actionName created).2.operation = s.operation ∧
      (s.connect node actionName created).2.callback = s.callback := by
  unfold RTTActionServer.connect
  cases node <;> cases created <;> exact ⟨rfl, rfl⟩

theorem step_callback (h : step r e = some t) (k : Kind) :
    t.server.callback k = (e.callback? k).getD (r.server.callback k) := by
  rw [step_server h]
  cases e with
  | registerOperation k' operation =>
    cases operation with
    | none => rfl
    | some op =>
      show (r.server.registerOperation k' (some op)).2.callback k = r.server.callback k
      unfold RTTActionServer.registerOperation
      simp only
      split <;> rfl
  | registerCallback k' callback =>
    simp only [RTTActionServer.registerCallback, Function.update_apply, Ev.callback?, @eq_comm _ k]
    split <;> rfl
  | connect node actionName created => exact congrFun (connect_handlers ..).2 k
  | shutdown | handleGoal | handleAccepted => rfl

theorem step_operation (h : step r e = some t) (k : Kind) :
    t.server.operation k =
      ((e.operation? k).map fun op => (some op).filter (H.compatible k)).getD (r.server.operation k) := by
  rw [step_server h]
  cases e with
  | registerOperation k' operation =>
    cases operation with
    | none => rfl
    | some op =>
      simp only [RTTActionServer.registerOperation, Ev.operation?]
      by_cases hk : k' = k
      · subst hk
        cases hc : H.compatible k' op <;> simp [Option.filter, hc]
      · have hk' : k ≠ k' := fun hh => hk hh.symm
        cases H.compatible k' op <;> simp [hk, hk']
  | connect node actionName created => exact congrFun (connect_handlers ..).1 k
  | registerCallback | shutdown | handleGoal | handleAccepted => rfl

/-- From any state: what was registered since, or else what was there. -/
theorem run_registered (h : run step Always r es = some t) (k : Kind) :
    t.server.callback k = (es.reverse.findSome? (Ev.callback? k)).getD (r.server.callback k) ∧
      t.server.operation k = ((es.reverse.findSome? (Ev.operation? k)).map fun op =>
        (some op).filter (H.compatible k)).getD (r.server.operation k) := by
  induction es generalizing r with
  | nil => cases h; exact ⟨rfl, rfl⟩
  | cons e es ih =>
    simp only [run, if_pos (show Always r e from trivial)] at h
    obtain ⟨u, hu, h⟩ := Option.bind_eq_some_iff.mp h
    obtain ⟨hc, ho⟩ := ih h
    rw [hc, ho, step_callback hu, step_operation hu, List.reverse_cons, List.findSome?_append, List.findSome?_append]
    constructor
    · cases es.reverse.findSome? (Ev.callback? k) <;> simp
    · cases es.reverse.findSome? (Ev.operation? k) <;> simp

/-- What a server does after the events. -/
structure Latest (server : RTTActionServer H ν) (es : List (Ev H ν)) : Prop where
  handler : ∀ k, server.handler k = latest k es
  goal : ∀ answer, server.handleGoal answer = match latest .goal es with
    | some h => answer h
    | none => if (latest .accepted es).isSome then .acceptAndExecute else .reject
  cancel : ∀ answer, server.handleCancel answer = ((latest .cancel es).map answer).getD .reject
  accepted : server.handleAccepted = latest .accepted es

theorem handlers_latest (name : String) (es : List (Ev H ν)) (r : Serving H ν)
    (h : run step Always (init (.create name)) es = some r) : Latest r.server es := by
  have hhandler : ∀ k, r.server.handler k = latest k es := by
    intro k
    obtain ⟨hc, ho⟩ := run_registered h k
    have hc' : r.server.callback k = lastCallback k es := by
      rw [hc, lastCallback]
      cases es.reverse.findSome? (Ev.callback? k) <;> rfl
    have ho' : r.server.operation k = lastOperation k es := by
      rw [ho, lastOperation]
      cases es.reverse.findSome? (Ev.operation? k) <;> rfl
    unfold RTTActionServer.handler latest
    rw [hc', ho']
  refine ⟨hhandler, fun answer => ?_, fun answer => ?_, ?_⟩
  · rw [RTTActionServer.handleGoal_eq, hhandler, hhandler]
  · rw [RTTActionServer.handleCancel_eq, hhandler]
  · rw [RTTActionServer.handleAccepted_eq, hhandler]

/-- Every operation fits but 0. -/
abbrev exceptZero : Handlers := ⟨Nat, Nat, fun _ op => op ≠ 0⟩

/-- Operation 0 is refused, and takes operation 1 away; callback 7 stays in effect. -/
def refused : List (Ev exceptZero Unit) :=
  [.registerOperation .accepted (some 1), .registerCallback .goal (some 7), .registerOperation .goal (some 2),
    .registerOperation .accepted (some 0)]

theorem handlers_latest_refused :
    ∃ r, run step Always (init (.create "server")) refused = some r ∧ Latest r.server refused ∧
      r.server.handler .accepted = none ∧ r.server.handler .goal = some (.callback 7) :=
  ⟨_, rfl, handlers_latest "server" refused _ rfl, rfl, rfl⟩

/-! ## The goals accepted -/

/-- What a step that answers a goal request, or hands a goal on, does. -/
theorem step_cases (h : step r e = some t) :
    (∃ b, r.server.connected = true ∧ t.accepted = r.accepted ++ [(r.requests, b)] ∧
      t.accepting = r.accepting ++ [r.requests] ∧ t.handed = r.handed ∧ t.dropped = r.dropped ∧
      t.requests = r.requests + 1 ∧ t.server = r.server ∧ (b = true → (r.server.handler .accepted).isSome = true)) ∨
    (∃ g x, e = .handleAccepted g ∧ g ∈ r.accepting ∧ r.server.handler .accepted = some x ∧
      t = { r with accepting := r.accepting.erase g, handed := r.handed ++ [(g, x)] }) ∨
    (∃ g, e = .handleAccepted g ∧ g ∈ r.accepting ∧ r.server.handler .accepted = none ∧
      t = { r with accepting := r.accepting.erase g, dropped := r.dropped ++ [g] }) ∨
    (t.accepted = r.accepted ∧ t.accepting = r.accepting ∧ t.handed = r.handed ∧ t.dropped = r.dropped ∧
      r.requests ≤ t.requests) := by
  cases e with
  | registerOperation | registerCallback | connect | shutdown =>
    cases h
    exact Or.inr (Or.inr (Or.inr ⟨rfl, rfl, rfl, rfl, Nat.le_refl _⟩))
  | handleGoal answer =>
    simp only [step] at h
    split at h
    · rename_i hc
      split at h
      · cases h
        exact Or.inr (Or.inr (Or.inr ⟨rfl, rfl, rfl, rfl, Nat.le_succ _⟩))
      · rename_i hr
        cases h
        refine Or.inl ⟨_, hc, rfl, rfl, rfl, rfl, rfl, rfl, fun hb => ?_⟩
        -- accepted with nobody asked, so there is an accepted handler
        rw [RTTActionServer.handleGoal_eq, Option.isNone_iff_eq_none.mp hb] at hr
        by_contra hn
        rw [if_neg hn] at hr
        exact hr rfl
    · cases h
  | handleAccepted g =>
    simp only [step] at h
    split at h
    · rename_i hg
      rw [RTTActionServer.handleAccepted_eq] at h
      split at h <;> cases h
      · rename_i x hx
        exact Or.inr (Or.inl ⟨g, x, rfl, hg, hx, rfl⟩)
      · rename_i hx
        exact Or.inr (Or.inr (Or.inl ⟨g, rfl, hg, hx, rfl⟩))
    · cases h

/-- Every accepted goal, once. -/
structure Accounted (r : Serving H ν) : Prop where
  perm : (r.accepting ++ r.handed.map Prod.fst ++ r.dropped).Perm (r.accepted.map Prod.fst)
  nodup : (r.accepted.map Prod.fst).Nodup
  below : ∀ g ∈ r.accepted.map Prod.fst, g < r.requests

/-- A goal leaves `accepting` for one of the other lists. -/
theorem erase_perm {l : List Nat} (hg : g ∈ l) (m k : List Nat) : ((l.erase g ++ m) ++ g :: k).Perm (l ++ m ++ k) :=
  List.perm_middle.trans (((List.perm_cons_erase hg).symm.append_right m).append_right k)

theorem step_accounted (hr : Accounted r) (h : step r e = some t) : Accounted t := by
  rcases step_cases h with ⟨b, -, ha, hacc, hh, hd, hn, -, -⟩ | ⟨g, x, -, hg, -, rfl⟩ | ⟨g, -, hg, -, rfl⟩ |
    ⟨ha, hacc, hh, hd, hn⟩
  · -- the new goal is numbered above all the others
    have hfresh : r.requests ∉ r.accepted.map Prod.fst := fun hm => Nat.lt_irrefl _ (hr.below _ hm)
    refine ⟨?_, ?_, ?_⟩
    · have hp : (r.accepting ++ r.requests :: (r.handed.map Prod.fst ++ r.dropped)).Perm
          (r.requests :: (r.accepting ++ (r.handed.map Prod.fst ++ r.dropped))) := List.perm_middle
      rw [ha, hacc, hh, hd, List.map_append, List.append_assoc, List.append_assoc]
      refine hp.trans ?_
      rw [← List.append_assoc]
      exact (hr.perm.cons _).trans (List.perm_append_singleton _ _).symm
    · rw [ha, List.map_append]
      exact List.nodup_append'.mpr ⟨hr.nodup, List.nodup_singleton _, by simpa using hfresh⟩
    · intro g hg
      rw [ha, List.map_append, List.mem_append] at hg
      rw [hn]
      rcases hg with hg | hg
      · exact Nat.lt_succ_of_lt (hr.below g hg)
      · exact List.mem_singleton.mp hg ▸ Nat.lt_succ_self _
  · refine ⟨?_, hr.nodup, hr.below⟩
    have hp := (erase_perm hg (r.handed.map Prod.fst) r.dropped).trans hr.perm
    simpa using hp
  · refine ⟨?_, hr.nodup, hr.below⟩
    have hp := (erase_perm hg (r.handed.map Prod.fst ++ r.dropped) []).trans
      (by simpa using hr.perm)
    simpa using hp
  · refine ⟨?_, ha ▸ hr.nodup, fun g hg => Nat.lt_of_lt_of_le (hr.below g (ha ▸ hg)) hn⟩
    rw [ha, hacc, hh, hd]
    exact hr.perm

/-- The step takes the accepted handler away. -/
def Withdraws (s : RTTActionServer H ν) : Ev H ν → Prop
  | .registerOperation .accepted (some op) =>
    H.compatible .accepted op = false ∧ s.callback .accepted = none ∧ s.operation .accepted ≠ none
  | .registerCallback .accepted none => s.callback .accepted ≠ none ∧ s.operation .accepted = none
  | _ => False

/-- Nobody takes the accepted handler away. -/
def Stays (r : Serving H ν) (e : Ev H ν) : Prop := ¬ Withdraws r.server e

theorem withdraws_iff (h : step r e = some t) : Withdraws r.server e ↔
    (r.server.handler .accepted).isSome = true ∧ t.server.handler .accepted = none := by
  unfold RTTActionServer.handler
  rw [step_callback h, step_operation h]
  unfold Withdraws
  generalize r.server.callback .accepted = c
  generalize r.server.operation .accepted = o
  cases e with
  | registerOperation k operation =>
    cases operation with
    | none => cases c <;> cases o <;> simp [Ev.callback?, Ev.operation?]
    | some op =>
      cases k with
      | accepted =>
        cases hop : H.compatible .accepted op <;> cases c <;> cases o <;>
          simp [Ev.callback?, Ev.operation?, Option.filter, hop]
      | goal | cancel => cases c <;> cases o <;> simp [Ev.callback?, Ev.operation?]
  | registerCallback k callback =>
    cases k with
    | accepted => cases callback <;> cases c <;> cases o <;> simp [Ev.callback?, Ev.operation?]
    | goal | cancel => cases c <;> cases o <;> simp [Ev.callback?, Ev.operation?]
  | connect | shutdown | handleGoal | handleAccepted =>
    cases c <;> cases o <;> simp [Ev.callback?, Ev.operation?]

/-- While the accepted handler stays, whoever was promised it gets it. -/
structure Promised (r : Serving H ν) : Prop where
  somebody : ∀ g, (g, true) ∈ r.accepted → (r.server.handler .accepted).isSome = true
  dropped : ∀ g, (g, true) ∈ r.accepted → g ∉ r.dropped

theorem step_promised (ha : Accounted r) (hp : Promised r) (he : Stays r e) (h : step r e = some t) :
    Promised t := by
  have hstays : (r.server.handler .accepted).isSome = true → (t.server.handler .accepted).isSome = true := by
    intro hs
    by_contra hn
    exact he ((withdraws_iff h).mpr ⟨hs, by simpa using hn⟩)
  rcases step_cases h with ⟨b, -, hacc, -, -, hd, -, hs, hb⟩ | ⟨g, x, -, -, -, rfl⟩ | ⟨g, -, -, hn, rfl⟩ |
    ⟨hacc, -, -, hd, -⟩
  · constructor
    · intro g hg
      rw [hacc, List.mem_append, List.mem_singleton] at hg
      rw [hs]
      rcases hg with hg | hg
      · exact hp.somebody g hg
      · exact hb (Prod.mk.inj hg).2.symm
    · intro g hg
      rw [hacc, List.mem_append, List.mem_singleton] at hg
      rw [hd]
      rcases hg with hg | hg
      · exact hp.dropped g hg
      · rw [(Prod.mk.inj hg).1]
        intro hm
        exact Nat.lt_irrefl _ (ha.below _ (ha.perm.subset (List.mem_append_right _ hm)))
  · exact ⟨hp.somebody, hp.dropped⟩
  · -- nobody to hand it to, so no goal was accepted by default
    have hnone : ∀ g, (g, true) ∉ r.accepted := by
      intro g hg
      have hsome := hp.somebody g hg
      rw [hn] at hsome
      cases hsome
    exact ⟨fun g hg => absurd hg (hnone g), fun g hg => absurd hg (hnone g)⟩
  · exact ⟨fun g hg => hstays (hp.somebody g (hacc ▸ hg)), fun g hg => hd ▸ hp.dropped g (hacc ▸ hg)⟩

theorem init_accounted (server : RTTActionServer H ν) : Accounted (init server) :=
  ⟨List.Perm.refl _, List.nodup_nil, fun _ hg => absurd hg List.not_mem_nil⟩

theorem accepted_accounted (server : RTTActionServer H ν) (r : Serving H ν) (h : Path step Always (init server) r) :
    Accounted r ∧ (Path step Stays (init server) r → ∀ g, (g, true) ∈ r.accepted → g ∉ r.dropped) := by
  refine ⟨h.invariant (init_accounted server) fun _ _ _ hr _ h => step_accounted hr h, fun hstays => ?_⟩
  have hboth : Accounted r ∧ Promised r := hstays.invariant (P := fun r => Accounted r ∧ Promised r)
    ⟨init_accounted server, ⟨fun _ hg => absurd hg List.not_mem_nil, fun _ hg => absurd hg List.not_mem_nil⟩⟩
    fun _ _ _ hr he h => ⟨step_accounted hr.1 h, step_promised hr.1 hr.2 he h⟩
  exact hboth.2.dropped

/-- Two goals are accepted by default, and handed on in the other order. -/
theorem accepted_accounted_two :
    ∃ r : Serving exceptZero Unit, Accounted r ∧ r.accepted = [(0, true), (1, true)] ∧
      (∀ g, (g, true) ∈ r.accepted → g ∉ r.dropped) ∧ r.handed = [(1, .operation 3), (0, .operation 3)] := by
  have hstays : ∃ r : Serving exceptZero Unit, Path step Stays (init (.create "server")) r ∧
      r.accepted = [(0, true), (1, true)] ∧ r.handed = [(1, .operation 3), (0, .operation 3)] :=
    ⟨_, .step (.handleAccepted 0) (.step (.handleAccepted 1) (.step (.handleGoal fun _ => .reject)
      (.step (.handleGoal fun _ => .reject) (.step (.connect (some ()) "" true)
        (.step (.registerOperation .accepted (some 3)) .refl (fun h => Bool.noConfusion h.1) rfl)
        id rfl) id rfl) id rfl) id rfl) id rfl, rfl, rfl⟩
  obtain ⟨r, hr, ha, hh⟩ := hstays
  have h := accepted_accounted _ r (hr.mono fun _ _ _ => trivial)
  exact ⟨r, h.1, ha, h.2 hr, hh⟩

end Serving

/-! ## With the operations of a `SimpleActionServer` -/

inductive SimpleOperation where
  | goalCallback
  | cancelCallback
  | acceptedCallback
  deriving DecidableEq, Repr

def SimpleOperation.kind : SimpleOperation → Kind
  | goalCallback => .goal
  | cancelCallback => .cancel
  | acceptedCallback => .accepted

/-- The operations of its sub-service. Nobody else registers with its server. -/
def simpleHandlers : Handlers := ⟨SimpleOperation, PEmpty, fun k op => op.kind = k⟩

/-- What its constructor registers. -/
def simpleServer (name : String) : RTTActionServer simpleHandlers Unit :=
  let s := RTTActionServer.create name
  let s := (s.registerGoalOperation (some SimpleOperation.goalCallback)).2
  let s := (s.registerCancelOperation (some SimpleOperation.cancelCallback)).2
  (s.registerAcceptedOperation (some SimpleOperation.acceptedCallback)).2

/-- `goalCallback` -/
def deferAll (_ : Handler simpleHandlers) : GoalResponse := .acceptAndDefer

/-- The server, with the goals it has accepted, in a state of `Actions.System`. The `n`-th
    goal handed on is the system's goal `n`. -/
structure Follows (r : Serving simpleHandlers Unit) (s : Sys A) : Prop where
  connected : r.server.connected = s.st.connected
  accepting : r.accepting.length = s.accepting
  arrived : r.handed.length = s.st.arrived
  handed : ∀ x ∈ r.handed, x.2 = .operation SimpleOperation.acceptedCallback
  dropped : r.dropped = []
  /-- `node()` is the node of the server, or null with it. -/
  node : r.server.node = r.server.server.map Prod.fst
  goal : r.server.handler .goal = some (.operation SimpleOperation.goalCallback)
  acceptedHandler : r.server.handler .accepted = some (.operation SimpleOperation.acceptedCallback)

variable {A : ActionT} {r : Serving simpleHandlers Unit} {s t : Sys A}

theorem Follows.of_eq (h : Follows r s) (hc : t.st.connected = s.st.connected) (ha : t.accepting = s.accepting)
    (hn : t.st.arrived = s.st.arrived) : Follows r t :=
  ⟨hc ▸ h.connected, ha ▸ h.accepting, hn ▸ h.arrived, h.handed, h.dropped, h.node, h.goal, h.acceptedHandler⟩

theorem sem_connected (op : Op A) (c : Call A) (s : St A) :
    (sem op c s).2.connected = s.connected ∨ c = .shutdownServer ∧ (sem op c s).2.connected = false := by
  cases c with
  | shutdownServer => exact Or.inr ⟨rfl, rfl⟩
  | setActive g | setPending g => cases g <;> exact Or.inl rfl
  | execute q =>
    simp only [sem, St.execute]
    split
    · exact Or.inl rfl
    · split <;> exact Or.inl rfl
  | succeed q result | abort q result | canceled q result =>
    simp only [sem, St.terminate]
    split
    · exact Or.inl rfl
    · split <;> exact Or.inl rfl
  | _ => exact Or.inl rfl

/-- The next step of the system is one of the server's, or none of its business. -/
theorem step_follows {e : Ev A} (h : Follows r s) (he : step s e = some t) :
    Follows r t ∨ ∃ e' r', Serving.step r e' = some r' ∧ Follows r' t := by
  cases step_cases he with
  | accept hc =>
    have hconn : r.server.connected = true := h.connected.trans hc
    have hgoal : r.server.handleGoal deferAll = .acceptAndDefer := by
      rw [RTTActionServer.handleGoal_eq, h.goal]
      rfl
    refine Or.inr ⟨.handleGoal deferAll, _, by simp only [Serving.step, hconn, hgoal]; rfl, ?_⟩
    exact ⟨h.connected, by simp [h.accepting], h.arrived, h.handed, h.dropped, h.node, h.goal, h.acceptedHandler⟩
  | handleAccepted hne =>
    obtain ⟨g, hg⟩ : ∃ g, g ∈ r.accepting := by
      refine List.exists_mem_of_length_pos ?_
      rw [h.accepting]
      exact Nat.pos_of_ne_zero hne
    have hacc : r.server.handleAccepted = some (.operation SimpleOperation.acceptedCallback) := by
      rw [RTTActionServer.handleAccepted_eq, h.acceptedHandler]
    refine Or.inr ⟨.handleAccepted g, _, by simp only [Serving.step, if_pos hg, hacc]; rfl, ?_⟩
    refine ⟨h.connected, ?_, ?_, ?_, h.dropped, h.node, h.goal, h.acceptedHandler⟩
    · simp [List.length_erase_of_mem hg, h.accepting]
    · simp [St.arrive, h.arrived]
    · rw [List.forall_mem_append]
      exact ⟨h.handed, List.forall_mem_singleton.mpr rfl⟩
  | start created =>
    cases hc : s.st.connected with
    | true => exact Or.inl (h.of_eq (by simp [hc]) rfl rfl)
    | false =>
      -- `start` connects only when it is not connected
      cases created with
      | true =>
        refine Or.inr ⟨.connect (some ()) "" true, _, rfl, ?_⟩
        exact ⟨by simp [RTTActionServer.connect, RTTActionServer.connected], h.accepting, h.arrived, h.handed,
          h.dropped, rfl, h.goal, h.acceptedHandler⟩
      | false => exact Or.inl (h.of_eq (by simp [hc]) rfl rfl)
  | run op c k hcrit =>
    rcases sem_connected op c s.st with hsame | ⟨rfl, hoff⟩
    · exact Or.inl (h.of_eq hsame rfl (sem_queue op c s.st).2)
    · refine Or.inr ⟨.shutdown, _, rfl, ?_⟩
      exact ⟨rfl, h.accepting, h.arrived, h.handed, h.dropped, rfl, h.goal, h.acceptedHandler⟩
  | cancelGoal g hg =>
    have hc : (s.st.cancelGoal g).connected = s.st.connected := by
      unfold St.cancelGoal
      split <;> rfl
    exact Or.inl (h.of_eq hc rfl (cancelGoal_queue s.st g).2)
  | unlock op v hcrit =>
    have ha : (leave s op v).accepting = s.accepting := by
      unfold leave
      split <;> rfl
    exact Or.inl (h.of_eq (by rw [leave_st]) ha (by rw [leave_st]))
  | _ => exact Or.inl (h.of_eq rfl rfl rfl)

theorem simple_follows (name : String) (s : Sys A) (h : Path step Always Sys.init s) :
    ∃ r, Path Serving.step Always (Serving.init (simpleServer name)) r ∧ Follows r s := by
  induction h with
  | refl => exact ⟨_, .refl, ⟨rfl, rfl, rfl, by simp [Serving.init], rfl, rfl, rfl, rfl⟩⟩
  | step e _ _ he ih =>
    obtain ⟨r, hr, hf⟩ := ih
    rcases step_follows hf he with hf | ⟨e', r', he', hf⟩
    · exact ⟨r, hr, hf⟩
    · exact ⟨r', .step e' hr trivial he', hf⟩

/-- One goal is active, and another is about to be handed on. -/
theorem simple_follows_two :
    ∃ (s : Sys unitAction) (r : Serving simpleHandlers Unit), Follows r s ∧ s.st.active = some 0 ∧ s.accepting = 1 := by
  have h : ∃ s : Sys unitAction, run step Always Sys.init
      ([.start true] ++ arrival ++ handled 3 ++ called (.other 0) (.acceptPending ()) 8 ++ [.accept]) = some s ∧
      s.st.active = some 0 ∧ s.accepting = 1 := by
    refine ⟨_, rfl, ?_, ?_⟩ <;> rfl
  obtain ⟨s, hs, hactive, haccepting⟩ := h
  obtain ⟨r, -, hf⟩ := simple_follows "server" s (run_path _ hs)
  exact ⟨s, r, hf, hactive, haccepting⟩

end RttRos2.Actions
