/-
  RttRos2.Node.Service — which ROS node a component uses (rtt_ros2_node.cpp and
  rtt_ros2_node_service.cpp).

  Loading the plugin into a component adds to it a service of type `Node` with the name
  "rosnode"; the operations `create_*node*` add one to the global service "ros". To find
  the node of a component `getNodeService` looks at the component's service "Node", then at
  all of its services in the order of their names, and takes the process-wide node last.

  Anybody may add and remove services meanwhile, of any type and under any name. Over every
  run:
  - `nodes_resolved`: a component with node services of its own gets one of these, the first
    in that order, and no two components get the same node but for the process-wide one,
    which goes to those with none.
  - `own_node_kept`: the node a component has by loading the plugin is not replaced, by
    loading it again or by process-wide nodes, until services are removed from the component
    or node services added by hand.

  A node is made for one place (`Inv`); which one is found depends on the node services
  alone (`first_congr`).
-/

import Mathlib.Data.String.Basic

namespace RttRos2.Node

/-- A service: `rtt_ros2_node::Node`, as the number of its ROS node, or another type. -/
inductive Svc where
  | node (n : Nat)
  | other
  deriving DecidableEq, Repr

/-- `boost::dynamic_pointer_cast<Node>` -/
def Svc.asNode : Svc → Option Nat
  | .node n => some n
  | .other => none

/-- What a service provides: a `std::map`. -/
abbrev ServiceMap := Std.TreeMap String Svc

/-- The `rclcpp::Node` in a node service, with the owner of the service. -/
structure RosNode where
  name : String
  namespace_ : String
  owner : Option String
  deriving DecidableEq, Repr

structure Process where
  /-- `tc->provides()` -/
  components : String → ServiceMap
  /-- The service "ros" of the global service, when there is one. -/
  ros : Option ServiceMap
  /-- The ROS nodes, in the order of their creation. -/
  nodes : List RosNode

def start : Process := ⟨fun _ => ∅, none, []⟩

inductive Answer where
  | returned (b : Bool)
  | threw
  deriving DecidableEq, Repr

namespace Process

/-- Where services are: in a component, or in the global service "ros" (`none`). -/
def services (p : Process) (place : Option String) : ServiceMap :=
  match place with
  | none => p.ros.getD ∅
  | some c => p.components c

def setServices (p : Process) (place : Option String) (services : ServiceMap) : Process :=
  match place with
  | none => { p with ros := some services }
  | some c => { p with components := fun d => if d = c then services else p.components d }

/-- `addService` of a new node service. -/
def addNode (p : Process) (place : Option String) (name : String) (node : RosNode) : Process :=
  { p.setServices place ((p.services place).insert name (.node p.nodes.length)) with nodes := p.nodes ++ [node] }

/-! ## The plugin -/

def defaultNodeNameFromOwner (owner : Option String) (now : Nat) : String :=
  match owner with
  | some name => name
  | none => "rtt_" ++ toString now

/-- The constructor of `Node`; `accepts` tells whether that of `rclcpp::Node` returns. -/
def construct (accepts : RosNode → Bool) (nodeName namespace_ : String) (owner : Option String) (now : Nat) :
    Option RosNode :=
  let node := ⟨if nodeName ≠ "" then nodeName else defaultNodeNameFromOwner owner now, namespace_, owner⟩
  if accepts node then some node else none

/-- `provides("ros")` creates the service. -/
def provideRos (p : Process) : Process := { p with ros := some (p.ros.getD ∅) }

def createNamedNodeWithOptions (accepts : RosNode → Bool) (p : Process) (nodeName namespace_ : String) (now : Nat) :
    Answer × Process :=
  let p := p.provideRos
  if "rosnode" ∈ p.services none then (.returned false, p)
  else
    match construct accepts nodeName namespace_ none now with
    | none => (.threw, p)
    | some node => (.returned true, p.addNode none "rosnode" node)

def createNamedNode (accepts : RosNode → Bool) (p : Process) (nodeName : String) (now : Nat) : Answer × Process :=
  createNamedNodeWithOptions accepts p nodeName "" now

def createNode (accepts : RosNode → Bool) (p : Process) (now : Nat) : Answer × Process :=
  createNamedNodeWithOptions accepts p "" "" now

def loadROSServiceIntoTaskContext (accepts : RosNode → Bool) (p : Process) (tc : String) (now : Nat) :
    Answer × Process :=
  if "rosnode" ∈ p.components tc then (.returned false, p)
  else
    match construct accepts (defaultNodeNameFromOwner (some tc) now) "" (some tc) now with
    | none => (.threw, p)
    | some node => (.returned true, p.addNode (some tc) "rosnode" node)

/-- Without a component only the operations `create_*node*` are added. -/
def loadRTTPlugin (accepts : RosNode → Bool) (p : Process) (tc : Option String) (now : Nat) : Answer × Process :=
  match tc with
  | none => (.returned true, p.provideRos)
  | some tc => loadROSServiceIntoTaskContext accepts p tc now

/-- The search among the services of a component: by name, then by type. -/
def findNode (services : ServiceMap) : Option Nat :=
  match services["Node"]?.bind Svc.asNode with
  | some n => some n
  | none => services.keys.findSome? fun name => services[name]?.bind Svc.asNode

def getNodeService (p : Process) (tc : Option String) : Option Nat :=
  match tc.bind fun c => findNode (p.components c) with
  | some n => some n
  | none => p.ros.bind fun ros => ros["rosnode"]?.bind Svc.asNode

def getNode (p : Process) (tc : Option String) : Option RosNode := (getNodeService p tc).bind (p.nodes[·]?)

/-! ## Runs -/

inductive Ev where
  | load (tc : Option String) (now : Nat)
  | create (nodeName namespace_ : String) (now : Nat)
  /-- Somebody adds another service, or one of type `Node` made for the place. -/
  | addService (place : Option String) (name : String) (node : Option RosNode)
  | removeService (place : Option String) (name : String)
  deriving DecidableEq, Repr

def step (accepts : RosNode → Bool) (p : Process) : Ev → Process
  | .load tc now => (p.loadRTTPlugin accepts tc now).2
  | .create nodeName ns now => (p.createNamedNodeWithOptions accepts nodeName ns now).2
  | .addService place name node =>
    if name ∈ p.services place then p
    else
      match node with
      | none => p.setServices place ((p.services place).insert name .other)
      | some node => p.addNode place name { node with owner := place }
  | .removeService place name => p.setServices place ((p.services place).erase name)

def run (accepts : RosNode → Bool) (p : Process) (es : List Ev) : Process := es.foldl (step accepts) p

/-! ## The search -/

def Provides (services : ServiceMap) (name : String) (n : Nat) : Prop := services[name]? = some (.node n)

/-- Under some name. -/
def Has (services : ServiceMap) (n : Nat) : Prop := ∃ name, Provides services name n

/-- The name that comes first among those of node services. -/
def Least (services : ServiceMap) (name : String) (n : Nat) : Prop :=
  Provides services name n ∧ ∀ name' m, Provides services name' m → name ≤ name'

/-- The one the search comes to first. -/
def First (services : ServiceMap) (n : Nat) : Prop :=
  Provides services "Node" n ∨ (∀ m, ¬ Provides services "Node" m) ∧ ∃ name, Least services name n

variable {accepts : RosNode → Bool} {p q : Process} {place : Option String} {services services' : ServiceMap}
  {name : String} {n m : Nat}

theorem asNode_eq : services[name]?.bind Svc.asNode = some n ↔ Provides services name n := by
  unfold Provides
  rcases services[name]? with _ | _ | _ <;> simp [Svc.asNode]

theorem asNode_none : services[name]?.bind Svc.asNode = none ↔ ∀ m, ¬ Provides services name m := by
  unfold Provides
  rcases services[name]? with _ | _ | _ <;> simp [Svc.asNode]

theorem Provides.mem_keys (h : Provides services name n) : name ∈ services.keys := by
  rw [Std.TreeMap.mem_keys, Std.TreeMap.mem_iff_isSome_getElem?, h]
  rfl

/-- The names come in order, so the one found is the least. -/
theorem byType_spec : (services.keys.findSome? fun name => services[name]?.bind Svc.asNode) = some n ↔
    ∃ name, Least services name n := by
  have hsorted := Std.TreeMap.ordered_keys (t := services)
  rw [List.findSome?_eq_some_iff]
  constructor
  · rintro ⟨l₁, name, l₂, hl, hn, hbefore⟩
    refine ⟨name, asNode_eq.mp hn, fun name' m hm => ?_⟩
    have hmem := hm.mem_keys
    rw [hl, List.mem_append, List.mem_cons] at hmem
    rcases hmem with hmem | rfl | hmem
    · exact absurd hm (asNode_none.mp (hbefore name' hmem) m)
    · exact String.le_refl _
    · rw [hl, List.pairwise_append] at hsorted
      have hlt := (List.pairwise_cons.mp hsorted.2.1).1 name' hmem
      exact String.not_lt.mp (String.lt_asymm (compare_lt_iff_lt.mp hlt))
  · rintro ⟨name, hn, hleast⟩
    obtain ⟨l₁, l₂, hl⟩ := List.append_of_mem hn.mem_keys
    refine ⟨l₁, name, l₂, hl, asNode_eq.mpr hn, fun name' hmem => asNode_none.mpr fun m hm => ?_⟩
    rw [hl, List.pairwise_append] at hsorted
    have hlt := compare_lt_iff_lt.mp (hsorted.2.2 name' hmem name List.mem_cons_self)
    exact String.not_lt.mpr (hleast name' m hm) hlt

theorem findNode_spec : findNode services = some n ↔ First services n := by
  unfold findNode
  cases h : services["Node"]?.bind Svc.asNode with
  | some k =>
    have hk := asNode_eq.mp h
    constructor
    · rintro ⟨⟩
      exact Or.inl hk
    · rintro (hn | hn)
      · exact h.symm.trans (asNode_eq.mpr hn)
      · exact absurd hk (hn.1 k)
  | none =>
    have hk := asNode_none.mp h
    simp only [byType_spec]
    constructor
    · exact fun hn => Or.inr ⟨hk, hn⟩
    · rintro (hn | hn)
      · exact absurd hn (hk n)
      · exact hn.2

theorem First.has (h : First services n) : Has services n := by
  rcases h with h | ⟨-, name, h, -⟩
  · exact ⟨"Node", h⟩
  · exact ⟨name, h⟩

theorem findNode_none : findNode services = none ↔ ∀ n, ¬ Has services n := by
  constructor
  · rintro h n ⟨name, hn⟩
    unfold findNode at h
    split at h
    · cases h
    · exact asNode_none.mp (List.findSome?_eq_none_iff.mp h name hn.mem_keys) n hn
  · intro h
    cases hf : findNode services with
    | none => rfl
    | some n => exact absurd (findNode_spec.mp hf).has (h n)

/-- Which one comes first depends on the node services alone. -/
theorem first_congr (h : ∀ name n, Provides services name n ↔ Provides services' name n) :
    First services n ↔ First services' n := by
  simp only [First, Least, h]

/-! ## One step -/

@[simp] theorem services_setServices (p : Process) (place place' : Option String) (services : ServiceMap) :
    (p.setServices place services).services place' = if place' = place then services else p.services place' := by
  cases place <;> cases place' <;> simp [setServices, Process.services]

@[simp] theorem nodes_setServices (p : Process) (place : Option String) (services : ServiceMap) :
    (p.setServices place services).nodes = p.nodes := by
  cases place <;> rfl

@[simp] theorem services_provideRos (p : Process) (place : Option String) :
    p.provideRos.services place = p.services place := by
  cases place <;> rfl

theorem services_addNode (p : Process) (place place' : Option String) (name : String) (node : RosNode) :
    (p.addNode place name node).services place' =
      if place' = place then (p.services place).insert name (.node p.nodes.length) else p.services place' := by
  rw [← services_setServices]
  cases place' <;> rfl

theorem provides_erase {k : String} (h : Provides (services.erase k) name n) : Provides services name n := by
  unfold Provides at h
  rw [Std.TreeMap.getElem?_erase] at h
  split at h
  · cases h
  · exact h

theorem provides_insert {k : String} {svc : Svc} (hk : k ∉ services) :
    Provides (services.insert k svc) name n ↔ Provides services name n ∨ name = k ∧ svc = .node n := by
  unfold Provides
  rw [Std.TreeMap.getElem?_insert]
  by_cases hkn : compare k name = .eq
  · have hn : services[name]? = none := by
      rw [← Std.LawfulEqCmp.eq_of_compare hkn]
      exact Std.TreeMap.getElem?_eq_none hk
    have hkn' := Std.LawfulEqCmp.eq_of_compare hkn
    simp [hn, hkn']
  · have hne : name ≠ k := fun h => hkn (h ▸ Std.ReflCmp.compare_self)
    simp [hkn, hne]

/-- The step makes a node service. -/
def Makes (e : Ev) (place : Option String) (name : String) : Prop :=
  (∃ now, e = .load place now ∧ name = "rosnode") ∨
    (∃ nodeName ns now, e = .create nodeName ns now ∧ place = none ∧ name = "rosnode") ∨
    ∃ node, e = .addService place name (some node)

theorem construct_owner {nodeName ns : String} {owner : Option String} {now : Nat} {node : RosNode}
    (h : construct accepts nodeName ns owner now = some node) : node.owner = owner := by
  obtain ⟨-, h⟩ := Option.ite_none_right_eq_some.mp h
  rw [← Option.some.inj h]

/-- A step leaves the services alone, removes one, adds one of another type, or adds one of
    type `Node` with a new node. -/
theorem step_cases (accepts : RosNode → Bool) (p : Process) (e : Ev) :
    ((∀ place, (p.step accepts e).services place = p.services place) ∧ (p.step accepts e).nodes = p.nodes) ∨
    (∃ place name, e = .removeService place name ∧
      p.step accepts e = p.setServices place ((p.services place).erase name)) ∨
    (∃ place name, name ∉ p.services place ∧
      p.step accepts e = p.setServices place ((p.services place).insert name .other)) ∨
    ∃ place name node, name ∉ p.services place ∧ Makes e place name ∧ node.owner = place ∧
      (∀ place', (p.step accepts e).services place' = (p.addNode place name node).services place') ∧
      (p.step accepts e).nodes = p.nodes ++ [node] := by
  cases e with
  | load tc now =>
    cases tc with
    | none => exact Or.inl ⟨services_provideRos p, rfl⟩
    | some tc =>
      simp only [step, loadRTTPlugin, loadROSServiceIntoTaskContext]
      split
      · exact Or.inl ⟨fun _ => rfl, rfl⟩
      · rename_i hfree
        split
        · exact Or.inl ⟨fun _ => rfl, rfl⟩
        · rename_i node hnode
          have howner := construct_owner hnode
          refine Or.inr (Or.inr (Or.inr ⟨some tc, "rosnode", node, hfree, ?_, howner, fun _ => rfl, rfl⟩))
          exact Or.inl ⟨now, rfl, rfl⟩
  | create nodeName ns now =>
    simp only [step, createNamedNodeWithOptions, services_provideRos]
    split
    · exact Or.inl ⟨services_provideRos p, rfl⟩
    · rename_i hfree
      split
      · exact Or.inl ⟨services_provideRos p, rfl⟩
      · rename_i node hnode
        refine Or.inr (Or.inr (Or.inr ⟨none, "rosnode", node, hfree, ?_, construct_owner hnode, fun place' => ?_, rfl⟩))
        · exact Or.inr (Or.inl ⟨nodeName, ns, now, rfl, rfl, rfl⟩)
        · simp only [services_addNode, services_provideRos]
          rfl
  | addService place name node =>
    simp only [step]
    split
    · exact Or.inl ⟨fun _ => rfl, rfl⟩
    · rename_i hfree
      cases node with
      | none => exact Or.inr (Or.inr (Or.inl ⟨place, name, hfree, rfl⟩))
      | some node =>
        refine Or.inr (Or.inr (Or.inr ⟨place, name, { node with owner := place }, hfree, ?_, rfl, fun _ => rfl, rfl⟩))
        exact Or.inr (Or.inr ⟨node, rfl⟩)
  | removeService place name => exact Or.inr (Or.inl ⟨place, name, rfl, rfl⟩)

theorem step_nodes (accepts : RosNode → Bool) (p : Process) (e : Ev) : p.nodes <+: (p.step accepts e).nodes := by
  rcases step_cases accepts p e with ⟨-, hn⟩ | ⟨place, name, -, hq⟩ | ⟨place, name, -, hq⟩ |
    ⟨place, name, node, -, -, -, -, hn⟩
  · exact hn ▸ List.prefix_refl _
  · exact hq ▸ (nodes_setServices p place _).symm ▸ List.prefix_refl p.nodes
  · exact hq ▸ (nodes_setServices p place _).symm ▸ List.prefix_refl p.nodes
  · exact hn ▸ List.prefix_append _ _

/-! ## Whose node it is -/

/-- A node belongs to one service, in one place. -/
structure Inv (p : Process) : Prop where
  created : ∀ place name n, Provides (p.services place) name n → ∃ node, p.nodes[n]? = some node ∧ node.owner = place
  once : ∀ place place' name name' n, Provides (p.services place) name n → Provides (p.services place') name' n →
    place = place' ∧ name = name'

theorem start_inv : Inv start := by
  have hnone : ∀ place name n, ¬ Provides (start.services place) name n := by
    intro place name n h
    unfold Provides at h
    cases place <;> simp [start, Process.services] at h
  exact ⟨fun place name n h => absurd h (hnone place name n),
    fun place _ name _ n h => absurd h (hnone place name n)⟩

/-- Without new node services. -/
theorem Inv.of_le (hi : Inv p) (hn : q.nodes = p.nodes)
    (h : ∀ place name n, Provides (q.services place) name n → Provides (p.services place) name n) : Inv q where
  created place name n hp := by
    rw [hn]
    exact hi.created place name n (h place name n hp)
  once place place' name name' n hp hp' := hi.once place place' name name' n (h _ _ _ hp) (h _ _ _ hp')

theorem provides_addNode {node : RosNode} {place' : Option String} {name' : String}
    (hfree : name ∉ p.services place) :
    Provides ((p.addNode place name node).services place') name' n ↔
      Provides (p.services place') name' n ∨ place' = place ∧ name' = name ∧ n = p.nodes.length := by
  rw [services_addNode]
  split
  · rename_i hp
    subst hp
    rw [provides_insert hfree, Svc.node.injEq, eq_comm (a := n)]
    simp
  · rename_i hp
    simp [hp]

theorem Inv.lt (hi : Inv p) (h : Provides (p.services place) name n) : n < p.nodes.length := by
  obtain ⟨node, hn, -⟩ := hi.created place name n h
  exact (List.getElem?_eq_some_iff.mp hn).1

theorem Inv.addNode (hi : Inv p) {node : RosNode} (hfree : name ∉ p.services place) (ho : node.owner = place) :
    Inv (p.addNode place name node) := by
  have hnodes : (p.addNode place name node).nodes = p.nodes ++ [node] := rfl
  constructor
  · intro place' name' n h
    rw [hnodes]
    rcases (provides_addNode hfree).mp h with h | ⟨rfl, -, rfl⟩
    · obtain ⟨node', hn, ho'⟩ := hi.created place' name' n h
      exact ⟨node', by rw [List.getElem?_append_left (hi.lt h), hn], ho'⟩
    · exact ⟨node, List.getElem?_concat_length, ho⟩
  · intro place₁ place₂ name₁ name₂ n h₁ h₂
    rcases (provides_addNode hfree).mp h₁ with hp₁ | ⟨rfl, rfl, rfl⟩ <;>
      rcases (provides_addNode hfree).mp h₂ with hp₂ | ⟨rfl, rfl, hn⟩
    · exact hi.once _ _ _ _ n hp₁ hp₂
    · -- the new node is not among the old ones
      exact absurd (hi.lt hp₁) (hn ▸ Nat.lt_irrefl _)
    · exact absurd (hi.lt hp₂) (Nat.lt_irrefl _)
    · exact ⟨rfl, rfl⟩

theorem step_inv (hi : Inv p) (e : Ev) : Inv (p.step accepts e) := by
  rcases step_cases accepts p e with ⟨hs, hn⟩ | ⟨place, name, -, hq⟩ | ⟨place, name, hfree, hq⟩ |
    ⟨place, name, node, hfree, -, ho, hs, hn⟩
  · exact hi.of_le hn fun place name n h => hs place ▸ h
  · rw [hq]
    refine hi.of_le (nodes_setServices ..) fun place' name' n h => ?_
    rw [services_setServices] at h
    split at h
    · rename_i hp
      exact hp ▸ provides_erase h
    · exact h
  · rw [hq]
    refine hi.of_le (nodes_setServices ..) fun place' name' n h => ?_
    rw [services_setServices] at h
    split at h
    · rename_i hp
      rcases (provides_insert hfree).mp h with h | ⟨-, h⟩
      · exact hp ▸ h
      · cases h
    · exact h
  · have ha := hi.addNode hfree ho
    constructor
    · intro place' name' n h
      rw [hs] at h
      rw [hn]
      exact ha.created place' name' n h
    · intro place₁ place₂ name₁ name₂ n h₁ h₂
      rw [hs] at h₁ h₂
      exact ha.once _ _ _ _ n h₁ h₂

theorem run_inv (hi : Inv p) (es : List Ev) : Inv (p.run accepts es) := by
  induction es generalizing p with
  | nil => exact hi
  | cons e es ih => exact ih (step_inv hi e)

/-! ## The node of a component -/

theorem global_spec : p.getNodeService none = some n ↔ Provides (p.services none) "rosnode" n := by
  rw [← asNode_eq]
  cases h : p.ros with
  | none => simp [getNodeService, services, h]
  | some ros => simp [getNodeService, services, h]

theorem component_spec {c : String} : p.getNodeService (some c) = some n ↔
    First (p.services (some c)) n ∨ (∀ m, ¬ Has (p.services (some c)) m) ∧ p.getNodeService none = some n := by
  have hg : p.getNodeService (some c) = match findNode (p.services (some c)) with
    | some n => some n
    | none => p.getNodeService none := rfl
  rw [hg, ← findNode_none, ← findNode_spec]
  cases findNode (p.services (some c)) with
  | none => simp
  | some k => simp

/-- What `getNodeService` and `getNode` find. -/
structure Resolved (p : Process) : Prop where
  own : ∀ c n, Has (p.services (some c)) n →
    ∃ n, First (p.services (some c)) n ∧ p.getNodeService (some c) = some n
  shared : ∀ c, (∀ n, ¬ Has (p.services (some c)) n) → p.getNodeService (some c) = p.getNodeService none
  processWide : ∀ n, p.getNodeService none = some n ↔ Provides (p.services none) "rosnode" n
  /-- Only the process-wide node is used by two components, and neither has its own. -/
  apart : ∀ c d n, c ≠ d → p.getNodeService (some c) = some n → p.getNodeService (some d) = some n →
    p.getNodeService none = some n ∧ (∀ m, ¬ Has (p.services (some c)) m) ∧ ∀ m, ¬ Has (p.services (some d)) m
  alive : ∀ tc n, p.getNodeService tc = some n → ∃ node, p.getNode tc = some node ∧ p.nodes[n]? = some node

theorem Inv.resolved (hi : Inv p) : Resolved p := by
  refine ⟨?_, ?_, fun n => global_spec, ?_, ?_⟩
  · intro c n h
    cases hf : findNode (p.services (some c)) with
    | none => exact absurd h (findNode_none.mp hf n)
    | some m => exact ⟨m, findNode_spec.mp hf, component_spec.mpr (Or.inl (findNode_spec.mp hf))⟩
  · intro c h
    refine Option.ext fun n => ?_
    rw [component_spec]
    exact ⟨fun hn => hn.elim (fun hf => absurd hf.has (h n)) And.right, fun hn => Or.inr ⟨h, hn⟩⟩
  · intro c d n hne hc hd
    rcases component_spec.mp hc with hc | ⟨hc, hg⟩ <;> rcases component_spec.mp hd with hd | ⟨hd, hg'⟩
    · obtain ⟨name, hc⟩ := hc.has
      obtain ⟨name', hd⟩ := hd.has
      exact absurd (Option.some.inj (hi.once _ _ _ _ n hc hd).1) hne
    · obtain ⟨name, hc⟩ := hc.has
      cases (hi.once _ _ _ _ n hc (global_spec.mp hg')).1
    · obtain ⟨name, hd⟩ := hd.has
      cases (hi.once _ _ _ _ n hd (global_spec.mp hg)).1
    · exact ⟨hg, hc, hd⟩
  · intro tc n h
    have hlt : n < p.nodes.length := by
      cases tc with
      | none => exact hi.lt (global_spec.mp h)
      | some c =>
        rcases component_spec.mp h with h | ⟨-, h⟩
        · obtain ⟨name, h⟩ := h.has
          exact hi.lt h
        · exact hi.lt (global_spec.mp h)
    refine ⟨p.nodes[n], ?_, List.getElem?_eq_getElem hlt⟩
    simp [getNode, h, hlt]

theorem nodes_resolved (accepts : RosNode → Bool) (es : List Ev) : Resolved (start.run accepts es) :=
  (run_inv start_inv es).resolved

/-! ## Until somebody interferes -/

/-- Nobody removes services from the component, or adds a node service to it by hand. -/
def Keeps (c : String) : Ev → Prop
  | .removeService place _ => place ≠ some c
  | .addService place _ (some _) => place ≠ some c
  | _ => True

theorem step_kept (accepts : RosNode → Bool) {c : String} {e : Ev} (hrosnode : "rosnode" ∈ p.services (some c))
    (he : Keeps c e) :
    "rosnode" ∈ (p.step accepts e).services (some c) ∧
      ∀ name n, Provides ((p.step accepts e).services (some c)) name n ↔ Provides (p.services (some c)) name n := by
  rcases step_cases accepts p e with ⟨hs, -⟩ | ⟨place, name, rfl, hq⟩ | ⟨place, name, hfree, hq⟩ |
    ⟨place, name, node, hfree, hmakes, -, hs, -⟩
  · rw [hs]
    exact ⟨hrosnode, fun _ _ => Iff.rfl⟩
  · have hne : some c ≠ place := fun h => he h.symm
    rw [hq, services_setServices, if_neg hne]
    exact ⟨hrosnode, fun _ _ => Iff.rfl⟩
  · rw [hq, services_setServices]
    split
    · rename_i hp
      subst hp
      refine ⟨Std.TreeMap.mem_insert.mpr (Or.inr hrosnode), fun name' n => ?_⟩
      simp [provides_insert hfree]
    · exact ⟨hrosnode, fun _ _ => Iff.rfl⟩
  · have hne : some c ≠ place := by
      rintro rfl
      rcases hmakes with ⟨now, -, rfl⟩ | ⟨nodeName, ns, now, -, hp, -⟩ | ⟨node, rfl⟩
      · exact hfree hrosnode
      · cases hp
      · exact he rfl
    rw [hs, services_addNode, if_neg hne]
    exact ⟨hrosnode, fun _ _ => Iff.rfl⟩

theorem own_node_kept (accepts : RosNode → Bool) (p : Process) (c : String) (n : Nat) (es : List Ev)
    (hrosnode : "rosnode" ∈ p.services (some c)) (hn : First (p.services (some c)) n) (hes : ∀ e ∈ es, Keeps c e) :
    (p.run accepts es).getNodeService (some c) = some n ∧
      ∀ now, (p.run accepts es).loadRTTPlugin accepts (some c) now = (.returned false, p.run accepts es) := by
  induction es generalizing p with
  | nil => exact ⟨component_spec.mpr (Or.inl hn), fun now => if_pos hrosnode⟩
  | cons e es ih =>
    rw [List.forall_mem_cons] at hes
    obtain ⟨hr, hp⟩ := step_kept accepts hrosnode hes.1
    exact ih _ hr ((first_congr hp).mpr hn) hes.2

/-- The node service of a component that has no other service. -/
theorem first_rosnode (n : Nat) : First ((∅ : ServiceMap).insert "rosnode" (.node n)) n := by
  have hp : ∀ name m, Provides ((∅ : ServiceMap).insert "rosnode" (.node n)) name m → name = "rosnode" := by
    intro name m h
    rcases (provides_insert Std.TreeMap.not_mem_emptyc).mp h with h | ⟨hname, -⟩
    · simp [Provides] at h
    · exact hname
  refine Or.inr ⟨fun m h => absurd (hp _ _ h) (by decide), "rosnode", Std.TreeMap.getElem?_insert_self, ?_⟩
  intro name m h
  exact hp _ _ h ▸ String.le_refl _

/-- "arm" keeps its node, and "leg", which has lost its own, uses the process-wide one. -/
theorem own_node_kept_arm :
    let p := start.run (fun _ => true) [.load (some "arm") 0, .load (some "leg") 0]
    let q := p.run (fun _ => true) [.create "cell" "" 1, .removeService (some "leg") "rosnode",
      .addService (some "arm") "aux" none, .load (some "arm") 2]
    q.getNodeService (some "arm") = some 0 ∧ q.getNode (some "leg") = some ⟨"cell", "", none⟩ := by
  intro p q
  refine ⟨(own_node_kept _ p "arm" 0 _ Std.TreeMap.mem_insert_self (first_rosnode 0) ?_).1, rfl⟩
  simp [Keeps]

end Process

end RttRos2.Node
