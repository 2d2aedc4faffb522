/-
  RttRos2.Services.Service — `RosServiceService` (rtt_ros2_services_plugin.cpp): the
  operations `connect`, `disconnect` and `disconnectAll`, over the maps of proxies by ROS
  service name.

  An owner's operations are found by a name such as "a.b.operation" in the tree of the
  services it provides, its callers in the tree of those it requires. The trees are RTT's;
  here they are what a lookup finds in them (`Interface`), as is the registry of service
  types. How rcpputils splits the name is a parameter as well.
-/

import RttRos2.Lib.Path
import RttRos2.Services.Proxy

namespace RttRos2.Services

/-- A tree of services. `sub`: the service of that name, if there is one. -/
structure Interface (O : Type) where
  Node : Type
  root : Node
  sub : Node → String → Option Node
  get : Node → String → Option O

/-- The way along the tokens of a URI. -/
def Interface.walk {O : Type} (i : Interface O) : i.Node → List String → Option O
  | _, [] => none
  | n, [name] => i.get n name
  | n, token :: rest => (i.sub n token).bind fun m => i.walk m rest

structure Env (Sig : Type) where
  registry : String → Option (ServiceT Sig)
  /-- `rcpputils::split(uri, '.', kSkipEmpty)` -/
  split : String → List String
  callers : Interface (Caller Sig)
  operations : Interface (Operation Sig)
  validName : String → Bool

namespace Env

variable {Sig : Type}

def getOwnerOperationCaller (env : Env Sig) (uri : String) : Option (Caller Sig) :=
  env.callers.walk env.callers.root (env.split uri)

def getOwnerOperation (env : Env Sig) (uri : String) : Option (Operation Sig) :=
  env.operations.walk env.operations.root (env.split uri)

end Env

structure St (Sig : Type) where
  /-- The owner has a ROS node. -/
  node : Bool
  servers : String → Option (ServerProxy Sig)
  clients : String → Option (ClientProxy Sig)
  /-- The proxy each operation caller is bound to. -/
  bound : Nat → Option Nat
  /-- The identity of the next client proxy. -/
  next : Nat
  /-- Requests so far: the service, and the operation each was dispatched to. -/
  dispatched : List (String × Option (Operation Sig))

inductive Ev where
  | connect (operation name type : String)
  | disconnect (name : String)
  | disconnectAll
  | request (name : String)
  | node (present : Bool)
  deriving DecidableEq, Repr

variable {Sig : Type} [DecidableEq Sig]

def init : St Sig := ⟨false, fun _ => none, fun _ => none, fun _ => none, 0, []⟩

/-- The server proxy stored for the name, or a new one. -/
def St.serverProxy (s : St Sig) (name : String) (type : ServiceT Sig) : ServerProxy Sig :=
  (s.servers name).getD (.create type)

def St.clientProxy (s : St Sig) (name : String) (type : ServiceT Sig) : ClientProxy Sig :=
  (s.clients name).getD (.create s.next type)

def connectServer (env : Env Sig) (s : St Sig) (name : String) (type : ServiceT Sig) (operation : Operation Sig) :
    Result × St Sig :=
  let (r, p) := (s.serverProxy name type).connect s.node (env.validName name) operation
  (r, { s with servers := Function.update s.servers name (some p) })

def connectClient (env : Env Sig) (s : St Sig) (name : String) (type : ServiceT Sig) (caller : Caller Sig) :
    Result × St Sig :=
  let (r, p, bound) := (s.clientProxy name type).connect s.node (env.validName name) caller s.bound
  (r, { s with
    clients := Function.update s.clients name (some p)
    bound := bound
    next := if (s.clients name).isSome then s.next else s.next + 1 })

def connect (env : Env Sig) (s : St Sig) (operation name type : String) : Result × St Sig :=
  match env.registry type with
  | none => (.returned false, s)
  | some type =>
    match env.getOwnerOperationCaller operation with
    | some caller => connectClient env s name type caller
    | none =>
      match env.getOwnerOperation operation with
      | some operation => connectServer env s name type operation
      | none => (.returned false, s)

/-- What a connect call does: nothing, or it connects a caller, or an operation. -/
theorem connect_cases (env : Env Sig) (s : St Sig) (operation name type : String) :
    ((env.registry type = none ∨ env.getOwnerOperationCaller operation = none ∧ env.getOwnerOperation operation = none) ∧
      connect env s operation name type = (.returned false, s)) ∨
    (∃ ty caller, env.registry type = some ty ∧ env.getOwnerOperationCaller operation = some caller ∧
      connect env s operation name type = connectClient env s name ty caller) ∨
    (∃ ty o, env.registry type = some ty ∧ env.getOwnerOperationCaller operation = none ∧
      env.getOwnerOperation operation = some o ∧
      connect env s operation name type = connectServer env s name ty o) := by
  unfold connect
  cases ht : env.registry type with
  | none => exact .inl ⟨.inl rfl, rfl⟩
  | some ty =>
    cases hc : env.getOwnerOperationCaller operation with
    | some caller => exact .inr (.inl ⟨ty, caller, rfl, rfl, rfl⟩)
    | none =>
      cases ho : env.getOwnerOperation operation with
      | some o => exact .inr (.inr ⟨ty, o, rfl, rfl, rfl, rfl⟩)
      | none => exact .inl ⟨.inr ⟨rfl, rfl⟩, rfl⟩

def disconnect (s : St Sig) (name : String) : Bool × St Sig :=
  ((s.servers name).isSome || (s.clients name).isSome,
    { s with servers := Function.update s.servers name none, clients := Function.update s.clients name none })

def disconnectAll (s : St Sig) : St Sig := { s with servers := fun _ => none, clients := fun _ => none }

def step (env : Env Sig) (s : St Sig) : Ev → Option (St Sig)
  | .connect operation name type => some (connect env s operation name type).2
  | .disconnect name => some (disconnect s name).2
  | .disconnectAll => some (disconnectAll s)
  | .request name =>
    match s.servers name with
    | none => none
    | some p => if p.server then some { s with dispatched := s.dispatched ++ [(name, p.dispatch)] } else none
  | .node present => some { s with node := present }

end RttRos2.Services
