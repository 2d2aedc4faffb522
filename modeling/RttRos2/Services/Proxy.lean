/-
  RttRos2.Services.Proxy — the proxies that tie RTT operations to ROS services
  (rtt_ros2_services_proxy.hpp).

  A server proxy holds the ROS service it serves (`server_`) and the caller of the
  operation that serves it (`impl_`); the callback of the ROS service dispatches through
  whatever `impl_` the proxy has when a request comes in. `impl_` is built by the first
  variant of the service type's caller wrapper whose signature is the operation's. A
  client proxy binds an operation caller of the owner to a function that calls the ROS
  service through the proxy.

  `rclcpp` throws when a service or client is created for an invalid name. The ROS node
  of the owner may come and go.
-/

import Mathlib.Logic.Function.Basic

namespace RttRos2.Services

/-- A ROS service type: the signature of the default variant and those of the variants that
    follow it. -/
structure ServiceT (Sig : Type) where
  signature : Sig
  variants : List Sig
  deriving DecidableEq

structure Operation (Sig : Type) where
  id : Nat
  signature : Sig
  deriving DecidableEq

/-- An operation caller that the owner requires. -/
structure Caller (Sig : Type) where
  id : Nat
  signature : Sig
  deriving DecidableEq

/-- `RosServiceServerOperationCaller<ServiceT, variant>`, bound to an operation. -/
structure ServerCaller (Sig : Type) where
  variant : Nat
  operation : Operation Sig
  deriving DecidableEq

/-- `false` and `true` are what a `connect` returns. -/
inductive Result where
  | returned (done : Bool)
  | threw
  deriving DecidableEq, Repr

variable {Sig : Type} [DecidableEq Sig]

/-- Try a variant, then the next one. -/
def ServerCaller.connect (operation : Operation Sig) : Nat → List Sig → Option (ServerCaller Sig)
  | _, [] => none
  | variant, sig :: rest =>
    if operation.signature = sig then some ⟨variant, operation⟩ else connect operation (variant + 1) rest

def ServiceT.connect (type : ServiceT Sig) (operation : Operation Sig) : Option (ServerCaller Sig) :=
  ServerCaller.connect operation 0 (type.signature :: type.variants)

structure ServerProxy (Sig : Type) where
  type : ServiceT Sig
  impl : Option (ServerCaller Sig)
  /-- `server_` is not null. -/
  server : Bool
  deriving DecidableEq

namespace ServerProxy

def create (type : ServiceT Sig) : ServerProxy Sig := ⟨type, none, false⟩

def connect (p : ServerProxy Sig) (node validName : Bool) (operation : Operation Sig) : Result × ServerProxy Sig :=
  if !node then (.returned false, p)
  else match p.type.connect operation with
    | none => (.returned false, { p with impl := none })
    | some impl =>
      if validName then (.returned true, { p with impl := some impl, server := true })
      else (.threw, { p with impl := some impl })

theorem connect_type (p : ServerProxy Sig) (node valid : Bool) (operation : Operation Sig) :
    (p.connect node valid operation).2.type = p.type := by
  unfold ServerProxy.connect
  (repeat' split) <;> rfl

theorem connect_returns_true (p : ServerProxy Sig) (node valid : Bool) (operation : Operation Sig) :
    (p.connect node valid operation).1 = .returned true ↔
      node = true ∧ valid = true ∧ (p.type.connect operation).isSome = true := by
  unfold ServerProxy.connect
  cases node <;> cases valid <;> cases p.type.connect operation <;> simp

/-- A request comes in: the operation it is dispatched to, `none` through a null `impl_`. -/
def dispatch (p : ServerProxy Sig) : Option (Operation Sig) := p.impl.map ServerCaller.operation

end ServerProxy

/-- `id` is the proxy's identity: the function it gives to callers captures it. -/
structure ClientProxy (Sig : Type) where
  id : Nat
  type : ServiceT Sig
  /-- `client_` is not null. -/
  client : Bool
  deriving DecidableEq

namespace ClientProxy

def create (id : Nat) (type : ServiceT Sig) : ClientProxy Sig := ⟨id, type, false⟩

/-- `bound`: the proxy each operation caller is bound to. `setImplementation` refuses an
    implementation of another signature. -/
def connect (p : ClientProxy Sig) (node validName : Bool) (caller : Caller Sig) (bound : Nat → Option Nat) :
    Result × ClientProxy Sig × (Nat → Option Nat) :=
  if !node then (.returned false, p, bound)
  else if !validName then (.threw, p, bound)
  else if caller.signature = p.type.signature then
    (.returned true, { p with client := true }, Function.update bound caller.id (some p.id))
  else (.returned false, { p with client := true }, bound)

section
variable (p : ClientProxy Sig) (node valid : Bool) (caller : Caller Sig) (bound : Nat → Option Nat)

theorem connect_id : (p.connect node valid caller bound).2.1.id = p.id := by
  unfold ClientProxy.connect
  (repeat' split) <;> rfl

theorem connect_type : (p.connect node valid caller bound).2.1.type = p.type := by
  unfold ClientProxy.connect
  (repeat' split) <;> rfl

theorem connect_returns_true : (p.connect node valid caller bound).1 = .returned true ↔
    node = true ∧ valid = true ∧ caller.signature = p.type.signature := by
  unfold ClientProxy.connect
  cases node <;> cases valid <;> by_cases h : caller.signature = p.type.signature <;> simp [h]

theorem connect_bound {c id : Nat} (h : (p.connect node valid caller bound).2.2 c = some id) :
    bound c = some id ∨ id = p.id := by
  unfold ClientProxy.connect at h
  split at h
  · exact .inl h
  split at h
  · exact .inl h
  split at h
  · simp only [Function.update_apply] at h
    split at h
    · exact .inr (Option.some.inj h).symm
    · exact .inl h
  · exact .inl h

end

end ClientProxy

end RttRos2.Services
