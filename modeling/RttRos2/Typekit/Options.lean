/-
  RttRos2.Typekit.Options — the members of `rclcpp::QoS`, `rclcpp::PublisherOptionsBase`
  and `rclcpp::NodeOptions` (ros2_qos_type.cpp, ros2_publisher_options_type.cpp,
  ros2_node_options_type.cpp).

  Members of QoS and publisher options are parts, by reference; members of node options
  are fields with accessors. What `rclcpp` keeps behind pointers is opaque here.

  `NodeOptionsTypeInfo::getMember` creates a new data source each time, holding a default
  value: reading the depth of `parameter_event_qos` through it gives the default's depth,
  and writing the depth resets the other policies (`part_of_created_resets_policies`).
-/

import RttRos2.Typekit.DataSource

namespace RttRos2.Typekit

open RttRos2.Lib

/-- A member of `S`, as a part data source refers to it. -/
structure Member (S : Type) where
  V : Type
  lens : Lens S V

/-! ## rclcpp::QoS -/

inductive History where
  | systemDefault
  | keepLast
  | keepAll
  | unknown
  deriving DecidableEq, Repr

inductive Reliability where
  | systemDefault
  | reliable
  | bestEffort
  | unknown
  deriving DecidableEq, Repr

inductive Durability where
  | systemDefault
  | transientLocal
  | volatile
  | unknown
  deriving DecidableEq, Repr

inductive Liveliness where
  | systemDefault
  | automatic
  | manualByNode
  | manualByTopic
  | unknown
  deriving DecidableEq, Repr

/-- `rmw_time_t` -/
structure Time where
  sec : Nat
  nsec : Nat
  deriving DecidableEq, Repr

/-- `rmw_qos_profile_t` -/
structure QosProfile where
  history : History
  depth : Nat
  reliability : Reliability
  durability : Durability
  deadline : Time
  lifespan : Time
  liveliness : Liveliness
  livelinessLeaseDuration : Time
  avoidRosNamespaceConventions : Bool
  deriving DecidableEq, Repr

/-- `WrappedQoS` -/
structure QoS where
  profile : QosProfile
  deriving DecidableEq, Repr

namespace QoS

/-- `WrappedQoS()`, that is `KeepLast(0)` over the default profile. -/
def na : QoS := ⟨⟨.keepLast, 0, .reliable, .volatile, ⟨0, 0⟩, ⟨0, 0⟩, .systemDefault, ⟨0, 0⟩, false⟩⟩

/-- `get_rmw_qos_profile` -/
def rmwQosProfile : Lens QoS QosProfile where
  get q := q.profile
  set q p := { q with profile := p }

def history : Lens QosProfile History where
  get p := p.history
  set p v := { p with history := v }

def depth : Lens QosProfile Nat where
  get p := p.depth
  set p v := { p with depth := v }

def reliability : Lens QosProfile Reliability where
  get p := p.reliability
  set p v := { p with reliability := v }

def durability : Lens QosProfile Durability where
  get p := p.durability
  set p v := { p with durability := v }

def deadline : Lens QosProfile Time where
  get p := p.deadline
  set p v := { p with deadline := v }

def lifespan : Lens QosProfile Time where
  get p := p.lifespan
  set p v := { p with lifespan := v }

def liveliness : Lens QosProfile Liveliness where
  get p := p.liveliness
  set p v := { p with liveliness := v }

def livelinessLeaseDuration : Lens QosProfile Time where
  get p := p.livelinessLeaseDuration
  set p v := { p with livelinessLeaseDuration := v }

def avoidRosNamespaceConventions : Lens QosProfile Bool where
  get p := p.avoidRosNamespaceConventions
  set p v := { p with avoidRosNamespaceConventions := v }

end QoS

namespace QoSTypeInfo

def getMemberNames : List String :=
  ["history", "depth", "reliability", "durability", "deadline", "lifespan", "liveliness", "liveliness_lease_duration",
    "avoid_ros_namespace_conventions"]

def getMember : String → Option (Member QoS)
  | "history" => some ⟨_, QoS.rmwQosProfile.comp QoS.history⟩
  | "depth" => some ⟨_, QoS.rmwQosProfile.comp QoS.depth⟩
  | "reliability" => some ⟨_, QoS.rmwQosProfile.comp QoS.reliability⟩
  | "durability" => some ⟨_, QoS.rmwQosProfile.comp QoS.durability⟩
  | "deadline" => some ⟨_, QoS.rmwQosProfile.comp QoS.deadline⟩
  | "lifespan" => some ⟨_, QoS.rmwQosProfile.comp QoS.lifespan⟩
  | "liveliness" => some ⟨_, QoS.rmwQosProfile.comp QoS.liveliness⟩
  | "liveliness_lease_duration" => some ⟨_, QoS.rmwQosProfile.comp QoS.livelinessLeaseDuration⟩
  | "avoid_ros_namespace_conventions" => some ⟨_, QoS.rmwQosProfile.comp QoS.avoidRosNamespaceConventions⟩
  | _ => none

theorem getMember_isSome_iff (name : String) : (getMember name).isSome = true ↔ name ∈ getMemberNames := by
  unfold getMember
  split <;> simp_all [getMemberNames]

end QoSTypeInfo

/-! ## rclcpp::PublisherOptionsBase -/

/-- `rclcpp::IntraProcessSetting` -/
inductive IntraProcessSetting where
  | enable
  | disable
  | nodeDefault
  deriving DecidableEq, Repr

/-- What `rclcpp` keeps behind pointers and in function objects. -/
structure Rclcpp where
  Context : Type
  Parameter : Type
  Allocator : Type
  EventCallbacks : Type
  CallbackGroup : Type
  Payload : Type
  noAllocator : Allocator
  noCallbacks : EventCallbacks

structure PublisherOptionsBase (R : Rclcpp) where
  useIntraProcessComm : IntraProcessSetting
  eventCallbacks : R.EventCallbacks
  callbackGroup : Option R.CallbackGroup
  rmwImplementationPayload : Option R.Payload

variable {R : Rclcpp}

namespace PublisherOptionsBase

def na : PublisherOptionsBase R := ⟨.nodeDefault, R.noCallbacks, none, none⟩

def intraProcessComm : Lens (PublisherOptionsBase R) IntraProcessSetting where
  get p := p.useIntraProcessComm
  set p v := { p with useIntraProcessComm := v }

def callbacks : Lens (PublisherOptionsBase R) R.EventCallbacks where
  get p := p.eventCallbacks
  set p v := { p with eventCallbacks := v }

def group : Lens (PublisherOptionsBase R) (Option R.CallbackGroup) where
  get p := p.callbackGroup
  set p v := { p with callbackGroup := v }

def payload : Lens (PublisherOptionsBase R) (Option R.Payload) where
  get p := p.rmwImplementationPayload
  set p v := { p with rmwImplementationPayload := v }

end PublisherOptionsBase

namespace PublisherOptionsBaseTypeInfo

def getMemberNames : List String :=
  ["use_intra_process_comm", "event_callbacks", "callback_group", "rmw_implementation_payload"]

def getMember : String → Option (Member (PublisherOptionsBase R))
  | "use_intra_process_comm" => some ⟨_, PublisherOptionsBase.intraProcessComm⟩
  | "event_callbacks" => some ⟨_, PublisherOptionsBase.callbacks⟩
  | "callback_group" => some ⟨_, PublisherOptionsBase.group⟩
  | "rmw_implementation_payload" => some ⟨_, PublisherOptionsBase.payload⟩
  | _ => none

theorem getMember_isSome_iff (name : String) :
    (getMember name : Option (Member (PublisherOptionsBase R))).isSome = true ↔ name ∈ getMemberNames := by
  unfold getMember
  split <;> simp_all [getMemberNames]

end PublisherOptionsBaseTypeInfo

/-! ## rclcpp::NodeOptions -/

structure NodeOptions (R : Rclcpp) where
  context : Option R.Context
  arguments : List String
  parameterOverrides : List R.Parameter
  useGlobalArguments : Bool
  useIntraProcessComms : Bool
  startParameterServices : Bool
  startParameterEventPublisher : Bool
  parameterEventQos : QoS
  parameterEventPublisherOptions : PublisherOptionsBase R
  allowUndeclaredParameters : Bool
  automaticallyDeclareParametersFromOverrides : Bool
  allocator : R.Allocator

/-- A data source for a field of the object. -/
structure Source (O : Type) where
  FieldT : Type
  source : GetterSetterDataSource O FieldT

namespace NodeOptionsTypeInfo

def getMemberNames : List String :=
  ["context", "arguments", "parameter_overrides", "use_global_arguments", "use_intra_process_comms",
    "start_parameter_services", "start_parameter_event_publisher", "parameter_event_qos",
    "parameter_event_publisher_options", "allow_undeclared_parameters",
    "automatically_declare_parameters_from_overrides", "allocator"]

def parameterEventQos : Field (NodeOptions R) QoS where
  getter o := o.parameterEventQos
  setter o v := { o with parameterEventQos := v }
  getter_setter _ _ := rfl

def parameterEventPublisherOptions : Field (NodeOptions R) (PublisherOptionsBase R) where
  getter o := o.parameterEventPublisherOptions
  setter o v := { o with parameterEventPublisherOptions := v }
  getter_setter _ _ := rfl

def getMember (adata : NodeOptions R) : String → Option (Source (NodeOptions R))
  | "context" =>
    some ⟨_, .create adata ⟨fun o => o.context, fun o v => { o with context := v }, fun _ _ => rfl⟩ none⟩
  | "arguments" =>
    some ⟨_, .create adata ⟨fun o => o.arguments, fun o v => { o with arguments := v }, fun _ _ => rfl⟩ []⟩
  | "parameter_overrides" =>
    some ⟨_, .create adata
      ⟨fun o => o.parameterOverrides, fun o v => { o with parameterOverrides := v }, fun _ _ => rfl⟩ []⟩
  | "use_global_arguments" =>
    some ⟨_, .create adata
      ⟨fun o => o.useGlobalArguments, fun o v => { o with useGlobalArguments := v }, fun _ _ => rfl⟩ false⟩
  | "use_intra_process_comms" =>
    some ⟨_, .create adata
      ⟨fun o => o.useIntraProcessComms, fun o v => { o with useIntraProcessComms := v }, fun _ _ => rfl⟩ false⟩
  | "start_parameter_services" =>
    some ⟨_, .create adata
      ⟨fun o => o.startParameterServices, fun o v => { o with startParameterServices := v }, fun _ _ => rfl⟩ false⟩
  | "start_parameter_event_publisher" =>
    some ⟨_, .create adata
      ⟨fun o => o.startParameterEventPublisher, fun o v => { o with startParameterEventPublisher := v },
        fun _ _ => rfl⟩ false⟩
  | "parameter_event_qos" => some ⟨_, .create adata parameterEventQos QoS.na⟩
  | "parameter_event_publisher_options" =>
    some ⟨_, .create adata parameterEventPublisherOptions PublisherOptionsBase.na⟩
  | "allow_undeclared_parameters" =>
    some ⟨_, .create adata
      ⟨fun o => o.allowUndeclaredParameters, fun o v => { o with allowUndeclaredParameters := v }, fun _ _ => rfl⟩
      false⟩
  | "automatically_declare_parameters_from_overrides" =>
    some ⟨_, .create adata
      ⟨fun o => o.automaticallyDeclareParametersFromOverrides,
        fun o v => { o with automaticallyDeclareParametersFromOverrides := v }, fun _ _ => rfl⟩ false⟩
  | "allocator" =>
    some ⟨_, .create adata ⟨fun o => o.allocator, fun o v => { o with allocator := v }, fun _ _ => rfl⟩ R.noAllocator⟩
  | _ => none

theorem getMember_isSome_iff (adata : NodeOptions R) (name : String) :
    (getMember adata name).isSome = true ↔ name ∈ getMemberNames := by
  unfold getMember
  split <;> simp_all [getMemberNames]

/-- Every data source for a field is new, and holds a default value. -/
theorem getMember_created {adata : NodeOptions R} {name : String} {d : Source (NodeOptions R)}
    (h : getMember adata name = some d) : ∃ field na, d.source = .create adata field na := by
  unfold getMember at h
  split at h <;> cases h <;> exact ⟨_, _, rfl⟩

end NodeOptionsTypeInfo

/-- Best effort, the last 1000 events. -/
def eventOptions : NodeOptions ⟨Unit, Unit, Unit, Unit, Unit, Unit, (), ()⟩ where
  context := none
  arguments := []
  parameterOverrides := []
  useGlobalArguments := true
  useIntraProcessComms := false
  startParameterServices := true
  startParameterEventPublisher := true
  parameterEventQos := ⟨⟨.keepLast, 1000, .bestEffort, .volatile, ⟨0, 0⟩, ⟨0, 0⟩, .systemDefault, ⟨0, 0⟩, false⟩⟩
  parameterEventPublisherOptions := .na
  allowUndeclaredParameters := false
  automaticallyDeclareParametersFromOverrides := false
  allocator := ()

theorem part_of_created_resets_policies :
    ∃ (source : GetterSetterDataSource _ QoS) (depth : Lens QoS Nat),
      NodeOptionsTypeInfo.getMember eventOptions "parameter_event_qos" = some ⟨QoS, source⟩ ∧
      QoSTypeInfo.getMember "depth" = some ⟨Nat, depth⟩ ∧ source.getPart depth = 0 ∧
      (source.setPart depth 5).object.parameterEventQos.profile.reliability = .reliable ∧
      ¬ source.Transparent depth := by
  refine ⟨_, _, rfl, rfl, rfl, rfl, fun h => ?_⟩
  have hr := h.reads
  cases hr

end RttRos2.Typekit
