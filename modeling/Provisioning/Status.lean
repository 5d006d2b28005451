import Provisioning.State.Basic

/-!
# The status of an infrastructure

The record that is kept of what has been provisioned. Other programs read it, so its members and
its tag are stable. It holds every part of the state it is derived from, and none twice.
-/

set_option autoImplicit false

namespace Provisioning

/-! ## The tag -/

/-- Which kind of record this is, in which version of the format. -/
structure TypeTag where
  apiVersion : String
  kind : String
  deriving DecidableEq

namespace TypeTag

/-- The tag of every status. -/
def status : TypeTag :=
  ⟨"gcp.provider.extensions.gardener.cloud/v1alpha1", "InfrastructureStatus"⟩

def fields : Fields (Option String × Option String × Unit) (String × String × Unit) :=
  .required "apiVersion" .string <|
  .required "kind" .string <|
  .nil

def assembly : Assembly (String × String × Unit) TypeTag :=
  ⟨fun (apiVersion, kind, ()) => ⟨apiVersion, kind⟩, fun t => (t.apiVersion, t.kind, ()),
    fun _ => rfl, fun _ => rfl⟩

def shape : Shape TypeTag := .record "TypeMeta" fields assembly

end TypeTag

/-! ## Subnets -/

inductive SubnetPurpose where
  /-- The nodes live in it. -/
  | nodes
  /-- It is for internal load balancers. -/
  | internal
  deriving DecidableEq

namespace SubnetPurpose

def name : SubnetPurpose → String
  | nodes => "nodes"
  | internal => "internal"

def naming : Naming SubnetPurpose where
  all := [nodes, internal]
  name := name
  mem_all a := by cases a <;> decide
  name_injective a b := by cases a <;> cases b <;> decide

def ofName? (name : String) : Option SubnetPurpose := naming.ofName? name

def shape : Shape SubnetPurpose := .choice naming

end SubnetPurpose

structure Subnet where
  purpose : SubnetPurpose
  name : String
  deriving DecidableEq

def Subnet.shape : Shape Subnet :=
  .record "Subnet"
    (.required "purpose" SubnetPurpose.shape <|
     .required "name" .string <|
     .nil)
    ⟨fun (purpose, name, ()) => ⟨purpose, name⟩, fun s => (s.purpose, s.name, ()),
      fun _ => rfl, fun _ => rfl⟩

structure ProvisionedNetworks where
  vpc : Vpc
  subnets : List Subnet
  deriving DecidableEq

def ProvisionedNetworks.shape : Shape ProvisionedNetworks :=
  .record "NetworkStatus"
    (.required "vpc" Vpc.shape <|
     .required "subnets" (.list Subnet.shape) <|
     .nil)
    ⟨fun (vpc, subnets, ()) => ⟨vpc, subnets⟩, fun n => (n.vpc, n.subnets, ()),
      fun _ => rfl, fun _ => rfl⟩

/-! ## The status -/

structure Status where
  tag : TypeTag
  networks : ProvisionedNetworks
  serviceAccountEmail : String
  deriving DecidableEq

namespace Status

def shape : Shape Status :=
  .tagged "InfrastructureStatus" TypeTag.fields
    (.required "networks" ProvisionedNetworks.shape <|
     .required "serviceAccountEmail" .string <|
     .nil)
    ⟨fun (tag, networks, serviceAccountEmail, ()) =>
        ⟨TypeTag.assembly.build tag, networks, serviceAccountEmail⟩,
      fun s => (TypeTag.assembly.parts s.tag, s.networks, s.serviceAccountEmail, ()),
      fun _ => rfl, fun _ => rfl⟩

/-- The status of a provisioned infrastructure: the subnet of the nodes comes first, and then the
internal one if there is one. -/
def ofState (state : State) : Status where
  tag := .status
  networks := {
    vpc := ⟨state.vpcName⟩
    subnets := ⟨.nodes, state.subnetNodes⟩ :: state.subnetInternal.toList.map (⟨.internal, ·⟩) }
  serviceAccountEmail := state.serviceAccountEmail

/-- The first subnet of a purpose. -/
def subnet? (status : Status) (purpose : SubnetPurpose) : Option Subnet :=
  status.networks.subnets.find? (·.purpose = purpose)

end Status

end Provisioning
