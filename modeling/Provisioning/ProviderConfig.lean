import Provisioning.Error
import Provisioning.Infrastructure

/-!
# The layout of an infrastructure's networks

The provider config of an infrastructure says which network to use and how to divide it. It comes
either as a document of its own or as the tree inside a request (`ProviderConfig.ofInfrastructure`).
Members that it does not know, such as a tag of its kind, are no fault.
-/

set_option autoImplicit false

namespace Provisioning

/-- An existing virtual network, by its name. -/
structure Vpc where
  name : String
  deriving DecidableEq

def Vpc.shape : Shape Vpc :=
  .record "Vpc"
    (.required "name" .string <|
     .nil)
    ⟨fun (name, ()) => ⟨name⟩, fun v => (v.name, ()), fun _ => rfl, fun _ => rfl⟩

structure NetworkLayout where
  /-- The network to reuse; without one, a network is created. -/
  vpc : Option Vpc
  /-- The range of the subnet for internal load balancers, if there is to be one. -/
  internal : Option Cidr
  /-- The range of the subnet for the nodes. -/
  worker : Cidr
  deriving DecidableEq

def NetworkLayout.shape : Shape NetworkLayout :=
  .record "NetworkConfig"
    (.optional "vpc" Vpc.shape <|
     .optional "internal" Cidr.shape <|
     .required "worker" Cidr.shape <|
     .nil)
    ⟨fun (vpc, internal, worker, ()) => ⟨vpc, internal, worker⟩,
      fun n => (n.vpc, n.internal, n.worker, ()), fun _ => rfl, fun _ => rfl⟩

structure ProviderConfig where
  networks : NetworkLayout
  deriving DecidableEq

namespace ProviderConfig

def shape : Shape ProviderConfig :=
  .record "InfrastructureConfig"
    (.required "networks" NetworkLayout.shape <|
     .nil)
    ⟨fun (networks, ()) => ⟨networks⟩, fun c => (c.networks, ()), fun _ => rfl, fun _ => rfl⟩

/-- The provider config inside a request. -/
def ofInfrastructure (infra : Infrastructure) : Except Error ProviderConfig :=
  match infra.spec.providerConfig with
  | none => .error (.missingProviderConfig infra.namespaceName infra.name)
  | some tree => shape.decodeTree tree

/-- Whether there is to be an internal subnet. An empty range counts as one. -/
def hasInternal (config : ProviderConfig) : Bool := config.networks.internal.isSome

end ProviderConfig

end Provisioning
