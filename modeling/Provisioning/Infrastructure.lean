import Provisioning.Network

/-!
# What is requested

An `Infrastructure` asks for the network of one cluster in a cloud region. How that network is laid
out is its provider config, a tree of which nothing is assumed here. A `Cluster` adds what all
infrastructures of a cluster have in common.
-/

set_option autoImplicit false

namespace Provisioning

/-- Where the credentials for the cloud are kept. -/
structure SecretReference where
  namespaceName : String
  name : String
  deriving DecidableEq

def SecretReference.shape : Shape SecretReference :=
  .record "SecretReference"
    (.required "namespace" .string <|
     .required "name" .string <|
     .nil)
    ⟨fun (namespaceName, name, ()) => ⟨namespaceName, name⟩, fun r => (r.namespaceName, r.name, ()),
      fun _ => rfl, fun _ => rfl⟩

namespace Infrastructure

/-- The desired state of an infrastructure. -/
structure Spec where
  region : String
  secretRef : Option SecretReference
  /-- How the network is laid out, undecoded. -/
  providerConfig : Option Json

def Spec.shape : Shape Spec :=
  .record "InfrastructureSpec"
    (.required "region" .string <|
     .optional "secretRef" SecretReference.shape <|
     .optional "providerConfig" .tree <|
     .nil)
    ⟨fun (region, secretRef, providerConfig, ()) => ⟨region, secretRef, providerConfig⟩,
      fun s => (s.region, s.secretRef, s.providerConfig, ()), fun _ => rfl, fun _ => rfl⟩

end Infrastructure

structure Infrastructure where
  /-- The namespace of the request, which is also the name of its cluster. -/
  namespaceName : String
  name : String
  spec : Infrastructure.Spec

def Infrastructure.shape : Shape Infrastructure :=
  .record "Infrastructure"
    (.required "namespace" .string <|
     .required "name" .string <|
     .required "spec" Infrastructure.Spec.shape <|
     .nil)
    ⟨fun (namespaceName, name, spec, ()) => ⟨namespaceName, name, spec⟩,
      fun i => (i.namespaceName, i.name, i.spec, ()), fun _ => rfl, fun _ => rfl⟩

structure Cluster where
  networks : ClusterNetworks
  deriving DecidableEq

def Cluster.shape : Shape Cluster :=
  .record "Cluster"
    (.required "networks" ClusterNetworks.shape <|
     .nil)
    ⟨fun (networks, ()) => ⟨networks⟩, fun c => (c.networks, ()), fun _ => rfl, fun _ => rfl⟩

/-- A cluster of which no range is known. -/
instance : Inhabited Cluster := ⟨⟨⟨none, none⟩⟩⟩

end Provisioning
