import Provisioning.Schema.Shape

/-!
# Address ranges

A range is a text such as `10.250.0.0/16` and is never looked into: what it means is for the
provisioning tool to say. Only whether a range is given makes a difference here, and an empty text
is one that is given.
-/

set_option autoImplicit false

namespace Provisioning

/-- An address range as it was written. -/
structure Cidr where
  text : String
  deriving DecidableEq

def Cidr.shape : Shape Cidr :=
  .leaf (.text "a string" ⟨Cidr.mk, Cidr.text, fun _ => rfl, fun _ => rfl⟩)

/-- The ranges that all infrastructures of a cluster share. -/
structure ClusterNetworks where
  pods : Option Cidr
  services : Option Cidr
  deriving DecidableEq

def ClusterNetworks.shape : Shape ClusterNetworks :=
  .record "K8sNetworks"
    (.optional "pods" Cidr.shape <|
     .optional "services" Cidr.shape <|
     .nil)
    ⟨fun (pods, services, ()) => ⟨pods, services⟩, fun n => (n.pods, n.services, ()),
      fun _ => rfl, fun _ => rfl⟩

end Provisioning
