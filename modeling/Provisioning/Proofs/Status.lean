import Provisioning.Proofs.Schema.Plain
import Provisioning.Status

/-!
# A status is kept

The status is written by one program and read by another, at another time, so nothing of it may get
lost on the way. Its names are all different, those of the tag and its own, which is what the tag
needs that is written among the members of the status and read from those that are left over.
-/

set_option autoImplicit false

namespace Provisioning

open Json

namespace Status

theorem plain : shape.Plain maxDepth := by
  simp [shape, TypeTag.fields, ProvisionedNetworks.shape, Vpc.shape, Subnet.shape,
    SubnetPurpose.shape, Shape.string, Shape.Plain, Fields.Plain, Fields.names, Leaf.text, NoFloat,
    maxDepth]

theorem recovers (status : Status) : shape.Recovers status := plain.recovers status

/-- The subnets as they are written. -/
def writtenSubnet (subnet : Subnet) : Json :=
  .object [("purpose", .string subnet.purpose.name), ("name", .string subnet.name)]

/-- A status as it is written: its tag first, among its own members. -/
theorem toJson_eq (status : Status) :
    shape.toJson status = .object [
      ("apiVersion", .string status.tag.apiVersion),
      ("kind", .string status.tag.kind),
      ("networks", .object [
        ("vpc", .object [("name", .string status.networks.vpc.name)]),
        ("subnets", .array (status.networks.subnets.map writtenSubnet))]),
      ("serviceAccountEmail", .string status.serviceAccountEmail)] := by
  rfl

theorem exact_toJson (status : Status) : (shape.toJson status).Exact := by
  simp [toJson_eq, Exact, NoFloat, writtenSubnet]

theorem depth_toJson (status : Status) : (shape.toJson status).depth ≤ maxDepth := by
  simp [toJson_eq, maxDepth, writtenSubnet]

/-- Every status comes back from the text that is written of it. -/
theorem decode_of_write (status : Status) :
    shape.decode (Utf8.encode (shape.write status)) = .ok status :=
  shape.decode_write (recovers status) (exact_toJson status) (depth_toJson status)

end Status

end Provisioning
