import Provisioning.Chart.Rendering
import Provisioning.Proofs.Calls
import Provisioning.Proofs.Members
import Provisioning.Proofs.Schema.Plain

/-!
# What a renderer is given

The values of every request have a tree (`Values.toTree_eq`), so rendering is never given up before
the renderer is called (`render_eq`). It calls the renderer once, whatever it does, and hands it the
tree. The tree is known in full (`Values.tree_eq`), so what a template finds under a path of names
(`Json.at?`) is a matter of following the path.
-/

set_option autoImplicit false

namespace Provisioning

/-! ## Looking into a tree -/

/-- What stands under a name in an object. -/
def Json.member? (name : String) : Json → Option Json
  | .object members => last? name members
  | _ => none

/-- What stands under a path of names. -/
def Json.at? (value : Json) (path : List String) : Option Json :=
  path.foldlM (fun value name => value.member? name) value

theorem Json.at?_pair (value : Json) (outer inner : String) :
    value.at? [outer, inner] = (value.member? outer).bind (member? inner) := by
  simp [at?]

namespace Chart

variable {m : Type → Type} {ε : Type}

/-! ## The values -/

namespace Values

theorem plain : shape.Plain Json.maxDepth := by
  simp [shape, Ranges.shape, OutputNames.shape, Vpc.shape, Cidr.shape, Shape.string, Shape.Plain,
    Fields.Plain, Fields.names, Shape.toJson, Leaf.text, Leaf.flag, Json.NoFloat, Json.maxDepth]

/-- No values are without a tree. -/
theorem toTree_eq (values : Values) : values.toTree = .ok values.tree := plain.toTree_eq values

end Values

/-- Nothing fails before the renderer is called. -/
theorem render_eq [Monad m] [MonadLog m] [ToString ε] [OfUnwritable ε] (renderer : Renderer m ε)
    (location : Location) (infra : Infrastructure) (account : ServiceAccount)
    (config : ProviderConfig) (cluster : Cluster) :
    render renderer location infra account config cluster =
      renderTree renderer location infra
        (Values.ofRequest infra account config cluster).tree := by
  rw [render, Values.toTree_eq]

/-! ## The call -/

/-- What a renderer is called with. -/
structure Call where
  path : String
  name : String
  namespaceName : String
  values : Json

/-- A renderer that keeps its calls. -/
def Renderer.recorded [Monad m] (renderer : Renderer m ε) : Renderer (StateT (List Call) m) ε :=
  fun path name namespaceName values =>
    Provisioning.recorded
      (fun call : Call => renderer call.path call.name call.namespaceName call.values)
      ⟨path, name, namespaceName, values⟩

/-- The call that renders a request. -/
def Call.ofRequest (location : Location) (infra : Infrastructure) (account : ServiceAccount)
    (config : ProviderConfig) (cluster : Cluster) : Call :=
  ⟨location.path, location.name, infra.namespaceName,
    (Values.ofRequest infra account config cluster).tree⟩

/-- One call is made of a renderer, whatever it does, and keeping it changes nothing. -/
theorem run_render_recorded [Monad m] [LawfulMonad m] [MonadLog m] [ToString ε] [OfUnwritable ε]
    (renderer : Renderer m ε) (location : Location) (infra : Infrastructure)
    (account : ServiceAccount) (config : ProviderConfig) (cluster : Cluster) (calls : List Call) :
    (render renderer.recorded location infra account config cluster).run calls =
      (fun answer => (answer, calls ++ [.ofRequest location infra account config cluster])) <$>
        render renderer location infra account config cluster := by
  simp only [render_eq, renderTree, Renderer.recorded, StateT.run_bind, run_log, run_recorded,
    bind_map_left, map_bind]
  refine bind_congr fun _ => bind_congr fun answer => ?_
  cases answer <;> simp [Call.ofRequest]

/-! ## The tree -/

namespace Values

/-- A range that may be absent, which is `null` then. -/
def rangeTree : Option Cidr → Json
  | none => .null
  | some range => .string range.text

theorem tree_toJson_range (range : Option Cidr) :
    ((Shape.optional Cidr.shape).toJson range).tree = rangeTree range := by
  cases range <;> rfl

theorem rangeTree_eq_null_iff {range : Option Cidr} : rangeTree range = .null ↔ range = none := by
  cases range <;> simp [rangeTree]

theorem tree_eq (values : Values) :
    values.tree = .object [
      ("clusterName", .string values.clusterName),
      ("create", .object [("vpc", .bool values.createVpc)]),
      ("google", .object [("project", .string values.project), ("region", .string values.region)]),
      ("networks", .object [
        ("internal", rangeTree values.networks.internal),
        ("pods", rangeTree values.networks.pods),
        ("services", rangeTree values.networks.services),
        ("worker", .string values.networks.worker.text)]),
      ("outputKeys", .object [
        ("serviceAccountEmail", .string values.outputNames.serviceAccountEmail),
        ("subnetInternal", .string values.outputNames.subnetInternal),
        ("subnetNodes", .string values.outputNames.subnetNodes),
        ("vpcName", .string values.outputNames.vpcName)]),
      ("vpc", .object [("name", .string values.vpcName)])] := by
  rw [← tree_toJson_range, ← tree_toJson_range, ← tree_toJson_range]
  rfl

end Values

end Chart

end Provisioning
