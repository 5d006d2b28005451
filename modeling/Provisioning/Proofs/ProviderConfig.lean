import Provisioning.ProviderConfig
import Provisioning.Proofs.Schema.Settling
import Provisioning.Proofs.Schema.Streaming

/-!
# A provider config, from its document or from a request

A provider config is decoded in two ways: from the bytes of a document, in one pass, and from the
tree inside a request, where the document has been parsed before and its repeated names are gone.
Between the two lies the value that the document lists. One pass over the bytes answers what the
listed value means (`Shape.toOption_decode`), and a tree answers what any value means of which it is
a settled form (`Shape.ofJson_settled`). So the tree accepts whatever the bytes do. For the converse
the listed value has to be a settled form of its tree, which it is unless it repeats a name.
-/

set_option autoImplicit false

namespace Provisioning

open Json

/-! ## Any shape -/

/-- The value that the document lists has no object with a repeated name. -/
def Json.ListsDistinct (document : Bytes) : Prop := ∃ value, Lists document value ∧ value.Distinct

namespace Shape

variable {α : Type} {shape : Shape α} {document : Bytes} {tree : Json} {a : α}

theorem decodeTree_eq_ok_iff : shape.decodeTree tree = .ok a ↔ shape.ofJson tree = .ok a :=
  Except.mapError_eq_ok

/-- What a document says, its tree says. -/
theorem decodeTree_of_decode (htree : Shape.tree.decode document = .ok tree)
    (h : shape.decode document = .ok a) : shape.decodeTree tree = .ok a := by
  obtain ⟨value, hvalue, rfl⟩ := tree_decode_eq_ok_iff.mp htree
  rw [decodeTree_eq_ok_iff]
  rw [shape.decode_eq_ok_iff hvalue] at h
  exact shape.ofJson_settled (settled_tree value) h

/-- What the tree of a document without repeated names says, the document says. -/
theorem decode_of_decodeTree (htree : Shape.tree.decode document = .ok tree)
    (hdistinct : ListsDistinct document) (h : shape.decodeTree tree = .ok a) :
    shape.decode document = .ok a := by
  obtain ⟨value, hvalue, hdistinct⟩ := hdistinct
  have hlisted := (Shape.tree.decode_eq_ok_iff hvalue).mp htree
  cases hlisted
  rw [shape.decode_eq_ok_iff hvalue]
  rw [decodeTree_eq_ok_iff] at h
  exact shape.ofJson_settled hdistinct.settled h

end Shape

/-! ## The provider config of a request -/

namespace ProviderConfig

theorem ofInfrastructure_of_some {infra : Infrastructure} {tree : Json}
    (h : infra.spec.providerConfig = some tree) :
    ofInfrastructure infra = shape.decodeTree tree := by
  rw [ofInfrastructure, h]

theorem ofInfrastructure_eq_missing_iff {infra : Infrastructure} {namespaceName name : String} :
    ofInfrastructure infra = .error (.missingProviderConfig namespaceName name) ↔
      infra.spec.providerConfig = none ∧ infra.namespaceName = namespaceName ∧
        infra.name = name := by
  cases h : infra.spec.providerConfig with
  | none => simp [ofInfrastructure, h]
  | some tree =>
    rw [ofInfrastructure_of_some h, Shape.decodeTree]
    cases shape.ofJson tree <;> simp [Except.mapError]

/-- A request whose provider config is the tree of a document has the config that the document
itself has, whenever that has one; and the other way round, if no object in the document repeats a
name. A request without a provider config is told so by its own name, and no other one is. -/
theorem ofInfrastructure_agrees_with_decode (infra : Infrastructure) :
    (∀ (document : Bytes) (tree : Json), Shape.tree.decode document = .ok tree →
      infra.spec.providerConfig = some tree →
        (∀ config, shape.decode document = .ok config → ofInfrastructure infra = .ok config) ∧
        (ListsDistinct document →
          ∀ config, ofInfrastructure infra = .ok config → shape.decode document = .ok config)) ∧
    (∀ namespaceName name,
      ofInfrastructure infra = .error (.missingProviderConfig namespaceName name) ↔
        infra.spec.providerConfig = none ∧ infra.namespaceName = namespaceName ∧
          infra.name = name) := by
  constructor
  · intro document tree htree hconfig
    rw [ofInfrastructure_of_some hconfig]
    constructor
    · intro config h
      exact Shape.decodeTree_of_decode htree h
    · intro hdistinct config h
      exact Shape.decode_of_decodeTree htree hdistinct h
  · intro namespaceName name
    exact ofInfrastructure_eq_missing_iff

/-- A request for the subnet of the nodes and nothing else. -/
def nodesOnly : Infrastructure where
  namespaceName := "shoot--core--dev"
  name := "dev"
  spec := {
    region := "europe-west1"
    secretRef := none
    providerConfig := some (.object [("networks", .object [("worker", .string "10.250.0.0/16")])]) }

/-- The document of its provider config. -/
def nodesOnlyDocument : Bytes :=
  Utf8.encode "\x7b\"networks\": \x7b\"worker\": \"10.250.0.0/16\"\x7d\x7d"

theorem lists_nodesOnlyDocument :
    Lists nodesOnlyDocument
      (.object [("networks", .object [("worker", .string "10.250.0.0/16")])]) := by
  decide +kernel

theorem ofInfrastructure_nodesOnly :
    ofInfrastructure nodesOnly = .ok ⟨⟨none, none, ⟨"10.250.0.0/16"⟩⟩⟩ ∧
      shape.decode nodesOnlyDocument = .ok ⟨⟨none, none, ⟨"10.250.0.0/16"⟩⟩⟩ := by
  have htree := tree_decode_eq_ok_iff.mpr ⟨_, lists_nodesOnlyDocument, rfl⟩
  have h := (ofInfrastructure_agrees_with_decode nodesOnly).1 nodesOnlyDocument _ htree rfl
  have hconfig := h.1 ⟨⟨none, none, ⟨"10.250.0.0/16"⟩⟩⟩ (by decide +kernel)
  refine ⟨hconfig, h.2 ⟨_, lists_nodesOnlyDocument, ?_⟩ _ hconfig⟩
  simp [Distinct, NamesOnce]

end ProviderConfig

end Provisioning
