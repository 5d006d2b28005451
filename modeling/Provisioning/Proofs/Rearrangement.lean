import Provisioning.ServiceAccount
import Provisioning.Proofs.Status
import Provisioning.Proofs.Schema.Rearranging
import Provisioning.Proofs.Schema.Surveying
import Provisioning.Proofs.State.Document

/-!
# Documents in another arrangement

Whoever writes a document may put the members of its records in any order and may add members that
this library does not know, at any depth, as later versions of a format do. The document is accepted
or refused as before and says the same.

For what is decoded and nothing more this is a property of shapes (`Shape.Rearranged`). Two kinds of
documents are processed further. A state document is looked into by its version, and an account
keeps its bytes; neither lets the arrangement through, save that the bytes which an account keeps
are those it was given. The status is the one kind with a tag, whose members stand among its own.
-/

set_option autoImplicit false

namespace Provisioning

open Json

/-- An account has its project from the document and the document itself. -/
theorem ServiceAccount.ofDocument_eq_ok_iff {document : Bytes} {account : ServiceAccount} :
    ofDocument document = .ok account ↔
      projectShape.decode document = .ok (some account.projectId) ∧ account.projectId ≠ "" ∧
        account.raw = document := by
  rw [ofDocument, Except.bind_eq_ok]
  constructor
  · intro h
    obtain ⟨project, hproject, h⟩ := h
    cases project with
    | none => cases h
    | some projectId =>
      dsimp only at h
      split at h
      · cases h
      · next hne =>
        cases h
        exact ⟨hproject, by simpa using hne, rfl⟩
  · intro h
    obtain ⟨projectId, raw⟩ := account
    obtain ⟨hproject, hne, rfl⟩ := h
    exact ⟨_, hproject, by simp [show projectId ≠ "" from hne]⟩

/-- A document that is not decoded is refused for that. -/
theorem ServiceAccount.ofDocument_of_not_decoded {document : Bytes}
    (h : ∀ project, projectShape.decode document ≠ .ok project) :
    ∃ detail, ofDocument document = .error (.deserialization detail) := by
  obtain ⟨detail, hdetail⟩ := Shape.exists_decode_error h
  exact ⟨detail, by rw [ofDocument, hdetail]; rfl⟩

/-- Documents that are decoded alike are accounts of one project. -/
theorem ServiceAccount.ofDocument_congr {document document' : Bytes} {projectId : String}
    (h : ∀ project, projectShape.decode document' = .ok project ↔
      projectShape.decode document = .ok project) :
    ofDocument document' = .ok ⟨projectId, document'⟩ ↔
      ofDocument document = .ok ⟨projectId, document⟩ := by
  rw [ofDocument_eq_ok_iff, ofDocument_eq_ok_iff, h]
  simp only [and_true]

section

variable {document document' : Bytes} {value value' : Json}

theorem StateDocument.ofDocument_rearranged (hd : Lists document value)
    (hd' : Lists document' value') (h : StateFile.shape.Rearranged value value')
    {state : StateDocument} : ofDocument document' = .ok state ↔ ofDocument document = .ok state :=
  ofDocument_congr fun _ => h.decode_eq_ok_iff hd hd'

theorem ServiceAccount.ofDocument_rearranged (hd : Lists document value)
    (hd' : Lists document' value') (h : projectShape.Rearranged value value') {projectId : String} :
    ofDocument document' = .ok ⟨projectId, document'⟩ ↔
      ofDocument document = .ok ⟨projectId, document⟩ :=
  ofDocument_congr fun _ => h.decode_eq_ok_iff hd hd'

theorem ProviderConfig.ofInfrastructure_rearranged {infra infra' : Infrastructure}
    (htree : infra.spec.providerConfig = some value)
    (htree' : infra'.spec.providerConfig = some value') (h : shape.Rearranged value value')
    {config : ProviderConfig} :
    ofInfrastructure infra' = .ok config ↔ ofInfrastructure infra = .ok config := by
  rw [ofInfrastructure, ofInfrastructure, htree, htree']
  exact Except.mapError_eq_ok.trans (h.ofJson_eq_ok_iff.trans Except.mapError_eq_ok.symm)

/-- **The arrangement of a document does not matter.** Of two documents, let the one list what the
other does, with the members of its records in any order, at every level, and with more of them
under names that are no fields. Then it is accepted if the other one is, and says the same. This is
so for whatever is decoded by its shape: a request, a cluster, a provider config, a status with its
tag, and the location of a chart. It is so for a state document, and for the document of an account,
which is kept as it was given; and for a provider config inside a request. -/
theorem documents_rearranged (hd : Lists document value) (hd' : Lists document' value') :
    (∀ {α : Type} (shape : Shape α), shape.Rearranged value value' →
      ∀ a, shape.decode document' = .ok a ↔ shape.decode document = .ok a) ∧
    (StateFile.shape.Rearranged value value' → ∀ state,
      StateDocument.ofDocument document' = .ok state ↔
        StateDocument.ofDocument document = .ok state) ∧
    (ServiceAccount.projectShape.Rearranged value value' →
      (∀ projectId, ServiceAccount.ofDocument document' = .ok ⟨projectId, document'⟩ ↔
        ServiceAccount.ofDocument document = .ok ⟨projectId, document⟩) ∧
      ∀ account, ServiceAccount.ofDocument document' = .ok account → account.raw = document') ∧
    (ProviderConfig.shape.Rearranged value value' → ∀ infra infra' : Infrastructure,
      infra.spec.providerConfig = some value → infra'.spec.providerConfig = some value' →
      ∀ config, ProviderConfig.ofInfrastructure infra' = .ok config ↔
        ProviderConfig.ofInfrastructure infra = .ok config) := by
  refine ⟨?_, ?_, ?_, ?_⟩
  · intro α shape h a
    exact h.decode_eq_ok_iff hd hd'
  · intro h state
    exact StateDocument.ofDocument_rearranged hd hd' h
  · intro h
    refine ⟨fun projectId => ServiceAccount.ofDocument_rearranged hd hd' h, ?_⟩
    intro account haccount
    exact (ServiceAccount.ofDocument_eq_ok_iff.mp haccount).2.2
  · intro h infra infra' htree htree' config
    exact ProviderConfig.ofInfrastructure_rearranged htree htree' h

end

namespace Status

/-- A status of a network without subnets. -/
def subnetless : Status := ⟨.status, ⟨⟨"v"⟩, []⟩, "e"⟩

/-- Its networks with one member more and all members in the opposite order. -/
def networksRearranged : Json :=
  .object [("routers", .array [.null]), ("subnets", .array []),
    ("vpc", .object [("name", .string "v")])]

/-- The whole of it, likewise. -/
def subnetlessRearranged : Json :=
  .object [
    ("phase", .string "Ready"),
    ("serviceAccountEmail", .string "e"),
    ("networks", networksRearranged),
    ("kind", .string "InfrastructureStatus"),
    ("apiVersion", .string "gcp.provider.extensions.gardener.cloud/v1alpha1")]

theorem rearranged_networks :
    ProvisionedNetworks.shape.Rearranged
      (.object [("vpc", .object [("name", .string "v")]), ("subnets", .array [])])
      networksRearranged := by
  refine Shape.rearranged_record_iff.mpr ⟨_, [("routers", .array [.null])],
    .refl (Fields.revisedMember_refl _ _) _, by decide, ?_⟩
  exact List.reverse_perm [("vpc", Json.object [("name", .string "v")]), ("subnets", .array []),
    ("routers", .array [.null])]

theorem rearranged_subnetless :
    shape.Rearranged (shape.toJson subnetless) subnetlessRearranged := by
  rw [toJson_eq]
  -- First the networks are rearranged in their place, and then the members of the status.
  refine Shape.rearranged_tagged_iff.mpr ⟨[
    ("apiVersion", .string "gcp.provider.extensions.gardener.cloud/v1alpha1"),
    ("kind", .string "InfrastructureStatus"),
    ("networks", networksRearranged),
    ("serviceAccountEmail", .string "e")], [("phase", .string "Ready")], ?_, by decide,
    List.reverse_perm [_, _, _, _, _]⟩
  simp [MemberWise, Fields.RevisedMember, TypeTag.fields, Shape.revised_refl, rearranged_networks,
    subnetless, TypeTag.status]

theorem documents_rearranged_subnetless :
    Lists (Utf8.encode (shape.write subnetless)) (shape.toJson subnetless) ∧
      Lists (Utf8.encode subnetlessRearranged.text) subnetlessRearranged ∧
      shape.decode (Utf8.encode subnetlessRearranged.text) = .ok subnetless := by
  have h : Lists (Utf8.encode (shape.write subnetless)) (shape.toJson subnetless) :=
    lists_text (exact_toJson _) (depth_toJson _)
  have h' : Lists (Utf8.encode subnetlessRearranged.text) subnetlessRearranged :=
    lists_text (by simp [subnetlessRearranged, networksRearranged, Exact, NoFloat])
      (by simp [subnetlessRearranged, networksRearranged, maxDepth])
  have hsame := (documents_rearranged h h').1 shape rearranged_subnetless subnetless
  refine ⟨h, h', hsame.mpr ?_⟩
  exact shape.decode_write (recovers _) (exact_toJson _) (depth_toJson _)

end Status

end Provisioning
