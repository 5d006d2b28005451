import Provisioning.Chart.Location
import Provisioning.ServiceAccount
import Provisioning.Proofs.Schema.Extension
import Provisioning.Proofs.State.Extraction

/-!
# Documents that are cut short or run on

A document may be read while it is still being written, or with the next one already behind it. In
either case it is refused: whatever is accepted is accepted with blanks behind it and with nothing
else, so of two accepted documents one is never the front of the other, blanks apart
(`Delimited`). In particular no status comes of a state document of which the end is missing.

Every kind of document is a record, and a record ends with its bracket. What is made of the record
afterwards, such as the selection of outputs by their version, only sees what has been decoded, and
does not undo this (`Delimited.bind`).
-/

set_option autoImplicit false

namespace Provisioning

open Ascii Json

variable {α β : Type}

/-- Behind a document that is accepted there may be blanks, which change nothing, and nothing else
may be there. So a document is not accepted if more than blanks is missing from its end. -/
structure Delimited (decode : Bytes → Except Error α) : Prop where
  append_iff : ∀ {document a}, decode document = .ok a →
    ∀ s b, decode (document ++ s) = .ok b ↔ Blank s ∧ b = a
  not_cut : ∀ {document s b}, decode (document ++ s) = .ok b → ¬Blank s →
    ∀ a, decode document ≠ .ok a

theorem delimited_of_append_iff {decode : Bytes → Except Error α}
    (h : ∀ {document a}, decode document = .ok a →
      ∀ s b, decode (document ++ s) = .ok b ↔ Blank s ∧ b = a) : Delimited decode where
  append_iff := h
  not_cut {_ s b} hwhole hs _ hcut := hs ((h hcut s b).mp hwhole).1

/-- What is computed from a decoded document is as delimited as the document. -/
theorem Delimited.bind {decode : Bytes → Except Error α} (h : Delimited decode)
    (f : α → Except Error β) : Delimited fun document => decode document >>= f := by
  refine delimited_of_append_iff ?_
  intro document c hc s d
  obtain ⟨a, ha, hf⟩ := Except.bind_eq_ok.mp hc
  constructor
  · intro hd
    obtain ⟨b, hb, hg⟩ := Except.bind_eq_ok.mp hd
    obtain ⟨hs, rfl⟩ := (h.append_iff ha s b).mp hb
    rw [hf] at hg
    cases hg
    exact ⟨hs, rfl⟩
  · rintro ⟨hs, rfl⟩
    have hwhole : decode (document ++ s) = .ok a := (h.append_iff ha s a).mpr ⟨hs, rfl⟩
    exact Except.bind_eq_ok.mpr ⟨a, hwhole, hf⟩

namespace Shape

variable {σ γ τ δ : Type}

theorem delimited_record (name : String) (fields : Fields σ γ) (as : Assembly γ α) :
    Delimited (record name fields as).decode :=
  delimited_of_append_iff (decode_append_iff (record_stops fields.extends name as _))

theorem delimited_tagged (name : String) (tag : Fields σ γ) (own : Fields τ δ)
    (as : Assembly (γ × δ) α) : Delimited (tagged name tag own as).decode :=
  delimited_of_append_iff (decode_append_iff (tagged_stops own.extends name as _))

end Shape

theorem StateDocument.delimited_ofDocument : Delimited StateDocument.ofDocument := by
  have hfile : Delimited StateFile.shape.decode := Shape.delimited_record _ _ _
  exact hfile.bind fun file => do
    return StateDocument.mk file.version ((← file.selected).map StateFile.Output.text)

namespace ServiceAccount

/-- The project that a document names, which is all that is decoded of it. -/
def projectOf (document : Bytes) : Except Error String := (ofDocument document).map projectId

theorem projectOf_eq (document : Bytes) :
    projectOf document = projectShape.decode document >>= fun project => match project with
      | none => .error .missingProjectId
      | some projectId =>
        if projectId.isEmpty then .error .missingProjectId else .ok projectId := by
  rw [projectOf, ofDocument]
  cases projectShape.decode document with
  | error e => rfl
  | ok project =>
    cases project with
    | none => rfl
    | some projectId =>
      simp only [Except.ok_bind]
      split <;> rfl

theorem delimited_projectOf : Delimited projectOf := by
  rw [show projectOf = _ from funext projectOf_eq]
  exact (Shape.delimited_record _ _ _).bind _

theorem raw_of_ofDocument {document : Bytes} {account : ServiceAccount}
    (h : ofDocument document = .ok account) : account.raw = document := by
  obtain ⟨project, -, h⟩ := Except.bind_eq_ok.mp h
  cases project with
  | none => cases h
  | some projectId =>
    dsimp only at h
    split at h
    · cases h
    · cases h
      rfl

end ServiceAccount

/-- **Nothing behind a document.** Each kind of document is accepted with blanks behind it and with
nothing else, and says the same then; an account keeps its bytes, with the blanks. A state document
that has lost more than blanks from its end is not accepted, and so it has no status. -/
theorem documents_delimited :
    Delimited Infrastructure.shape.decode ∧ Delimited Cluster.shape.decode ∧
    Delimited ProviderConfig.shape.decode ∧ Delimited Status.shape.decode ∧
    Delimited Chart.Location.shape.decode ∧ Delimited StateDocument.ofDocument ∧
    Delimited ServiceAccount.projectOf ∧
    (∀ document account, ServiceAccount.ofDocument document = .ok account →
      account.raw = document) ∧
    ∀ document s state, StateDocument.ofDocument (document ++ s) = .ok state → ¬Blank s →
      ∀ config status,
        (do (← StateDocument.ofDocument document).statusFor config) ≠ .ok status := by
  have hstate := StateDocument.delimited_ofDocument
  refine ⟨Shape.delimited_record _ _ _, Shape.delimited_record _ _ _, Shape.delimited_record _ _ _,
    Shape.delimited_tagged _ _ _ _, Shape.delimited_record _ _ _, hstate,
    ServiceAccount.delimited_projectOf, ?_, ?_⟩
  · intro document account h
    exact ServiceAccount.raw_of_ofDocument h
  · intro document s state hwhole hs config status hstatus
    obtain ⟨cut, hcut, -⟩ := Except.bind_eq_ok.mp hstatus
    exact hstate.not_cut hwhole hs cut hcut

theorem documents_delimited_vpcOnly :
    StateDocument.ofDocument (vpcOnlyDocument ++ [lineFeed, tab]) =
        .ok ⟨4, .ofList [("vpc_name", "v")]⟩ ∧
      ∀ config status,
        (do (← StateDocument.ofDocument vpcOnlyDocument.dropLast).statusFor config) ≠
          .ok status := by
  obtain ⟨-, -, -, -, -, hstate, -, -, hcut⟩ := documents_delimited
  refine ⟨?_, ?_⟩
  · exact (hstate.append_iff ofDocument_vpcOnlyDocument _ _).mpr ⟨by decide, rfl⟩
  · have hwhole : StateDocument.ofDocument (vpcOnlyDocument.dropLast ++ [rightBrace]) =
        .ok ⟨4, .ofList [("vpc_name", "v")]⟩ := by
      rw [show vpcOnlyDocument.dropLast ++ [rightBrace] = vpcOnlyDocument by decide +kernel]
      exact ofDocument_vpcOnlyDocument
    exact hcut _ _ _ hwhole (by decide)

end Provisioning
