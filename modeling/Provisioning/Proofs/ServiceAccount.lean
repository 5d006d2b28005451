import Provisioning.Proofs.Chart.Values
import Provisioning.Proofs.Rearrangement
import Provisioning.Proofs.Schema.Layout

/-!
# Accounts and their documents

Of the document of an account one part is looked at: the value of its project, if there is one. What
the document says of it is told by its layout (`ServiceAccount.Names`): the project is absent,
`null` or a text, in whatever spelling, and everything else may be anything that can be passed over.

So every document is one of three things: it names nothing that could be a project, and then it is
no document of an account; it names no project, or an empty one; or it names one, and then it is
kept as it is (`ServiceAccount.ofDocument_decides`).
-/

set_option autoImplicit false

namespace Provisioning

open Ascii Container Json

/-! ## The project in a document -/

/-- An optional text is `null` or a text, after any blanks. -/
theorem Shape.read_optional_string {depth : Nat} {place rest : Bytes} {text? : Option String} :
    Shape.string.optional.read depth place = .ok (text?, rest) ↔
      (Scalar.read (skipBlank place) = .ok (.null, rest) ∧ text? = none) ∨
        ∃ text, Scalar.read (skipBlank place) = .ok (.string text, rest) ∧ text? = some text := by
  rw [Shape.read]
  cases hblank : after? lowerN (skipBlank place) with
  | some t =>
    have hs := skipBlank_of_other (opening_of_after hblank)
    rw [hs]
    dsimp only
    constructor
    · intro h
      obtain ⟨rest', hword, h⟩ := Except.bind_eq_ok.mp h
      cases h
      exact .inl ⟨by simp [Scalar.read, hword], rfl⟩
    · rintro (⟨h, rfl⟩ | ⟨text, h, rfl⟩)
      · obtain ⟨rest', hword, h⟩ := Except.bind_eq_ok.mp h
        cases h
        rw [hword]
        rfl
      · obtain ⟨rest', hword, h⟩ := Except.bind_eq_ok.mp h
        cases h
  | none =>
    dsimp only
    constructor
    · intro h
      obtain ⟨⟨text, rest'⟩, htext, h⟩ := Except.bind_eq_ok.mp h
      cases h
      rw [Shape.string, Shape.read] at htext
      obtain ⟨x, hx, haccept⟩ := Leaf.read_eq_ok_iff.mp htext
      cases x with
      | string text' =>
        cases haccept
        exact .inr ⟨_, hx, rfl⟩
      | _ => cases haccept
    · rintro (⟨h, rfl⟩ | ⟨text, h, rfl⟩)
      · obtain ⟨t, ht⟩ := after_of_surveyed_null
          (.scalar (opening_of_read h) (Scalar.survey_of_read h))
        rw [hblank] at ht
        cases ht
      · have htext : Shape.string.read depth place = .ok (text, rest) := by
          rw [Shape.string, Shape.read]
          exact Leaf.read_eq_ok_iff.mpr ⟨.string text, h, rfl⟩
        rw [htext]
        rfl

namespace ServiceAccount

/-- What a document says of the project of an account, if it is a document of one. -/
inductive Names (document : Bytes) : Option String → Prop where
  | absent {layout : Layout} (h : LaidOut document layout) (hfits : layout.Fits 1)
      (hplaces : layout.places "project_id" 0 = []) : Names document none
  | null {layout : Layout} {place rest : Bytes} (h : LaidOut document layout)
      (hfits : layout.Fits 1) (hplaces : layout.places "project_id" 0 = [place])
      (hread : Scalar.read (skipBlank place) = .ok (.null, rest)) : Names document none
  | text {layout : Layout} {place rest : Bytes} {projectId : String} (h : LaidOut document layout)
      (hfits : layout.Fits 1) (hplaces : layout.places "project_id" 0 = [place])
      (hread : Scalar.read (skipBlank place) = .ok (.string projectId, rest)) :
      Names document (some projectId)

theorem decode_eq_ok_iff {document : Bytes} {project : Option String} :
    projectShape.decode document = .ok project ↔ Names document project := by
  rw [projectShape, Shape.decode_record_eq_ok_iff (by simp [Fields.names])]
  constructor
  · rintro ⟨layout, hlaid, hfits, hproject, -⟩
    have hproject : Presence.optional.ReadsAt Shape.string.optional (maxDepth - 1) project
      (layout.places "project_id" 0) := hproject
    cases hplaces : layout.places "project_id" 0 with
    | nil =>
      rw [hplaces] at hproject
      cases hproject
      exact .absent hlaid hfits hplaces
    | cons place others =>
      rw [hplaces] at hproject
      cases others with
      | nil =>
        obtain ⟨rest, hread⟩ := hproject
        obtain ⟨hnull, rfl⟩ | ⟨projectId, htext, rfl⟩ := Shape.read_optional_string.mp hread
        · exact .null hlaid hfits hplaces hnull
        · exact .text hlaid hfits hplaces htext
      | cons _ _ => cases hproject
  · intro h
    have hreads : ∀ {layout : Layout} {place rest : Bytes} {project : Option String},
        layout.places "project_id" 0 = [place] →
        Shape.string.optional.read (maxDepth - 1) place = .ok (project, rest) →
        Presence.optional.ReadsAt Shape.string.optional (maxDepth - 1) project
          (layout.places "project_id" 0) := by
      intro layout place rest project hplaces hread
      rw [hplaces]
      exact ⟨rest, hread⟩
    cases h with
    | absent h hfits hplaces =>
      refine ⟨_, h, hfits, ?_, trivial⟩
      rw [hplaces]
      rfl
    | null h hfits hplaces hread =>
      exact ⟨_, h, hfits, hreads hplaces (Shape.read_optional_string.mpr (.inl ⟨hread, rfl⟩)),
        trivial⟩
    | text h hfits hplaces hread =>
      exact ⟨_, h, hfits,
        hreads hplaces (Shape.read_optional_string.mpr (.inr ⟨_, hread, rfl⟩)), trivial⟩

/-! ## The account of a document -/

/-- What is made of the project that has been decoded. -/
theorem ofDocument_of_decode {document : Bytes} {project : Option String}
    (h : projectShape.decode document = .ok project) :
    ofDocument document =
      if project.getD "" = "" then .error .missingProjectId
      else .ok ⟨project.getD "", document⟩ := by
  rw [ofDocument, h]
  cases project with
  | none => rfl
  | some projectId =>
    by_cases hempty : projectId = ""
    · subst hempty
      rfl
    · simp [hempty]

/-- A document is no document of an account, or it has no project, or it is one of an account. -/
theorem ofDocument_cases (document : Bytes) :
    ((∀ project, projectShape.decode document ≠ .ok project) ∧
      ∃ detail, ofDocument document = .error (.deserialization detail)) ∨
    (∃ project, projectShape.decode document = .ok project ∧ project.getD "" = "" ∧
      ofDocument document = .error .missingProjectId) ∨
    ∃ projectId, projectShape.decode document = .ok (some projectId) ∧ projectId ≠ "" ∧
      ofDocument document = .ok ⟨projectId, document⟩ := by
  by_cases hdecoded : ∃ project, projectShape.decode document = .ok project
  · obtain ⟨project, hproject⟩ := hdecoded
    have h := ofDocument_of_decode hproject
    by_cases hempty : project.getD "" = ""
    · exact .inr (.inl ⟨project, hproject, hempty, by rw [h, if_pos hempty]⟩)
    · cases project with
      | none => exact absurd rfl hempty
      | some projectId =>
        exact .inr (.inr ⟨projectId, hproject, hempty, by rw [h, if_neg hempty]; rfl⟩)
  · have hrefused := not_exists.mp hdecoded
    exact .inl ⟨hrefused, ofDocument_of_not_decoded hrefused⟩

theorem eq_missingProjectId_iff {document : Bytes} :
    ofDocument document = .error .missingProjectId ↔
      projectShape.decode document = .ok none ∨ projectShape.decode document = .ok (some "") := by
  obtain ⟨hrefused, detail, h⟩ | ⟨project, hproject, hempty, h⟩ | ⟨projectId, hproject, hne, h⟩ :=
    ofDocument_cases document
  · rw [h]
    refine ⟨nofun, ?_⟩
    rintro (hnone | hempty)
    · exact absurd hnone (hrefused none)
    · exact absurd hempty (hrefused (some ""))
  · refine iff_of_true h ?_
    cases project with
    | none => exact .inl hproject
    | some projectId =>
      have hempty : projectId = "" := hempty
      exact .inr (hempty ▸ hproject)
  · rw [h, hproject]
    refine ⟨nofun, ?_⟩
    rintro (hnone | hempty)
    · cases hnone
    · cases hempty
      exact absurd rfl hne

theorem exists_deserialization_iff {document : Bytes} :
    (∃ detail, ofDocument document = .error (.deserialization detail)) ↔
      ∀ project, projectShape.decode document ≠ .ok project := by
  constructor
  · rintro ⟨detail, h⟩ project hproject
    rw [ofDocument_of_decode hproject] at h
    split at h <;> cases h
  · exact ofDocument_of_not_decoded

/-- **Every document is decided, and an account keeps its document.** A document is decoded if it is
laid out as a record and its project, the only part that is looked at, is absent, `null` or a text
in any spelling. If it is not decoded that is the error. If it is, and its project is absent, `null`
or the empty text, the project is missing. Otherwise there is an account, with the project as it was
decoded and with the document byte for byte. There is no other outcome. So the project of an account
is not empty, the document that is kept is read as the same account, and the values of every request
have that project in their place. -/
theorem ofDocument_decides (document : Bytes) :
    (∀ project, projectShape.decode document = .ok project ↔ Names document project) ∧
    ((∃ detail, ofDocument document = .error (.deserialization detail)) ↔
      ∀ project, ¬Names document project) ∧
    (ofDocument document = .error .missingProjectId ↔
      Names document none ∨ Names document (some "")) ∧
    (∀ account, ofDocument document = .ok account ↔
      Names document (some account.projectId) ∧ account.projectId ≠ "" ∧ account.raw = document) ∧
    ((∃ detail, ofDocument document = .error (.deserialization detail)) ∨
      ofDocument document = .error .missingProjectId ∨
      ∃ account, ofDocument document = .ok account) ∧
    ∀ account, ofDocument document = .ok account →
      account.projectId ≠ "" ∧ ofDocument account.raw = .ok account ∧
      ∀ infra config cluster,
        (Chart.Values.ofRequest infra account config cluster).tree.at? ["google", "project"] =
          some (.string account.projectId) := by
  refine ⟨fun _ => decode_eq_ok_iff, ?_, ?_, ?_, ?_, ?_⟩
  · simp only [← decode_eq_ok_iff]
    exact exists_deserialization_iff
  · simp only [← decode_eq_ok_iff]
    exact eq_missingProjectId_iff
  · simp only [← decode_eq_ok_iff]
    exact fun _ => ofDocument_eq_ok_iff
  · obtain ⟨-, h⟩ | ⟨-, -, -, h⟩ | ⟨projectId, -, -, h⟩ := ofDocument_cases document
    · exact .inl h
    · exact .inr (.inl h)
    · exact .inr (.inr ⟨_, h⟩)
  · intro account h
    obtain ⟨-, hne, hraw⟩ := ofDocument_eq_ok_iff.mp h
    refine ⟨hne, by rw [hraw, h], ?_⟩
    intro infra config cluster
    exact (Chart.tells_tree infra account config cluster).project

/-- A project in escapes, behind a number that is too large for any reader. -/
def escapedDocument : Bytes :=
  Utf8.encode "\x7b\"quota\":1e999,\"project_id\" : \"\\u0070-1\"\x7d\n"

theorem ofDocument_decides_escaped :
    ofDocument escapedDocument = .ok ⟨"p-1", escapedDocument⟩ ∧
      ofDocument (ServiceAccount.mk "p-1" escapedDocument).raw = .ok ⟨"p-1", escapedDocument⟩ ∧
      (Chart.Values.ofRequest ⟨"ns", "infra", ⟨"region", none, none⟩⟩ ⟨"p-1", escapedDocument⟩
          ⟨⟨none, none, ⟨"10.250.0.0/16"⟩⟩⟩ default).tree.at? ["google", "project"] =
        some (.string "p-1") := by
  obtain ⟨hnames, -, -, hok, -, hkept⟩ := ofDocument_decides escapedDocument
  have hproject : projectShape.decode escapedDocument = .ok (some "p-1") := by decide +kernel
  have haccount := (hok ⟨"p-1", escapedDocument⟩).mpr ⟨(hnames _).mp hproject, by decide, rfl⟩
  obtain ⟨-, hagain, hvalues⟩ := hkept _ haccount
  exact ⟨haccount, hagain, hvalues _ _ _⟩

end ServiceAccount

end Provisioning
