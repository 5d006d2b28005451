import Provisioning.Proofs.Rearrangement
import Provisioning.Proofs.Request
import Provisioning.Proofs.Schema.Repeating
import Provisioning.Proofs.Schema.Skimming
import Provisioning.Proofs.State.Selection

/-!
# Names that are repeated

A document may give a name twice in one object. What that does depends on what the name is. A field
of a record must not be repeated, at any depth and whatever its values are; the name of a member
that nobody asks for may be. Where names are data, in the outputs of a state and in a value of
unknown shape, the last value counts.

Acceptance is a question of all the document, so a repeated field is told from what the document
surveys, which every accepted document does. That a repetition does no harm is said of what the
document shows to its shape, for nothing else need be sound.
-/

set_option autoImplicit false

namespace Provisioning

open Json

/-! ## Fields and members of other names -/

section

variable {α : Type} {shape : Shape α} {document document' : Bytes} {value value' settled : Json}

/-- A document that repeats a field, in whatever record, holds no value of its shape. -/
theorem Shape.decode_ne_ok_of_repeatsField
    (h : ∀ value, Surveys document value → shape.Somewhere Shape.RepeatsField value) (a : α) :
    shape.decode document ≠ .ok a :=
  decode_ne_ok_of_somewhere faulty_repeatsField h a

/-- Documents that show two arrangements of a value are accepted alike. -/
theorem Shape.Rearranged.decode_eq_ok_iff_of_shows (h : shape.Rearranged value value')
    (hd : shape.Shows document value) (hd' : shape.Shows document' value') {a : α} :
    shape.decode document' = .ok a ↔ shape.decode document = .ok a := by
  rw [hd'.decode_eq_ok_iff, hd.decode_eq_ok_iff]
  exact h.ofJson_eq_ok_iff

/-- A document is accepted if the settled form of what it shows is, and nothing is spoilt. -/
theorem Shape.decode_eq_ok_iff_of_settled (hd : shape.Shows document value)
    (h : Settled value settled) {a : α} :
    shape.decode document = .ok a ↔
      shape.ofJson settled = .ok a ∧ ¬shape.Somewhere Shape.Spoils value := by
  rw [hd.decode_eq_ok_iff]
  exact Shape.ofJson_eq_ok_iff_of_settled h

end

/-! ## Names that are data -/

/-- The tree of an object has the last value of each name, as a tree. -/
theorem Json.exists_tree_object (ms : List (String × Json)) :
    ∃ t : Table Json, (object ms).tree = ofTable t ∧
      ∀ name, t.get? name = (last? name ms).map tree := by
  refine ⟨_, rfl, ?_⟩
  intro name
  rw [Table.get?_ofList, treeMembers_eq_map, last?_map]

namespace Infrastructure

/-- The provider config of a request, as it is written. -/
def writtenConfig? (request : Json) : Option Json :=
  ((request.parts "spec" 2).head?.bind fun spec =>
    (spec.parts "providerConfig" 2).head?).bind Json.kept

theorem eq_kept_of_ofJson {config : Option Json} {value : Json}
    (h : Shape.tree.optional.ofJson value = .ok config) : config = value.kept := by
  by_cases hnull : value = .null
  · subst hnull
    cases h
    rfl
  · rw [Shape.ofJson_optional hnull, Shape.ofJson] at h
    cases h
    exact (Json.kept_of_ne_null hnull).symm

/-- The provider config that has been read is the one that is written. -/
theorem writtenConfig?_of_ofJson {request : Json} {infra : Infrastructure}
    (h : shape.ofJson request = .ok infra) :
    infra.spec.providerConfig = writtenConfig? request := by
  obtain ⟨-, -, hspec, -⟩ := Shape.reads_of_ofJson_record (by simp [Fields.names]) h
  obtain ⟨spec, hpart, hspec⟩ := Presence.exists_of_reads_required hspec
  obtain ⟨-, -, hconfig, -⟩ := Shape.reads_of_ofJson_record (by simp [Fields.names]) hspec
  rw [writtenConfig?, hpart]
  rcases hconfig.cases with ⟨hnone, habsent⟩ | ⟨config, hsome, hconfig⟩
  · rw [List.head?_cons, Option.bind_some, hnone]
    exact (Option.some.inj habsent).symm
  · rw [List.head?_cons, Option.bind_some, hsome]
    exact eq_kept_of_ofJson hconfig

end Infrastructure

/-! ## What repetitions do -/

/-- A document that repeats a field, in whatever record of it, is refused. -/
structure RepeatedFieldRefused (document : Bytes) : Prop where
  shape : ∀ {α : Type} (shape : Shape α),
    (∀ value, Surveys document value → shape.Somewhere Shape.RepeatsField value) →
    ∃ detail, shape.decode document = .error (.deserialization detail)
  state : (∀ value, Surveys document value →
      StateFile.shape.Somewhere Shape.RepeatsField value) →
    ∃ detail, StateDocument.ofDocument document = .error (.deserialization detail)
  account : (∀ value, Surveys document value →
      ServiceAccount.projectShape.Somewhere Shape.RepeatsField value) →
    ∃ detail, ServiceAccount.ofDocument document = .error (.deserialization detail)

theorem repeatedFieldRefused (document : Bytes) : RepeatedFieldRefused document where
  shape _ h := Shape.exists_decode_error (Shape.decode_ne_ok_of_repeatsField h)
  state h := StateDocument.ofDocument_of_not_decoded (Shape.decode_ne_ok_of_repeatsField h)
  account h := ServiceAccount.ofDocument_of_not_decoded (Shape.decode_ne_ok_of_repeatsField h)

/-- Members that are no fields may be repeated and added, and stand in any order. -/
structure OtherMembersIdle (document : Bytes) : Prop where
  shape : ∀ {α : Type} (shape : Shape α) (document' : Bytes) (value value' : Json),
    shape.Shows document value → shape.Shows document' value' → shape.Rearranged value value' →
    ∀ a, shape.decode document' = .ok a ↔ shape.decode document = .ok a
  state : ∀ (document' : Bytes) (value value' : Json),
    StateFile.shape.Shows document value → StateFile.shape.Shows document' value' →
    StateFile.shape.Rearranged value value' →
    ∀ state, StateDocument.ofDocument document' = .ok state ↔
      StateDocument.ofDocument document = .ok state
  account : ∀ (document' : Bytes) (value value' : Json),
    ServiceAccount.projectShape.Shows document value →
    ServiceAccount.projectShape.Shows document' value' →
    ServiceAccount.projectShape.Rearranged value value' →
    ∀ projectId, ServiceAccount.ofDocument document' = .ok ⟨projectId, document'⟩ ↔
      ServiceAccount.ofDocument document = .ok ⟨projectId, document⟩

theorem otherMembersIdle (document : Bytes) : OtherMembersIdle document where
  shape _ _ _ _ hd hd' h _ := h.decode_eq_ok_iff_of_shows hd hd'
  state _ _ _ hd hd' h _ :=
    StateDocument.ofDocument_congr fun _ => h.decode_eq_ok_iff_of_shows hd hd'
  account _ _ _ hd hd' h _ :=
    ServiceAccount.ofDocument_congr fun _ => h.decode_eq_ok_iff_of_shows hd hd'

/-- Where names are data the last value of each counts: in the outputs of a state, in the provider
config of a request, and in every object of a value of unknown shape. A document is accepted if and
only if it is with these values only, and spoils nothing. -/
structure LastValueCounts (document : Bytes) : Prop where
  settled : ∀ {α : Type} (shape : Shape α) (value settled : Json), shape.Shows document value →
    Settled value settled → ∀ a, shape.decode document = .ok a ↔
      shape.ofJson settled = .ok a ∧ ¬shape.Somewhere Shape.Spoils value
  output : ∀ (state : StateDocument) (value : Json),
    StateDocument.ofDocument document = .ok state → Surveys document value →
    ∀ name, state.output? name = ((last? name (StateFile.writtenOutputs state.version value)).bind
      StateFile.Output.written?).map fun v => StateFile.Output.text ⟨v⟩
  providerConfig : ∀ (infra : Infrastructure) (value : Json),
    Infrastructure.shape.decode document = .ok infra → Surveys document value →
    infra.spec.providerConfig = Infrastructure.writtenConfig? value
  tree : ∀ ms : List (String × Json), ∃ t : Table Json, (Json.object ms).tree = .ofTable t ∧
    ∀ name, t.get? name = (last? name ms).map Json.tree

theorem lastValueCounts (document : Bytes) : LastValueCounts document where
  settled _ _ _ hd h _ := Shape.decode_eq_ok_iff_of_settled hd h
  output _ _ h hvalue := StateDocument.output?_of_survey h hvalue
  providerConfig _ _ h hvalue :=
    Infrastructure.writtenConfig?_of_ofJson (Infrastructure.shape.ofJson_of_survey h hvalue)
  tree := Json.exists_tree_object

/-- **What a repeated name does.** A document that repeats a field is refused as no value of its
kind, whichever record of it does so and whatever the values are. This is so for all that is decoded
by its shape, with the fields of a tag counted among those of its record, for a state and for an
account. A member under a name that is no field may be repeated, or be added in the first place: the
document is accepted as before and says the same. All in all, a document is accepted if and only if
it spoils nothing and would be accepted with the last member of each name only. So an output that is
repeated has its last value, and so has every name inside an output or a provider config. -/
theorem repetitions_told_apart (document : Bytes) :
    RepeatedFieldRefused document ∧ OtherMembersIdle document ∧ LastValueCounts document :=
  ⟨repeatedFieldRefused document, otherMembersIdle document, lastValueCounts document⟩

/-- A status with two kinds, of which the second is none. -/
def kindTwice : Bytes :=
  Utf8.encode ("\x7b\"apiVersion\": \"a\", \"kind\": \"k\", \"networks\": " ++
    "\x7b\"vpc\": \x7b\"name\": \"v\"\x7d, \"subnets\": []\x7d, " ++
    "\"serviceAccountEmail\": \"e\", \"kind\": null\x7d")

/-- A provider config in which the absence of a network is said twice. -/
def vpcTwice : Bytes :=
  Utf8.encode "\x7b\"networks\": \x7b\"vpc\": null, \"worker\": \"w\", \"v\\u0070c\": null\x7d\x7d"

/-- A provider config with a member that is no field. -/
def zoneOnce : Bytes :=
  Utf8.encode "\x7b\"networks\": \x7b\"worker\": \"w\"\x7d, \"zone\": 1\x7d"

/-- The same with that member twice, once with a number that no reader would keep. -/
def zoneTwice : Bytes :=
  Utf8.encode "\x7b\"zone\": [1e999], \"networks\": \x7b\"worker\": \"w\"\x7d, \"zone\": 1\x7d"

/-- A state with two outputs of one name. -/
def outputTwice : Bytes :=
  Utf8.encode ("\x7b\"version\": 4, \"outputs\": " ++
    "\x7b\"vpc_name\": \x7b\"value\": \"u\"\x7d, \"vpc_name\": \x7b\"value\": \"v\"\x7d\x7d\x7d")

theorem lists_kindTwice :
    Lists kindTwice (.object [("apiVersion", .string "a"), ("kind", .string "k"),
      ("networks", .object [("vpc", .object [("name", .string "v")]), ("subnets", .array [])]),
      ("serviceAccountEmail", .string "e"), ("kind", .null)]) := by
  decide +kernel

theorem lists_vpcTwice :
    Lists vpcTwice
      (.object [("networks", .object [("vpc", .null), ("worker", .string "w"),
        ("vpc", .null)])]) := by
  decide +kernel

theorem shows_zoneOnce :
    ProviderConfig.shape.Shows zoneOnce
      (.object [("networks", .object [("worker", .string "w")]), ("zone", .null)]) := by
  decide +kernel

theorem shows_zoneTwice :
    ProviderConfig.shape.Shows zoneTwice
      (.object [("zone", .null), ("networks", .object [("worker", .string "w")]),
        ("zone", .null)]) := by
  decide +kernel

theorem lists_outputTwice :
    Lists outputTwice
      (.object [("version", .integer (.ofUInt64 4)), ("outputs", .object [
        ("vpc_name", .object [("value", .string "u")]),
        ("vpc_name", .object [("value", .string "v")])])]) := by
  decide +kernel

theorem repetitions_told_apart_twice :
    (∃ detail, Status.shape.decode kindTwice = .error (.deserialization detail)) ∧
      (∃ detail, ProviderConfig.shape.decode vpcTwice = .error (.deserialization detail)) ∧
      ProviderConfig.shape.decode zoneTwice = .ok ⟨⟨none, none, ⟨"w"⟩⟩⟩ ∧
      ∃ state, StateDocument.ofDocument outputTwice = .ok state ∧
        state.output? "vpc_name" = some "v" := by
  obtain ⟨hkind, -⟩ := repetitions_told_apart kindTwice
  obtain ⟨hvpc, -⟩ := repetitions_told_apart vpcTwice
  obtain ⟨-, hzone, -⟩ := repetitions_told_apart zoneOnce
  obtain ⟨-, -, houtput⟩ := repetitions_told_apart outputTwice
  refine ⟨hkind.shape _ ?_, hvpc.shape _ ?_, ?_, ?_⟩
  · intro value hvalue
    rw [hvalue.unique lists_kindTwice.surveys]
    exact .inl ⟨_, rfl, "kind", by decide, by decide⟩
  · intro value hvalue
    rw [hvalue.unique lists_vpcTwice.surveys]
    -- The fault is in the networks, which are the first member.
    refine .inr (.inr ⟨_, rfl, _, List.mem_cons_self, ?_⟩)
    exact .inl ⟨_, rfl, "vpc", by decide, by decide⟩
  · refine (hzone.shape _ _ _ _ shows_zoneOnce shows_zoneTwice ?_ _).mpr (by decide +kernel)
    refine Shape.rearranged_record_iff.mpr
      ⟨_, [("zone", .null)], .refl (Fields.revisedMember_refl _ _) _, by decide, ?_⟩
    exact (List.perm_append_singleton _ _).symm
  · have hfile := (StateFile.shape.decode_eq_ok_iff lists_outputTwice).mpr rfl
    have h := StateDocument.ofDocument_eq_ok_iff.mpr ⟨_, _, hfile, rfl, rfl⟩
    exact ⟨_, h, houtput.output _ _ h lists_outputTwice.surveys "vpc_name"⟩

end Provisioning
