import Provisioning.Proofs.Rearrangement
import Provisioning.Proofs.Request
import Provisioning.Proofs.Schema.Refusing
import Provisioning.Proofs.State.Selection

/-!
# Every record in either form

Each kind of record can be read from an object and from an array, and a document may mix the two
forms from record to record. For every kind it is shown that the form does not matter
(`forms_agree`). Most kinds need no assumption, since nothing in them is written as `null` unless it
is absent; a provider config may be `null` itself, and then it comes back as none. An array of the
wrong length is refused, wherever it stands (`Shape.Misfits`).

The document itself sets one bound. Readers go 127 containers deep, and a provider config that
nests so deep by itself is not read back from a request around it (`forms_disagree_deep`).
-/

set_option autoImplicit false

namespace Provisioning

open Json

/-! ## Arrays that are no records -/

/-- So many items are too few for the fields, if one for which there is none cannot be absent. -/
def Fields.TooFew : {σ γ : Type} → Fields σ γ → Nat → Prop
  | _, _, .nil, _ => False
  | _, _, .cons _ presence _ rest, 0 => presence.absent? = none ∨ rest.TooFew 0
  | _, _, .cons _ _ _ rest, n + 1 => rest.TooFew n

/-- The value is an array that cannot be read as the fields of a record, or any array where a
tagged record is expected. -/
def Shape.Misfits : {α : Type} → Shape α → Json → Prop
  | _, .record _ fields _, value =>
    ∃ xs, value = .array xs ∧ (fields.names.length < xs.length ∨ fields.TooFew xs.length)
  | _, .tagged _ _ _ _, value => ∃ xs, value = .array xs
  | _, _, _ => False

namespace Fields

theorem not_tooFew_of_defaults {expected : String} : {σ γ : Type} → {fields : Fields σ γ} →
    {index : Nat} → {g : γ} → fields.defaults expected index = .ok g → ¬fields.TooFew 0
  | _, _, nil, _, _, _ => nofun
  | _, _, cons _ presence _ rest, index, _, h => by
    rw [defaults] at h
    split at h
    · cases h
    · next b hb =>
      obtain ⟨bs, hbs, -⟩ := Except.bind_eq_ok.mp h
      rintro (hnone | hfew)
      · rw [hb] at hnone
        cases hnone
      · exact not_tooFew_of_defaults hbs hfew

theorem not_tooFew_of_ofItems {expected : String} : {σ γ : Type} → {fields : Fields σ γ} →
    {index : Nat} → {xs : List Json} → {g : γ} → fields.ofItems expected index xs = .ok (g, []) →
    ¬fields.TooFew xs.length
  | _, _, nil, _, _, _, _ => nofun
  | _, _, cons _ _ _ _, _, [], _, h => by
    rw [ofItems] at h
    obtain ⟨g, hg, -⟩ := Except.bind_eq_ok.mp h
    exact not_tooFew_of_defaults hg
  | _, _, cons _ _ _ rest, index, x :: xs, _, h => by
    rw [ofItems] at h
    obtain ⟨b, -, h⟩ := Except.bind_eq_ok.mp h
    obtain ⟨⟨bs, left⟩, hbs, h⟩ := Except.bind_eq_ok.mp h
    cases h
    have hfew := not_tooFew_of_ofItems hbs
    exact hfew

end Fields

theorem faulty_misfits : Faulty Shape.Misfits := by
  intro β shape value hbad b h
  cases shape with
  | record name fields as =>
    obtain ⟨xs, rfl, hbad⟩ := hbad
    rw [Shape.ofJson] at h
    obtain ⟨⟨g, left⟩, hg, h⟩ := Except.bind_eq_ok.mp h
    cases left with
    | nil =>
      have hlen := Fields.length_le_of_ofItems hg
      exact hbad.elim (Nat.not_lt.mpr hlen) (Fields.not_tooFew_of_ofItems hg)
    | cons _ _ => cases h
  | tagged _ _ _ _ =>
    obtain ⟨xs, rfl⟩ := hbad
    cases h
  | _ => exact hbad

/-! ## Records of all kinds -/

/-- Whatever is written of a value, with each record in it in either form, is decoded as the
value. -/
def Shape.FormsAgree {α : Type} (shape : Shape α) : Prop :=
  ∀ a value document, shape.Spells a value → Lists document value → shape.decode document = .ok a

theorem Shape.formsAgree_of_evident {α : Type} {shape : Shape α} (h : ∀ a, shape.Evident a) :
    shape.FormsAgree :=
  fun a _ _ hspells hd => shape.decode_of_spells hspells (h a) hd

theorem Shape.Plain.formsAgree {α : Type} {shape : Shape α} {n : Nat} (h : shape.Plain n) :
    shape.FormsAgree :=
  formsAgree_of_evident fun a => (h.recovers a).evident

theorem SecretReference.plain : shape.Plain maxDepth := by
  simp [shape, Shape.string, Shape.Plain, Fields.Plain, Fields.names, Leaf.text, NoFloat, maxDepth]

theorem ClusterNetworks.plain : shape.Plain maxDepth := by
  simp [shape, Cidr.shape, Shape.Plain, Fields.Plain, Fields.names, Shape.toJson, Leaf.text,
    NoFloat, maxDepth]

theorem Vpc.plain : shape.Plain maxDepth := by
  simp [shape, Shape.string, Shape.Plain, Fields.Plain, Fields.names, Leaf.text, NoFloat, maxDepth]

theorem NetworkLayout.plain : shape.Plain maxDepth := by
  simp [shape, Vpc.shape, Cidr.shape, Shape.string, Shape.Plain, Fields.Plain, Fields.names,
    Shape.toJson, Leaf.text, NoFloat, maxDepth]

theorem Subnet.plain : shape.Plain maxDepth := by
  simp [shape, SubnetPurpose.shape, Shape.string, Shape.Plain, Fields.Plain, Fields.names,
    Leaf.text, NoFloat, maxDepth]

theorem ProvisionedNetworks.plain : shape.Plain maxDepth := by
  simp [shape, Vpc.shape, Subnet.shape, SubnetPurpose.shape, Shape.string, Shape.Plain,
    Fields.Plain, Fields.names, Leaf.text, NoFloat, maxDepth]

theorem ServiceAccount.plain : projectShape.Plain maxDepth := by
  simp [projectShape, Shape.string, Shape.Plain, Fields.Plain, Fields.names, Shape.toJson,
    Leaf.text, NoFloat, maxDepth]

namespace StateFile

theorem Output.evident (output : Output) : Output.shape.Evident output := by
  simp [Output.shape, Shape.Evident, Fields.Evident, Fields.names]

theorem Module.evident (root : Module) : Module.shape.Evident root := by
  simp [Module.shape, Shape.Evident, Fields.Evident, Fields.names, Output.evident]

theorem evident (file : StateFile) : shape.Evident file := by
  simp [shape, Shape.Evident, Fields.Evident, Fields.names, Output.evident, Module.evident]

end StateFile

namespace Infrastructure

theorem Spec.evident {spec : Spec} (h : spec.providerConfig ≠ some .null) :
    Spec.shape.Evident spec := by
  obtain ⟨region, secretRef, config⟩ := spec
  have hsecret : (Shape.optional SecretReference.shape).Evident secretRef := by
    cases secretRef with
    | none => trivial
    | some secret => exact ⟨nofun, (SecretReference.plain.recovers secret).evident⟩
  have hconfig : Shape.tree.optional.Evident config := by
    cases config with
    | none => trivial
    | some tree => exact ⟨fun hnull => h (congrArg some hnull), trivial⟩
  exact ⟨by simp [Fields.names], trivial, hsecret, hconfig, trivial⟩

theorem evident {infra : Infrastructure} (h : infra.spec.providerConfig ≠ some .null) :
    shape.Evident infra :=
  ⟨by simp [Fields.names], trivial, trivial, Spec.evident h, trivial⟩

/-- The same specification with another provider config. -/
def Spec.withConfig (spec : Spec) (config : Option Json) : Spec :=
  { spec with providerConfig := config }

/-- A provider config that is `null` is written as one that is absent. -/
theorem Spec.spells_withConfig_none {spec : Spec} {value : Json}
    (hnull : spec.providerConfig = some .null) (h : Spec.shape.Spells spec value) :
    Spec.shape.Spells (spec.withConfig none) value := by
  obtain ⟨region, secretRef, config⟩ := spec
  subst hnull
  refine Shape.spells_record_of_covers ?_ h
  refine Fields.covers_cons id (fun _ => id) (Fields.covers_cons id (fun _ => id) ?_)
  exact Fields.covers_cons nofun (fun _ => tree_eq_null_iff.mp) (Fields.covers_refl _ _)

theorem spells_withConfig_none {infra : Infrastructure} {value : Json}
    (hnull : infra.spec.providerConfig = some .null) (h : shape.Spells infra value) :
    shape.Spells (infra.withConfig none) value := by
  refine Shape.spells_record_of_covers ?_ h
  refine Fields.covers_cons id (fun _ => id) (Fields.covers_cons id (fun _ => id) ?_)
  exact Fields.covers_cons nofun (fun _ => Spec.spells_withConfig_none hnull)
    (Fields.covers_refl _ _)

end Infrastructure

/-! ## All records -/

/-- What is written of a request or of its desired state is decoded as that, but for a provider
config that is `null`. -/
structure RequestFormsAgree : Prop where
  request : ∀ (infra : Infrastructure) (value : Json) (document : Bytes),
    Infrastructure.shape.Spells infra value → Lists document value →
    (infra.spec.providerConfig ≠ some .null → Infrastructure.shape.decode document = .ok infra) ∧
    (infra.spec.providerConfig = some .null →
      Infrastructure.shape.decode document = .ok (infra.withConfig none))
  spec : ∀ (spec : Infrastructure.Spec) (value : Json) (document : Bytes),
    Infrastructure.Spec.shape.Spells spec value → Lists document value →
    (spec.providerConfig ≠ some .null → Infrastructure.Spec.shape.decode document = .ok spec) ∧
    (spec.providerConfig = some .null →
      Infrastructure.Spec.shape.decode document = .ok (spec.withConfig none))

theorem requestFormsAgree : RequestFormsAgree where
  request infra value document hspells hd := by
    constructor
    · intro h
      exact Infrastructure.shape.decode_of_spells hspells (Infrastructure.evident h) hd
    · intro h
      exact Infrastructure.shape.decode_of_spells (Infrastructure.spells_withConfig_none h hspells)
        (Infrastructure.evident nofun) hd
  spec spec value document hspells hd := by
    constructor
    · intro h
      exact Infrastructure.Spec.shape.decode_of_spells hspells (Infrastructure.Spec.evident h) hd
    · intro h
      exact Infrastructure.Spec.shape.decode_of_spells
        (Infrastructure.Spec.spells_withConfig_none h hspells)
        (Infrastructure.Spec.evident nofun) hd

/-- What is written of any other record is decoded as that. -/
structure RecordFormsAgree : Prop where
  secretReference : SecretReference.shape.FormsAgree
  cluster : Cluster.shape.FormsAgree
  clusterNetworks : ClusterNetworks.shape.FormsAgree
  providerConfig : ProviderConfig.shape.FormsAgree
  networkLayout : NetworkLayout.shape.FormsAgree
  vpc : Vpc.shape.FormsAgree
  provisionedNetworks : ProvisionedNetworks.shape.FormsAgree
  subnet : Subnet.shape.FormsAgree
  location : Chart.Location.shape.FormsAgree
  account : ServiceAccount.projectShape.FormsAgree
  status : Status.shape.FormsAgree
  file : StateFile.shape.FormsAgree
  module : StateFile.Module.shape.FormsAgree
  output : StateFile.Output.shape.FormsAgree

theorem recordFormsAgree : RecordFormsAgree where
  secretReference := SecretReference.plain.formsAgree
  cluster := Cluster.plain.formsAgree
  clusterNetworks := ClusterNetworks.plain.formsAgree
  providerConfig := ProviderConfig.plain.formsAgree
  networkLayout := NetworkLayout.plain.formsAgree
  vpc := Vpc.plain.formsAgree
  provisionedNetworks := ProvisionedNetworks.plain.formsAgree
  subnet := Subnet.plain.formsAgree
  location := Chart.Location.plain.formsAgree
  account := ServiceAccount.plain.formsAgree
  status := Status.plain.formsAgree
  file := Shape.formsAgree_of_evident StateFile.evident
  module := Shape.formsAgree_of_evident StateFile.Module.evident
  output := Shape.formsAgree_of_evident StateFile.Output.evident

/-- There are documents that list what is written. -/
structure FormsListed : Prop where
  plain : ∀ {α : Type} (shape : Shape α), shape.Plain maxDepth → ∀ a value, shape.Spells a value →
    Lists (Utf8.encode value.text) value
  exact : ∀ value : Json, value.Exact → value.depth ≤ 127 → Lists (Utf8.encode value.text) value

theorem formsListed : FormsListed where
  plain _ hplain _ _ hspells := hplain.lists_of_spells hspells
  exact _ := lists_text

/-- A document with an array that has not as many items as its record has fields is refused, and one
with an array in place of a status is. -/
structure MisfitsRefused : Prop where
  shape : ∀ {α : Type} (shape : Shape α) (document : Bytes),
    (∀ value, Surveys document value → shape.Somewhere Shape.Misfits value) →
    ∃ detail, shape.decode document = .error (.deserialization detail)
  state : ∀ document : Bytes,
    (∀ value, Surveys document value → StateFile.shape.Somewhere Shape.Misfits value) →
    ∃ detail, StateDocument.ofDocument document = .error (.deserialization detail)
  account : ∀ document : Bytes,
    (∀ value, Surveys document value → ServiceAccount.projectShape.Somewhere Shape.Misfits value) →
    ∃ detail, ServiceAccount.ofDocument document = .error (.deserialization detail)
  status : ∀ (document : Bytes) (items : List Json), Surveys document (.array items) →
    ∃ detail, Status.shape.decode document = .error (.deserialization detail)

theorem misfitsRefused : MisfitsRefused where
  shape _ _ h := Shape.exists_decode_error (Shape.decode_ne_ok_of_somewhere faulty_misfits h)
  state _ h := StateDocument.ofDocument_of_not_decoded
    (Shape.decode_ne_ok_of_somewhere faulty_misfits h)
  account _ h := ServiceAccount.ofDocument_of_not_decoded
    (Shape.decode_ne_ok_of_somewhere faulty_misfits h)
  status document items hvalue := by
    refine Shape.exists_decode_error (Shape.decode_ne_ok_of_somewhere faulty_misfits ?_)
    intro value hvalue'
    rw [hvalue'.unique hvalue]
    exact .inl ⟨items, rfl⟩

/-- **Every record in either form.** Take a value of any kind and write it, each record in it by
itself, as an object or as the array of its fields, with `null` for what is absent, and leaving out
what is at its default: any field of an object, and of an array those at the end. A document that
lists what is written is decoded as the value. The one exception is a provider config that is
`null`, which comes back as none in either form. A status has to be an object, but what is in it
need not. Of most kinds everything that is written has such a document; of any kind what is written
has one that nests at most 127 containers and whose numbers are exact. An array that has more items
than there are fields, or none for a field without a default, is refused wherever a record is
expected, and any array where a status is. -/
theorem forms_agree : RequestFormsAgree ∧ RecordFormsAgree ∧ FormsListed ∧ MisfitsRefused :=
  ⟨requestFormsAgree, recordFormsAgree, formsListed, misfitsRefused⟩

/-- A status of two subnets. -/
def twoSubnets : Status := ⟨⟨"a", "k"⟩, ⟨⟨"v"⟩, [⟨.nodes, "n"⟩, ⟨.internal, "i"⟩]⟩, "e"⟩

/-- The status as an object, its networks as an array, and of its subnets one as each. -/
def twoSubnetsMixed : Json :=
  .object [
    ("apiVersion", .string "a"),
    ("kind", .string "k"),
    ("networks", .array [
      .object [("name", .string "v")],
      .array [
        .array [.string "nodes", .string "n"],
        .object [("purpose", .string "internal"), ("name", .string "i")]]]),
    ("serviceAccountEmail", .string "e")]

theorem spells_twoSubnetsMixed : Status.shape.Spells twoSubnets twoSubnetsMixed := by
  have hvpc : Vpc.shape.Spells ⟨"v"⟩ (.object [("name", .string "v")]) :=
    .inl ⟨_, rfl, .cons rfl rfl⟩
  have hnodes : Subnet.shape.Spells ⟨.nodes, "n"⟩ (.array [.string "nodes", .string "n"]) :=
    .inr ⟨_, rfl, .cons rfl (.cons rfl rfl)⟩
  have hinternal : Subnet.shape.Spells ⟨.internal, "i"⟩
      (.object [("purpose", .string "internal"), ("name", .string "i")]) :=
    .inl ⟨_, rfl, .cons rfl (.cons rfl rfl)⟩
  have hnetworks :
      ProvisionedNetworks.shape.Spells twoSubnets.networks (.array [_, .array [_, _]]) :=
    .inr ⟨_, rfl, .cons hvpc (.cons ⟨_, rfl, .cons hnodes (.cons hinternal .nil)⟩ rfl)⟩
  exact ⟨[_, _], [_, _], rfl, .cons rfl (.cons rfl rfl), .cons hnetworks (.cons rfl rfl)⟩

/-- A request in both forms, with `null` as its provider config. -/
def nullRequest : Bytes :=
  Utf8.encode "[\"n\", \"i\", \x7b\"region\": \"r\", \"providerConfig\": null\x7d]"

theorem lists_nullRequest :
    Lists nullRequest (.array [.string "n", .string "i",
      .object [("region", .string "r"), ("providerConfig", .null)]]) := by
  decide +kernel

theorem forms_agree_mixed :
    Status.shape.decode (Utf8.encode twoSubnetsMixed.text) = .ok twoSubnets ∧
      Chart.Location.shape.decode (Utf8.encode "[]") = .ok default ∧
      Infrastructure.shape.decode nullRequest = .ok ⟨"n", "i", ⟨"r", none, none⟩⟩ ∧
      (∃ detail, Vpc.shape.decode (Utf8.encode "[\"v\", null]") =
        .error (.deserialization detail)) ∧
      ∃ detail, Cluster.shape.decode (Utf8.encode "[]") = .error (.deserialization detail) := by
  obtain ⟨hrequest, hrecord, hlisted, hmisfits⟩ := forms_agree
  have hnone : Lists (Utf8.encode "[]") (.array []) := by decide +kernel
  have htwo : Lists (Utf8.encode "[\"v\", null]") (.array [.string "v", .null]) := by
    decide +kernel
  refine ⟨?_, ?_, ?_, ?_, ?_⟩
  · exact hrecord.status _ _ _ spells_twoSubnetsMixed
      (hlisted.plain _ Status.plain _ _ spells_twoSubnetsMixed)
  · exact hrecord.location default _ _ (.inr ⟨[], rfl, .inl ⟨rfl, rfl, rfl, trivial⟩⟩) hnone
  · have hspec : Infrastructure.Spec.shape.Spells ⟨"r", none, some .null⟩
        (.object [("region", .string "r"), ("providerConfig", .null)]) :=
      .inl ⟨_, rfl, .cons rfl (.inl ⟨rfl, .cons rfl rfl⟩)⟩
    exact (hrequest.request ⟨"n", "i", "r", none, some .null⟩ _ _
      (.inr ⟨_, rfl, .cons rfl (.cons rfl (.cons hspec rfl))⟩) lists_nullRequest).2 rfl
  · refine hmisfits.shape _ _ fun value hvalue => ?_
    rw [hvalue.unique htwo.surveys]
    exact .inl ⟨_, rfl, .inl (by decide)⟩
  · refine hmisfits.shape _ _ fun value hvalue => ?_
    rw [hvalue.unique hnone.surveys]
    exact .inl ⟨_, rfl, .inr (.inl rfl)⟩

/-- So many arrays inside each other. -/
def Json.nested : Nat → Json
  | 0 => .null
  | n + 1 => .array [nested n]

theorem Json.depth_nested (n : Nat) : (nested n).depth = n := by
  induction n with
  | zero => rw [nested, depth_scalar]
  | succ n ih => simp [nested, depth, depthItems, ih]

theorem Json.tree_nested (n : Nat) : (nested n).tree = nested n := by
  induction n with
  | zero => rw [nested, tree]
  | succ n ih => rw [nested, tree, treeItems, treeItems, ih]

theorem Json.exact_nested (n : Nat) : (nested n).Exact := by
  induction n with
  | zero => exact everywhere_scalar.mpr trivial
  | succ n ih => exact everywhere_array.mpr ⟨trivial, fun x hx => List.mem_singleton.mp hx ▸ ih⟩

/-- A request whose provider config alone nests as deep as a document may, but for one. -/
def deepRequest : Infrastructure := ⟨"n", "i", "r", none, some (.nested 126)⟩

/-- All of it as arrays. -/
def deepRequestItems : Json :=
  .array [.string "n", .string "i", .array [.string "r", .null, .nested 126]]

/-- Without a bound on the nesting a value is not always decoded from what is written of it. -/
theorem forms_disagree_deep :
    deepRequest.spec.providerConfig ≠ some .null ∧
      Infrastructure.shape.Spells deepRequest deepRequestItems ∧ deepRequestItems.Exact ∧
      Infrastructure.shape.decode (Utf8.encode deepRequestItems.text) ≠ .ok deepRequest := by
  refine ⟨nofun, ?_, ?_, ?_⟩
  · have hspec : Infrastructure.Spec.shape.Spells deepRequest.spec
        (.array [.string "r", .null, .nested 126]) :=
      .inr ⟨_, rfl, .cons rfl (.cons rfl (.cons (tree_nested 126) rfl))⟩
    exact .inr ⟨_, rfl, .cons rfl (.cons rfl (.cons hspec rfl))⟩
  · simpa [deepRequestItems, Exact, NoFloat] using exact_nested 126
  · intro h
    have hdepth := (Infrastructure.providerConfig_of_decode h rfl).2.2
    rw [depth_nested] at hdepth
    exact absurd hdepth (by decide)

end Provisioning
