import Provisioning.Proofs.Forms
import Provisioning.Proofs.ProviderConfig
import Provisioning.Proofs.Repetition
import Provisioning.Proofs.Schema.Thinning

/-!
# Absent or `null`

A network to reuse, an internal subnet, the ranges of a cluster, the secret and the provider config
of a request and the project of an account may each be left out, and `null` means the same. So
members of these names that are `null` can be taken out of a document or be put into it, in any
record that may have them (`Shape.NullIsAbsence`). Conversely only `null` means so: whatever else is
given, an empty text for one, is there (`Json.Gives`).

It is different where an absent field has a default, as in a state and in the location of a chart.
There `null` is no value of the field and is refused; the default itself may be left out.
-/

set_option autoImplicit false

namespace Provisioning

open Json

/-! ## Optional fields -/

/-- Documents are accepted alike, and mean the same, if the values that they denote differ in no
more than members by which a field has no value. -/
def Shape.NullIsAbsence {α : Type} (shape : Shape α) : Prop :=
  ∀ document document' value value' thinned, Denotes document value → Denotes document' value' →
    shape.Thinned value thinned → shape.Thinned value' thinned →
    ∀ a, shape.decode document' = .ok a ↔ shape.decode document = .ok a

theorem Shape.Untagged.nullIsAbsence {α : Type} {shape : Shape α} (hu : shape.Untagged) :
    shape.NullIsAbsence :=
  fun _ _ _ _ _ hd hd' h h' => decode_eq_ok_iff_of_thinned hu hd hd' h h'

theorem Infrastructure.untagged : shape.Untagged := by
  simp [shape, Spec.shape, SecretReference.shape, Shape.string, Shape.Untagged, Fields.Untagged]

theorem ProviderConfig.untagged : shape.Untagged := by
  simp [shape, NetworkLayout.shape, Vpc.shape, Cidr.shape, Shape.string, Shape.Untagged,
    Fields.Untagged]

theorem Cluster.untagged : shape.Untagged := by
  simp [shape, ClusterNetworks.shape, Cidr.shape, Shape.Untagged, Fields.Untagged]

theorem ServiceAccount.untagged : projectShape.Untagged := by
  simp [projectShape, Shape.string, Shape.Untagged, Fields.Untagged]

/-- A config inside a request is read from the tree of its value, which says what the value does if
that repeats no name. -/
theorem ProviderConfig.ofInfrastructure_eq_ok_iff_of_distinct {infra : Infrastructure}
    {value : Json} (hdistinct : value.Distinct) (h : infra.spec.providerConfig = some value.tree)
    {config : ProviderConfig} :
    ofInfrastructure infra = .ok config ↔ shape.ofJson value = .ok config := by
  rw [ProviderConfig.ofInfrastructure_of_some h, Shape.decodeTree_eq_ok_iff]
  exact ⟨shape.ofJson_settled hdistinct.settled, shape.ofJson_settled (settled_tree value)⟩

theorem ServiceAccount.ofDocument_thinned {document document' : Bytes}
    {value value' thinned : Json} (hd : Denotes document value) (hd' : Denotes document' value')
    (h : projectShape.Thinned value thinned) (h' : projectShape.Thinned value' thinned)
    (projectId : String) :
    ofDocument document' = .ok ⟨projectId, document'⟩ ↔
      ofDocument document = .ok ⟨projectId, document⟩ :=
  ofDocument_congr (untagged.nullIsAbsence _ _ _ _ _ hd hd' h h')

theorem ProviderConfig.ofInfrastructure_thinned {infra infra' : Infrastructure}
    {value value' thinned : Json} (hdistinct : value.Distinct) (hdistinct' : value'.Distinct)
    (htree : infra.spec.providerConfig = some value.tree)
    (htree' : infra'.spec.providerConfig = some value'.tree) (h : shape.Thinned value thinned)
    (h' : shape.Thinned value' thinned) (config : ProviderConfig) :
    ofInfrastructure infra' = .ok config ↔ ofInfrastructure infra = .ok config := by
  rw [ofInfrastructure_eq_ok_iff_of_distinct hdistinct htree,
    ofInfrastructure_eq_ok_iff_of_distinct hdistinct' htree', ← Except.toOption_eq_some_iff,
    ← Except.toOption_eq_some_iff, ← h.toOption_ofJson, ← h'.toOption_ofJson]

/-! ## What is given -/

/-- There is a value other than `null` where a record has a field. -/
def Json.Gives (value : Json) (name : String) (index : Nat) : Prop :=
  ∃ part ∈ value.parts name index, part ≠ .null

theorem Json.gives_object {members : List (String × Json)} {name : String} {index : Nat} :
    (object members).Gives name index ↔ ∃ part, (name, part) ∈ members ∧ part ≠ .null := by
  simp [Gives, parts, named]

/-- An optional field has a value if and only if it is given one. -/
theorem Presence.isSome_iff_of_reads {β : Type} {inner : Shape β} {b : Option β} {value : Json}
    {name : String} {index : Nat}
    (h : Presence.optional.Reads inner.optional b (value.parts name index)) :
    b.isSome ↔ value.Gives name index := by
  rw [Gives]
  rcases h.cases with ⟨hnone, habsent⟩ | ⟨part, hpart, hpresent⟩
  · cases habsent
    simp [hnone]
  · rw [hpart]
    by_cases hnull : part = .null
    · subst hnull
      cases hpresent
      simp
    · rw [Shape.ofJson_optional hnull] at hpresent
      obtain ⟨a, -, h⟩ := Except.bind_eq_ok.mp hpresent
      cases h
      simp [hnull]

/-- A provider config has what is given in its networks. -/
structure ProviderConfig.Follows (config : ProviderConfig) (networks : Json) : Prop where
  vpc : config.networks.vpc.isSome ↔ networks.Gives "vpc" 0
  internal : config.hasInternal ↔ networks.Gives "internal" 1

/-- A cluster has the ranges that are given in its networks. -/
structure Cluster.Follows (cluster : Cluster) (networks : Json) : Prop where
  pods : cluster.networks.pods.isSome ↔ networks.Gives "pods" 0
  services : cluster.networks.services.isSome ↔ networks.Gives "services" 1

/-- A request has what is given in its desired state. -/
structure Infrastructure.Follows (infra : Infrastructure) (spec : Json) : Prop where
  secretRef : infra.spec.secretRef.isSome ↔ spec.Gives "secretRef" 1
  providerConfig : infra.spec.providerConfig.isSome ↔ spec.Gives "providerConfig" 2

theorem ProviderConfig.follows_of_ofJson {value : Json} {config : ProviderConfig}
    (h : shape.ofJson value = .ok config) :
    ∃ networks, value.parts "networks" 0 = [networks] ∧ config.Follows networks := by
  obtain ⟨hnetworks, -⟩ := Shape.reads_of_ofJson_record (by simp [Fields.names]) h
  obtain ⟨networks, hpart, hnetworks⟩ := Presence.exists_of_reads_required hnetworks
  obtain ⟨hvpc, hinternal, -⟩ := Shape.reads_of_ofJson_record (by simp [Fields.names]) hnetworks
  exact ⟨networks, hpart, Presence.isSome_iff_of_reads hvpc,
    Presence.isSome_iff_of_reads hinternal⟩

theorem Cluster.follows_of_ofJson {value : Json} {cluster : Cluster}
    (h : shape.ofJson value = .ok cluster) :
    ∃ networks, value.parts "networks" 0 = [networks] ∧ cluster.Follows networks := by
  obtain ⟨hnetworks, -⟩ := Shape.reads_of_ofJson_record (by simp [Fields.names]) h
  obtain ⟨networks, hpart, hnetworks⟩ := Presence.exists_of_reads_required hnetworks
  obtain ⟨hpods, hservices, -⟩ := Shape.reads_of_ofJson_record (by simp [Fields.names]) hnetworks
  exact ⟨networks, hpart, Presence.isSome_iff_of_reads hpods,
    Presence.isSome_iff_of_reads hservices⟩

theorem Infrastructure.follows_of_ofJson {value : Json} {infra : Infrastructure}
    (h : shape.ofJson value = .ok infra) :
    ∃ spec, value.parts "spec" 2 = [spec] ∧ infra.Follows spec := by
  obtain ⟨-, -, hspec, -⟩ := Shape.reads_of_ofJson_record (by simp [Fields.names]) h
  obtain ⟨spec, hpart, hspec⟩ := Presence.exists_of_reads_required hspec
  obtain ⟨-, hsecret, hconfig, -⟩ := Shape.reads_of_ofJson_record (by simp [Fields.names]) hspec
  exact ⟨spec, hpart, Presence.isSome_iff_of_reads hsecret, Presence.isSome_iff_of_reads hconfig⟩

theorem ServiceAccount.isSome_iff_of_ofJson {value : Json} {project : Option String}
    (h : projectShape.ofJson value = .ok project) :
    project.isSome ↔ value.Gives "project_id" 0 :=
  Presence.isSome_iff_of_reads (Shape.reads_of_ofJson_record (by simp [Fields.names]) h).1

/-! ## What is written -/

/-- Nothing of a request that has been read gets lost when it is written. -/
theorem Infrastructure.recovers_of_decode {document : Bytes} {infra : Infrastructure}
    (h : shape.decode document = .ok infra) : shape.Recovers infra := by
  have hkept : ∀ tree, infra.spec.providerConfig = some tree → tree ≠ .null ∧ tree.tree = tree :=
    fun tree htree => ⟨(providerConfig_of_decode h htree).1, (providerConfig_of_decode h htree).2.1⟩
  obtain ⟨namespaceName, name, region, secretRef, config⟩ := infra
  have hsecret : (Shape.optional SecretReference.shape).Recovers secretRef := by
    cases secretRef with
    | none => trivial
    | some secret => exact ⟨nofun, SecretReference.plain.recovers secret⟩
  have hconfig : Shape.tree.optional.Recovers config := by
    cases config with
    | none => trivial
    | some tree => exact hkept tree rfl
  exact ⟨by simp [Fields.names], trivial, trivial,
    ⟨by simp [Fields.names], trivial, hsecret, hconfig, trivial⟩, trivial⟩

/-- The provider config of a request that has been read is written as it is. -/
theorem Infrastructure.writtenConfig?_toJson {document : Bytes} {infra : Infrastructure}
    (h : shape.decode document = .ok infra) :
    writtenConfig? (shape.toJson infra) = infra.spec.providerConfig :=
  (writtenConfig?_of_ofJson (shape.ofJson_toJson (recovers_of_decode h))).symm

/-! ## Defaults -/

/-- A field with a default has that if there is no part for it. -/
theorem Presence.eq_of_reads_orElse {β : Type} {default b : β} {shape : Shape β} {parts : List Json}
    (h : (Presence.orElse default).Reads shape b parts) (hnone : parts = []) : b = default := by
  rw [hnone] at h
  exact (Option.some.inj h).symm

namespace StateFile

/-- A section of a state is `null`. -/
def HasNull (value : Json) : Prop :=
  .null ∈ value.parts "outputs" 1 ∨ .null ∈ value.parts "modules" 2 ∨
    ∃ item ∈ writtenModules value, .null ∈ item.parts "outputs" 0

/-- Nothing is in the sections of a state that are absent. -/
structure Defaulted (file : StateFile) (value : Json) : Prop where
  outputs : value.parts "outputs" 1 = [] → file.outputs = .empty
  modules : value.parts "modules" 2 = [] → file.modules = []
  module : List.Forall₂ (fun item root => item.parts "outputs" 0 = [] → root.outputs = .empty)
    (writtenModules value) file.modules

theorem malformed_of_hasNull {value : Json} (h : HasNull value) : Malformed value := by
  obtain hpart | hpart | ⟨item, hitem, hpart⟩ := h
  · exact .outputs hpart nofun
  · exact .modules hpart nofun
  · refine .module hitem fun root hroot => ?_
    obtain ⟨houtputs, -⟩ := Shape.reads_of_ofJson_record (by simp [Fields.names]) hroot
    cases (Presence.Reads.of_mem houtputs hpart).2

/-- A module need not have outputs. -/
theorem Module.ofJson_of_absent {members : List (String × Json)}
    (h : (object members).parts "outputs" 0 = []) :
    Module.shape.ofJson (.object members) = .ok ⟨.empty⟩ := by
  refine (Shape.ofJson_object_eq_ok_iff (by simp [Fields.names])).mpr ⟨?_, trivial⟩
  rw [h]
  rfl

theorem defaulted_of_ofJson {value : Json} {file : StateFile} (h : shape.ofJson value = .ok file) :
    file.Defaulted value := by
  obtain ⟨-, houtputs, hmodules⟩ := reads_of_ofJson h
  refine ⟨Presence.eq_of_reads_orElse houtputs, Presence.eq_of_reads_orElse hmodules, ?_⟩
  have hread := map_ofJson_of_reads hmodules
  rw [← List.forall₂_eq_eq_eq, List.forall₂_map_left_iff, List.forall₂_map_right_iff] at hread
  refine hread.imp fun item root hroot => ?_
  exact Presence.eq_of_reads_orElse (Shape.reads_of_ofJson_record (by simp [Fields.names]) hroot).1

end StateFile

namespace Chart.Location

/-- A part of a location is `null`. -/
def HasNull (value : Json) : Prop :=
  .null ∈ value.parts "chart_path" 0 ∨ .null ∈ value.parts "chart_name" 1

/-- The parts of a location that are absent are those of the infrastructure chart. -/
structure Defaulted (location : Location) (value : Json) : Prop where
  path : value.parts "chart_path" 0 = [] → location.path = infrastructurePath
  name : value.parts "chart_name" 1 = [] → location.name = infrastructureName

theorem not_hasNull_of_ofJson {value : Json} {location : Location}
    (h : shape.ofJson value = .ok location) : ¬HasNull value := by
  obtain ⟨hpath, hname, -⟩ := Shape.reads_of_ofJson_record (by simp [Fields.names]) h
  rintro (hpart | hpart)
  · cases (Presence.Reads.of_mem hpath hpart).2
  · cases (Presence.Reads.of_mem hname hpart).2

theorem defaulted_of_ofJson {value : Json} {location : Location}
    (h : shape.ofJson value = .ok location) : location.Defaulted value := by
  obtain ⟨hpath, hname, -⟩ := Shape.reads_of_ofJson_record (by simp [Fields.names]) h
  exact ⟨Presence.eq_of_reads_orElse hpath, Presence.eq_of_reads_orElse hname⟩

end Chart.Location

section

variable {document document' : Bytes} {value : Json} {members : List (String × Json)}
  {keep : String × Json → Bool}

theorem StateDocument.ofDocument_of_hasNull (hd : Denotes document value)
    (h : StateFile.HasNull value) :
    ∃ detail, ofDocument document = .error (.deserialization detail) := by
  refine ofDocument_of_not_decoded fun file hfile => ?_
  exact StateFile.not_malformed_of_ofJson (Shape.ofJson_of_denotes hd hfile)
    (StateFile.malformed_of_hasNull h)

theorem Chart.Location.decode_of_hasNull (hd : Denotes document value) (h : HasNull value) :
    ∃ detail, shape.decode document = .error (.deserialization detail) :=
  Shape.exists_decode_error fun _ hlocation =>
    not_hasNull_of_ofJson (Shape.ofJson_of_denotes hd hlocation) h

/-- Empty sections of a state may be left out. -/
theorem StateDocument.ofDocument_filter (hd : Denotes document (.object members))
    (hd' : Denotes document' (.object (members.filter keep)))
    (hnodup : (members.map (·.1)).Nodup)
    (h : ∀ m ∈ members, keep m = false → m = ("outputs", .object []) ∨ m = ("modules", .array []))
    (state : StateDocument) :
    ofDocument document' = .ok state ↔ ofDocument document = .ok state := by
  refine ofDocument_congr fun file => Shape.decode_record_filter hd hd' hnodup ?_ file
  intro m hm hleft
  obtain rfl | rfl := h m hm hleft
  · exact ⟨rfl, rfl⟩
  · exact ⟨rfl, rfl⟩

/-- The directory and the name of the infrastructure chart may be left out of a location. -/
theorem Chart.Location.decode_filter (hd : Denotes document (.object members))
    (hd' : Denotes document' (.object (members.filter keep)))
    (hnodup : (members.map (·.1)).Nodup)
    (h : ∀ m ∈ members, keep m = false → m = ("chart_path", .string infrastructurePath) ∨
      m = ("chart_name", .string infrastructureName)) (location : Location) :
    shape.decode document' = .ok location ↔ shape.decode document = .ok location := by
  refine Shape.decode_record_filter hd hd' hnodup ?_ location
  intro m hm hleft
  obtain rfl | rfl := h m hm hleft
  · exact ⟨rfl, rfl⟩
  · exact ⟨rfl, rfl⟩

end

/-! ## All of it -/

/-- Documents that can be thinned to the same are accepted alike, and mean the same; and so are
provider configs inside a request that can. -/
structure NullIsAbsent : Prop where
  infrastructure : Infrastructure.shape.NullIsAbsence
  providerConfig : ProviderConfig.shape.NullIsAbsence
  cluster : Cluster.shape.NullIsAbsence
  account : ServiceAccount.projectShape.NullIsAbsence
  accountDocument : ∀ document document' value value' thinned, Denotes document value →
    Denotes document' value' → ServiceAccount.projectShape.Thinned value thinned →
    ServiceAccount.projectShape.Thinned value' thinned →
    ∀ projectId, ServiceAccount.ofDocument document' = .ok ⟨projectId, document'⟩ ↔
      ServiceAccount.ofDocument document = .ok ⟨projectId, document⟩
  embedded : ∀ (infra infra' : Infrastructure) (value value' thinned : Json), value.Distinct →
    value'.Distinct → infra.spec.providerConfig = some value.tree →
    infra'.spec.providerConfig = some value'.tree →
    ProviderConfig.shape.Thinned value thinned → ProviderConfig.shape.Thinned value' thinned →
    ∀ config, ProviderConfig.ofInfrastructure infra' = .ok config ↔
      ProviderConfig.ofInfrastructure infra = .ok config

theorem nullIsAbsent : NullIsAbsent where
  infrastructure := Infrastructure.untagged.nullIsAbsence
  providerConfig := ProviderConfig.untagged.nullIsAbsence
  cluster := Cluster.untagged.nullIsAbsence
  account := ServiceAccount.untagged.nullIsAbsence
  accountDocument _ _ _ _ _ := ServiceAccount.ofDocument_thinned
  embedded _ _ _ _ _ := ProviderConfig.ofInfrastructure_thinned

/-- An optional field of what is read has a value if and only if one other than `null` stands in its
place. -/
structure GivenIsPresent : Prop where
  infrastructure : ∀ document value infra, Denotes document value →
    Infrastructure.shape.decode document = .ok infra →
    (∃ spec, value.parts "spec" 2 = [spec] ∧ infra.Follows spec) ∧
      infra.spec.providerConfig = Infrastructure.writtenConfig? value
  providerConfig : ∀ document value config, Denotes document value →
    ProviderConfig.shape.decode document = .ok config →
    ∃ networks, value.parts "networks" 0 = [networks] ∧ config.Follows networks
  cluster : ∀ document value cluster, Denotes document value →
    Cluster.shape.decode document = .ok cluster →
    ∃ networks, value.parts "networks" 0 = [networks] ∧ cluster.Follows networks
  account : ∀ document value project, Denotes document value →
    ServiceAccount.projectShape.decode document = .ok project →
    (project.isSome ↔ value.Gives "project_id" 0)
  embedded : ∀ (infra : Infrastructure) (tree : Json) (config : ProviderConfig),
    infra.spec.providerConfig = some tree → ProviderConfig.ofInfrastructure infra = .ok config →
    ∃ networks, tree.parts "networks" 0 = [networks] ∧ config.Follows networks
  internal : ∀ (config : ProviderConfig) (members : List (String × Json)),
    config.Follows (.object members) →
    (config.hasInternal ↔ ∃ range, ("internal", range) ∈ members ∧ range ≠ .null)

theorem givenIsPresent : GivenIsPresent where
  infrastructure document value infra hd h := by
    have hmeans := Shape.ofJson_of_denotes hd h
    exact ⟨Infrastructure.follows_of_ofJson hmeans,
      Infrastructure.writtenConfig?_of_ofJson hmeans⟩
  providerConfig _ _ _ hd h := ProviderConfig.follows_of_ofJson (Shape.ofJson_of_denotes hd h)
  cluster _ _ _ hd h := Cluster.follows_of_ofJson (Shape.ofJson_of_denotes hd h)
  account _ _ _ hd h := ServiceAccount.isSome_iff_of_ofJson (Shape.ofJson_of_denotes hd h)
  embedded infra tree config htree h := by
    rw [ProviderConfig.ofInfrastructure_of_some htree, Shape.decodeTree_eq_ok_iff] at h
    exact ProviderConfig.follows_of_ofJson h
  internal _ _ h := h.internal.trans gives_object

/-- No optional field is written as `null`, and a provider config that has been read is written as
it is. -/
structure NullIsNotWritten : Prop where
  infrastructure : ∀ document infra, Infrastructure.shape.decode document = .ok infra →
    ¬Infrastructure.shape.Somewhere Shape.GivesNull (Infrastructure.shape.toJson infra) ∧
      Infrastructure.writtenConfig? (Infrastructure.shape.toJson infra) =
        infra.spec.providerConfig
  providerConfig : ∀ config,
    ¬ProviderConfig.shape.Somewhere Shape.GivesNull (ProviderConfig.shape.toJson config)
  cluster : ∀ cluster, ¬Cluster.shape.Somewhere Shape.GivesNull (Cluster.shape.toJson cluster)

theorem nullIsNotWritten : NullIsNotWritten where
  infrastructure _ _ h := ⟨(Infrastructure.recovers_of_decode h).not_givesNull,
    Infrastructure.writtenConfig?_toJson h⟩
  providerConfig config := (ProviderConfig.plain.recovers config).not_givesNull
  cluster cluster := (Cluster.plain.recovers cluster).not_givesNull

/-- In place of a field with a default `null` is refused, and a field that is absent has its
default, wherever a state or a location has such fields. -/
structure NullIsNoDefault : Prop where
  state_refused : ∀ document value, Denotes document value → StateFile.HasNull value →
    ∃ detail, StateDocument.ofDocument document = .error (.deserialization detail)
  state : ∀ document value file, Denotes document value →
    StateFile.shape.decode document = .ok file → file.Defaulted value
  module : ∀ members, (object members).parts "outputs" 0 = [] →
    StateFile.Module.shape.ofJson (.object members) = .ok ⟨.empty⟩
  location_refused : ∀ document value, Denotes document value → Chart.Location.HasNull value →
    ∃ detail, Chart.Location.shape.decode document = .error (.deserialization detail)
  location : ∀ document value location, Denotes document value →
    Chart.Location.shape.decode document = .ok location → location.Defaulted value

theorem nullIsNoDefault : NullIsNoDefault where
  state_refused _ _ := StateDocument.ofDocument_of_hasNull
  state _ _ _ hd h := StateFile.defaulted_of_ofJson (Shape.ofJson_of_denotes hd h)
  module _ := StateFile.Module.ofJson_of_absent
  location_refused _ _ := Chart.Location.decode_of_hasNull
  location _ _ _ hd h := Chart.Location.defaulted_of_ofJson (Shape.ofJson_of_denotes hd h)

/-- Members that say the default of their field may be left out of an object. -/
structure DefaultIsIdle : Prop where
  state : ∀ document document' members (keep : String × Json → Bool),
    Denotes document (.object members) → Denotes document' (.object (members.filter keep)) →
    (members.map (·.1)).Nodup →
    (∀ m ∈ members, keep m = false → m = ("outputs", .object []) ∨ m = ("modules", .array [])) →
    ∀ state, StateDocument.ofDocument document' = .ok state ↔
      StateDocument.ofDocument document = .ok state
  location : ∀ document document' members (keep : String × Json → Bool),
    Denotes document (.object members) → Denotes document' (.object (members.filter keep)) →
    (members.map (·.1)).Nodup →
    (∀ m ∈ members, keep m = false →
      m = ("chart_path", .string Chart.infrastructurePath) ∨
      m = ("chart_name", .string Chart.infrastructureName)) →
    ∀ location, Chart.Location.shape.decode document' = .ok location ↔
      Chart.Location.shape.decode document = .ok location

theorem defaultIsIdle : DefaultIsIdle where
  state _ _ _ _ := StateDocument.ofDocument_filter
  location _ _ _ _ := Chart.Location.decode_filter

/-- **Absent and `null` are the same for optional fields, and only for them.** Take two documents
that denote values which can be thinned to the same: members of optional fields may be left out of
any of their records if they are `null`, and no name is repeated there. Then one is accepted if the
other is, as the same request, provider config or cluster, or as an account of the same project;
and so is a provider config inside a request. Whatever else is given is there: an optional field has
a value if and only if one other than `null` stands in its place. In particular there is an internal
subnet if and only if the object of the networks has a member of that name that is not `null`. None
of these fields is ever written as `null`, while a provider config is kept and written as it is.
A field with a default has that if it is absent, as the outputs of a module have, and the default
may be left out; but `null` in its place is refused. -/
theorem null_means_absent :
    NullIsAbsent ∧ GivenIsPresent ∧ NullIsNotWritten ∧ NullIsNoDefault ∧ DefaultIsIdle :=
  ⟨nullIsAbsent, givenIsPresent, nullIsNotWritten, nullIsNoDefault, defaultIsIdle⟩

/-- A provider config with the given networks. -/
def ProviderConfig.ofNetworks (networks : List (String × Json)) : Json :=
  .object [("networks", .object networks)]

/-- Networks with `null` for the one to reuse, and with an empty internal range. -/
def vpcNull : List (String × Json) :=
  [("internal", .string ""), ("vpc", .null), ("worker", .string "w")]

/-- The same without the one to reuse. -/
def vpcAbsent : List (String × Json) := [("internal", .string ""), ("worker", .string "w")]

/-- A request with the given provider config. -/
def requesting (config : Json) : Infrastructure := ⟨"ns", "infra", "region", none, some config⟩

/-- An account without a project. -/
def projectNull : List (String × Json) := [("project_id", .null)]

/-- A state of format 4 without modules. -/
def outputsGiven (outputs : Json) : List (String × Json) :=
  [("version", .integer (.ofUInt64 4)), ("outputs", outputs)]

theorem thinned_vpcNull :
    ProviderConfig.shape.Thinned (ProviderConfig.ofNetworks vpcNull)
      (ProviderConfig.ofNetworks vpcAbsent) := by
  have hnetworks : NetworkLayout.shape.Thinned (.object vpcNull) (.object vpcAbsent) := by
    refine Shape.thinned_filter (fun m => !m.2.isNull) (by decide) ?_
    simp [vpcNull, Fields.isVoid, Fields.isOptional, Shape.isOptional, Presence.optional, isNull]
  have hmember : (Fields.required "networks" NetworkLayout.shape .nil).RevisedMember .thinning
      "networks" (.object vpcNull) (.object vpcAbsent) := by
    rwa [Fields.RevisedMember, if_pos rfl]
  exact .inr (.inr ⟨_, [("networks", .object vpcAbsent)], _, rfl, rfl, .cons ⟨rfl, hmember⟩ .nil,
    by decide, fun _ => true, rfl, by simp⟩)

theorem thinned_projectNull :
    ServiceAccount.projectShape.Thinned (.object projectNull) (.object []) := by
  refine Shape.thinned_filter (fun m => !m.2.isNull) (by decide) ?_
  simp [projectNull, Fields.isVoid, Fields.isOptional, Shape.isOptional, Presence.optional, isNull]

/-- The document that is the text of a value. -/
def Json.document (value : Json) : Bytes := Utf8.encode value.text

theorem lists_document_of_small {members : List (String × Json)}
    (h : ∀ m ∈ members, m.2.Exact ∧ m.2.depth ≤ 2) :
    Lists (object members).document (.object members) :=
  lists_text (everywhere_object.mpr ⟨trivial, fun m hm => (h m hm).1⟩)
    (Nat.le_trans (depth_object_le.mpr fun m hm => (h m hm).2) (by decide))

theorem lists_vpcNull :
    Lists (ProviderConfig.ofNetworks vpcNull).document (ProviderConfig.ofNetworks vpcNull) :=
  lists_document_of_small (by simp [vpcNull, Exact, NoFloat])

theorem lists_vpcAbsent :
    Lists (ProviderConfig.ofNetworks vpcAbsent).document (ProviderConfig.ofNetworks vpcAbsent) :=
  lists_document_of_small (by simp [vpcAbsent, Exact, NoFloat])

theorem lists_projectNull : Lists (object projectNull).document (.object projectNull) :=
  lists_document_of_small (by simp [projectNull, Exact, NoFloat])

theorem lists_outputsGiven {outputs : Json} (h : outputs.Exact ∧ outputs.depth ≤ 2) :
    Lists (object (outputsGiven outputs)).document (.object (outputsGiven outputs)) :=
  lists_document_of_small (by simp [outputsGiven, h]; simp [Exact, NoFloat])

theorem null_means_absent_vpcNull :
    ProviderConfig.shape.decode (ProviderConfig.ofNetworks vpcNull).document =
        .ok ⟨⟨none, some ⟨""⟩, ⟨"w"⟩⟩⟩ ∧
      ProviderConfig.ofInfrastructure (requesting (ProviderConfig.ofNetworks vpcNull)) =
        .ok ⟨⟨none, some ⟨""⟩, ⟨"w"⟩⟩⟩ ∧
      ProviderConfig.hasInternal ⟨⟨none, some ⟨""⟩, ⟨"w"⟩⟩⟩ ∧
      (∀ projectId, ServiceAccount.ofDocument (object []).document ≠
        .ok ⟨projectId, (object []).document⟩) ∧
      (∃ detail, StateDocument.ofDocument (object (outputsGiven .null)).document =
        .error (.deserialization detail)) ∧
      StateDocument.ofDocument (object [("version", .integer (.ofUInt64 4))]).document =
        .ok ⟨4, .empty⟩ ∧
      (∃ detail, Chart.Location.shape.decode (object [("chart_path", .null)]).document =
        .error (.deserialization detail)) ∧
      Infrastructure.writtenConfig?
          (Infrastructure.shape.toJson (requesting (.object [("kind", .null)]))) =
        some (.object [("kind", .null)]) := by
  obtain ⟨habsent, hgiven, hwritten, hdefault, hidle⟩ := null_means_absent
  have hconfig : ProviderConfig.ofInfrastructure (requesting (ProviderConfig.ofNetworks vpcNull)) =
      .ok ⟨⟨none, some ⟨""⟩, ⟨"w"⟩⟩⟩ :=
    (habsent.embedded (requesting (ProviderConfig.ofNetworks vpcNull))
      (requesting (ProviderConfig.ofNetworks vpcAbsent)) _ _ _
      (by simp [ProviderConfig.ofNetworks, vpcNull, Distinct, NamesOnce])
      (by simp [ProviderConfig.ofNetworks, vpcAbsent, Distinct, NamesOnce])
      (show _ = some (ProviderConfig.ofNetworks vpcNull).tree from rfl)
      (show _ = some (ProviderConfig.ofNetworks vpcAbsent).tree from rfl) thinned_vpcNull
      (Shape.revised_refl _ _ _) _).mp rfl
  have hnothing : Lists (object []).document (.object []) := lists_document_of_small (by simp)
  refine ⟨?_, hconfig, ?_, ?_, ?_, ?_, ?_, ?_⟩
  · refine (habsent.providerConfig _ _ _ _ _ lists_vpcNull.denotes lists_vpcAbsent.denotes
      thinned_vpcNull (Shape.revised_refl _ _ _) _).mp ?_
    exact (ProviderConfig.shape.decode_eq_ok_iff lists_vpcAbsent).mpr rfl
  · obtain ⟨networks, hpart, hfollows⟩ := hgiven.embedded _ _ _ rfl hconfig
    cases hpart
    exact (hgiven.internal _ _ hfollows).mpr ⟨.string "", List.mem_cons_self, by simp⟩
  · intro projectId h
    have h := (habsent.accountDocument _ _ _ _ _ lists_projectNull.denotes hnothing.denotes
      thinned_projectNull (Shape.revised_refl _ _ _) projectId).mp h
    have hproject := (ServiceAccount.ofDocument_eq_ok_iff.mp h).1
    cases (ServiceAccount.projectShape.decode_eq_ok_iff lists_projectNull).mp hproject
  · have hd : Lists (object (outputsGiven .null)).document (.object (outputsGiven .null)) :=
      lists_outputsGiven (by simp [Exact, NoFloat])
    exact hdefault.state_refused _ _ hd.denotes (.inl List.mem_cons_self)
  · have hd : Lists (object (outputsGiven (.object []))).document
        (.object (outputsGiven (.object []))) := lists_outputsGiven (by simp [Exact, NoFloat])
    have hd' : Lists (object [("version", .integer (.ofUInt64 4))]).document
        (.object [("version", .integer (.ofUInt64 4))]) :=
      lists_document_of_small (by simp [Exact, NoFloat])
    refine (hidle.state _ _ _ (fun m => m.1 = "version") hd.denotes hd'.denotes (by decide)
      (by simp [outputsGiven]) _).mpr ?_
    have hfile := (StateFile.shape.decode_eq_ok_iff hd).mpr rfl
    exact StateDocument.ofDocument_eq_ok_iff.mpr ⟨_, _, hfile, rfl, rfl⟩
  · have hd : Lists (object [("chart_path", .null)]).document (.object [("chart_path", .null)]) :=
      lists_document_of_small (by simp [Exact, NoFloat])
    exact hdefault.location_refused _ _ hd.denotes (.inl List.mem_cons_self)
  · have hd : Lists (Infrastructure.shape.toJson (requesting (.object [("kind", .null)]))).document
        (Infrastructure.shape.toJson (requesting (.object [("kind", .null)]))) := by
      rw [Infrastructure.toJson_eq]
      exact lists_document_of_small (by simp [requesting, Exact, NoFloat])
    exact (hwritten.infrastructure _ _ ((Infrastructure.shape.decode_eq_ok_iff hd).mpr rfl)).2

end Provisioning
