import Provisioning.Proofs.Chart.Handing
import Provisioning.Proofs.State.Extraction
import Provisioning.Proofs.State.Writing

/-!
# Two sides of a run

Before a run the chart is told under which names to leave its results and whether there is to be an
internal subnet; after it, the results are asked for by name. Nothing but the config passes from
one side to the other, so the two have to agree for every config: what will be asked for has been
announced, and what has been announced is enough to answer with.
-/

set_option autoImplicit false

namespace Provisioning

open OutputKey

variable {ε : Type}

/-! ## The subnets of a status -/

/-- Whatever a reader does, a state that is extracted is one of some table of outputs. -/
theorem State.exists_outcome_extract [ToString ε] (reader : OutputReader Logged ε)
    (config : ProviderConfig) :
    ∃ answer : Except ε (Table String),
      (State.extract reader config).outcome.1 = answer.map (State.ofOutputs config) := by
  rw [State.extract, ← bind_assoc, Logged.outcome_bind]
  generalize Logged.outcome _ = asked
  obtain ⟨answer, events⟩ := asked
  refine ⟨answer, ?_⟩
  cases answer <;> rfl

namespace Status

theorem exists_ofOutputs_of_compute [ToString ε] {reader : OutputReader Logged ε}
    {config : ProviderConfig} {status : Status}
    (h : (compute reader config).outcome.1 = .ok status) :
    ∃ outputs, status = ofState (.ofOutputs config outputs) := by
  obtain ⟨answer, hanswer⟩ := State.exists_outcome_extract reader config
  rw [compute, bind_pure_comp, Logged.outcome_map, hanswer] at h
  obtain ⟨state, hstate, rfl⟩ := Except.map_eq_ok.mp h
  obtain ⟨outputs, -, rfl⟩ := Except.map_eq_ok.mp hstate
  exact ⟨outputs, rfl⟩

/-- The subnets of a status: one for the nodes, and behind it an internal one if there is to be
one. -/
structure Laid (internal : Prop) (status : Status) : Prop where
  purposes : status.networks.subnets.map Subnet.purpose = [.nodes] ∨
    status.networks.subnets.map Subnet.purpose = [.nodes, .internal]
  internal_iff : (∃ subnet ∈ status.networks.subnets, subnet.purpose = .internal) ↔ internal

/-- Presence decides, whatever the range of the internal subnet is. -/
theorem laid_of_compute [ToString ε] {reader : OutputReader Logged ε} {config : ProviderConfig}
    {status : Status} (h : (compute reader config).outcome.1 = .ok status) :
    status.Laid (config.networks.internal ≠ none) := by
  obtain ⟨outputs, rfl⟩ := exists_ofOutputs_of_compute h
  cases hnet : config.networks.internal with
  | none =>
    constructor <;> simp [ofState, State.ofOutputs, ProviderConfig.hasInternal, hnet]
  | some range =>
    constructor <;> simp [ofState, State.ofOutputs, ProviderConfig.hasInternal, hnet]

end Status

/-! ## What the chart is told -/

theorem OutputKey.subnetInternal_mem_requested_iff (config : ProviderConfig) :
    subnetInternal ∈ requested config ↔ config.networks.internal ≠ none := by
  rw [requested, ProviderConfig.hasInternal]
  cases config.networks.internal <;> simp

namespace Chart

/-- The trees that a renderer is handed when a request is rendered. -/
def handed [ToString ε] [OfUnwritable ε] (renderer : Renderer Logged ε) (location : Location)
    (infra : Infrastructure) (account : ServiceAccount) (config : ProviderConfig)
    (cluster : Cluster) : List Json :=
  (called (render renderer.recorded location infra account config cluster)).2.map Call.values

theorem handed_eq [ToString ε] [OfUnwritable ε] (renderer : Renderer Logged ε)
    (location : Location) (infra : Infrastructure) (account : ServiceAccount)
    (config : ProviderConfig) (cluster : Cluster) :
    handed renderer location infra account config cluster =
      [(Values.ofRequest infra account config cluster).tree] := by
  rw [handed, called, run_render_recorded]
  rfl

namespace Values

variable (infra : Infrastructure) (account : ServiceAccount) (config : ProviderConfig)
  (cluster : Cluster)

theorem at?_outputKeys (place : String) :
    (ofRequest infra account config cluster).tree.at? ["outputKeys", place] = last? place [
      ("serviceAccountEmail", .string serviceAccountEmail.name),
      ("subnetInternal", .string subnetInternal.name),
      ("subnetNodes", .string subnetNodes.name),
      ("vpcName", .string OutputKey.vpcName.name)] := by
  rw [tree_eq, Json.at?_pair]
  rfl

/-- The names that the chart is told are those of all keys. -/
theorem exists_at?_outputKeys_iff {name : String} :
    (∃ place, (ofRequest infra account config cluster).tree.at? ["outputKeys", place] =
        some (.string name)) ↔ ∃ key : OutputKey, key.name = name := by
  constructor
  · rintro ⟨place, h⟩
    rw [at?_outputKeys] at h
    have hmem := mem_of_last? h
    simp only [List.mem_cons, Prod.mk.injEq, Json.scalar.injEq, Scalar.string.injEq,
      List.not_mem_nil, or_false] at hmem
    obtain ⟨-, h⟩ | ⟨-, h⟩ | ⟨-, h⟩ | ⟨-, h⟩ := hmem <;> exact ⟨_, h.symm⟩
  · rintro ⟨key, rfl⟩
    cases key with
    | vpcName => exact ⟨"vpcName", at?_outputKeys ..⟩
    | serviceAccountEmail => exact ⟨"serviceAccountEmail", at?_outputKeys ..⟩
    | subnetNodes => exact ⟨"subnetNodes", at?_outputKeys ..⟩
    | subnetInternal => exact ⟨"subnetInternal", at?_outputKeys ..⟩

theorem at?_internal :
    (ofRequest infra account config cluster).tree.at? ["networks", "internal"] =
      some (rangeTree config.networks.internal) := by
  rw [tree_eq]
  rfl

end Values

/-- **What is asked for has been announced.** Rendering hands a renderer one tree. Every output that
the config needs has its name among those in it, and the internal network in it is not `null`
exactly if the internal subnet is asked for, which is if the config has a range for it, be it empty.
Then and only then a computed status lists such a subnet, whoever has been asked: one for the nodes
comes first, and an internal one is the second and last. A state document that has every output
named in the tree has a status for every config. -/
theorem render_agrees_with_status [ToString ε] [OfUnwritable ε] (renderer : Renderer Logged ε)
    (location : Location) (infra : Infrastructure) (account : ServiceAccount)
    (config : ProviderConfig) (cluster : Cluster) :
    ∃ tree, handed renderer location infra account config cluster = [tree] ∧
      (∀ key ∈ requested config, ∃ place,
        tree.at? ["outputKeys", place] = some (.string key.name)) ∧
      (∃ internal, tree.at? ["networks", "internal"] = some internal ∧
        (internal ≠ .null ↔ subnetInternal ∈ requested config) ∧
        (internal ≠ .null ↔ config.networks.internal ≠ none) ∧
        ∀ {ε' : Type} [ToString ε'] (reader : OutputReader Logged ε') (status : Status),
          (Status.compute reader config).outcome.1 = .ok status →
            status.Laid (internal ≠ .null)) ∧
      ∀ document state, StateDocument.ofDocument document = .ok state →
        (∀ place name, tree.at? ["outputKeys", place] = some (.string name) →
          (state.output? name).isSome) →
        ∀ config', ∃ status, state.statusFor config' = .ok status := by
  have hinternal : Values.rangeTree config.networks.internal ≠ .null ↔
      config.networks.internal ≠ none := not_congr Values.rangeTree_eq_null_iff
  refine ⟨(Values.ofRequest infra account config cluster).tree,
    handed_eq renderer location infra account config cluster, ?_,
    ⟨_, Values.at?_internal infra account config cluster, ?_, hinternal, ?_⟩, ?_⟩
  · intro key _
    exact (Values.exists_at?_outputKeys_iff infra account config cluster).mpr ⟨key, rfl⟩
  · exact hinternal.trans (subnetInternal_mem_requested_iff config).symm
  · intro ε' _ reader status h
    rw [hinternal]
    exact Status.laid_of_compute h
  · intro document state _ houtputs config'
    have hpresent : ∀ name ∈ neededNames config', (state.output? name).isSome := by
      intro name hname
      rw [← map_name_requested] at hname
      obtain ⟨key, -, hkey⟩ := List.mem_map.mp hname
      obtain ⟨place, hplace⟩ :=
        (Values.exists_at?_outputKeys_iff infra account config cluster).mpr ⟨key, hkey⟩
      exact houtputs place name hplace
    obtain ⟨status, hstatus, -⟩ := StateDocument.statusFor_of_present hpresent
    exact ⟨status, hstatus⟩

/-- An output under every name, the last one empty. -/
def fullTexts : Table String :=
  .ofList [("vpc_name", "v"), ("service_account_email", "e"), ("subnet_nodes", "n"),
    ("subnet_internal", "")]

/-- The names that the chart is told for a request without an internal network are enough for every
config. -/
theorem render_agrees_with_status_fullTexts :
    ∀ config, ∃ status, StateDocument.statusFor ⟨4, fullTexts⟩ config = .ok status := by
  obtain ⟨tree, htree, -, -, hstatus⟩ :=
    render_agrees_with_status (fun _ _ _ _ => return .error Error.missingProjectId) default
      ⟨"ns", "infra", ⟨"region", none, none⟩⟩ ⟨"project", []⟩ ⟨⟨none, none, ⟨"10.250.0.0/16"⟩⟩⟩
      default
  rw [handed_eq] at htree
  obtain rfl := List.singleton_inj.mp htree
  refine hstatus _ _ (StateDocument.ofDocument_write_ofTexts fullTexts) ?_
  intro place name hplace
  obtain ⟨key, rfl⟩ := (Values.exists_at?_outputKeys_iff _ _ _ _).mp ⟨place, hplace⟩
  cases key <;> rfl

end Chart

end Provisioning
