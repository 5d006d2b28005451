import Provisioning.Proofs.State.Document

/-!
# From a state document to a status

A status is computed by asking a reader for the outputs that the config needs and by putting the
answers in their places. With a document as the reader the answer is complete or none, so the empty
text that stands for an absent output (`State.ofOutputs`) never gets into a status. What the status
says is stated output by output (`Status.TakenFrom`), with the names as they stand in a document.
-/

set_option autoImplicit false

namespace Provisioning

/-! ## The names -/

namespace OutputKey

/-- The names of the outputs that a config needs, in the order in which they are asked for. -/
def neededNames (config : ProviderConfig) : List String :=
  ["vpc_name", "subnet_nodes", "service_account_email"] ++
    if config.networks.internal.isSome then ["subnet_internal"] else []

theorem map_name_requested (config : ProviderConfig) :
    (requested config).map name = neededNames config := by
  rw [requested, neededNames, ProviderConfig.hasInternal]
  cases config.networks.internal <;> rfl

theorem nodup_neededNames (config : ProviderConfig) : (neededNames config).Nodup := by
  rw [neededNames]
  cases config.networks.internal <;> simp

end OutputKey

open OutputKey

/-! ## The computation -/

namespace StateDocument

/-- What the computation of a status from a document answers. -/
def statusFor (state : StateDocument) (config : ProviderConfig) : Except Error Status :=
  (Status.compute state.reader config : Logged (Except Error Status)).outcome.1

/-- What the extraction of a state from a document answers. -/
def stateFor (state : StateDocument) (config : ProviderConfig) : Except Error State :=
  (State.extract state.reader config : Logged (Except Error State)).outcome.1

theorem stateFor_eq (state : StateDocument) (config : ProviderConfig) :
    state.stateFor config =
      (state.outputsFor (neededNames config)).map (State.ofOutputs config) := by
  rw [← map_name_requested, stateFor]
  cases h : state.outputsFor ((requested config).map name) <;>
    simp [State.extract, reader, h, Logged.outcome, Except.map]

theorem statusFor_eq (state : StateDocument) (config : ProviderConfig) :
    state.statusFor config = (state.stateFor config).map Status.ofState := by
  rfl

/-- Every key that a config needs is in the answer, with the output of the document. -/
theorem get?_of_needed {state : StateDocument} {config : ProviderConfig} {outputs : Table String}
    (h : state.outputsFor (neededNames config) = .ok outputs) {key : OutputKey}
    (hkey : key ∈ requested config) :
    ∃ text, outputs.get? key.name = some text ∧ state.output? key.name = some text := by
  have hname : key.name ∈ neededNames config := by
    rw [← map_name_requested]
    exact List.mem_map_of_mem hkey
  obtain ⟨text, htext⟩ := Option.isSome_iff_exists.mp (exists_outputsFor_iff.mp ⟨_, h⟩ _ hname)
  refine ⟨text, ?_, htext⟩
  rw [get?_of_outputsFor h, if_pos hname, htext]

end StateDocument

/-! ## The status -/

/-- A status says what a document says, under the tag of every status. The internal subnet is
listed exactly when the config asks for one, even if its range is the empty text. -/
structure Status.TakenFrom (state : StateDocument) (config : ProviderConfig) (status : Status) :
    Prop where
  tag : status.tag = ⟨"gcp.provider.extensions.gardener.cloud/v1alpha1", "InfrastructureStatus"⟩
  vpc : state.output? "vpc_name" = some status.networks.vpc.name
  email : state.output? "service_account_email" = some status.serviceAccountEmail
  subnets : ∃ nodes, state.output? "subnet_nodes" = some nodes ∧
    ((config.networks.internal = none ∧ status.networks.subnets = [⟨.nodes, nodes⟩]) ∨
      ∃ range internal, config.networks.internal = some range ∧
        state.output? "subnet_internal" = some internal ∧
        status.networks.subnets = [⟨.nodes, nodes⟩, ⟨.internal, internal⟩])

namespace StateDocument

variable {state : StateDocument} {config : ProviderConfig}

theorem takenFrom_of_outputsFor {outputs : Table String}
    (h : state.outputsFor (neededNames config) = .ok outputs) :
    Status.TakenFrom state config (.ofState (.ofOutputs config outputs)) := by
  -- Three keys are asked for whatever the config says.
  have hneeded {key : OutputKey} (hkey : key ∈ [vpcName, subnetNodes, serviceAccountEmail]) :=
    get?_of_needed h (List.mem_append_left _ hkey)
  obtain ⟨vpc, hvpc, hvpc'⟩ := @hneeded .vpcName (by decide)
  obtain ⟨email, hemail, hemail'⟩ := @hneeded .serviceAccountEmail (by decide)
  obtain ⟨nodes, hnodes, hnodes'⟩ := @hneeded .subnetNodes (by decide)
  refine ⟨rfl, hvpc'.trans ?_, hemail'.trans ?_, nodes, hnodes', ?_⟩
  · simp [Status.ofState, State.ofOutputs, hvpc]
  · simp [Status.ofState, State.ofOutputs, hemail]
  · cases hnet : config.networks.internal with
    | none =>
      refine .inl ⟨rfl, ?_⟩
      simp [Status.ofState, State.ofOutputs, ProviderConfig.hasInternal, hnet, hnodes]
    | some range =>
      have hasked : OutputKey.subnetInternal ∈ requested config := by
        simp [requested, ProviderConfig.hasInternal, hnet]
      obtain ⟨internal, hint, hint'⟩ := get?_of_needed h hasked
      refine .inr ⟨range, internal, rfl, hint', ?_⟩
      simp [Status.ofState, State.ofOutputs, ProviderConfig.hasInternal, hnet, hnodes, hint]

theorem statusFor_of_present (h : ∀ name ∈ neededNames config, (state.output? name).isSome) :
    ∃ status, state.statusFor config = .ok status ∧ status.TakenFrom state config := by
  obtain ⟨outputs, houtputs⟩ := exists_outputsFor_iff.mpr h
  refine ⟨_, ?_, takenFrom_of_outputsFor houtputs⟩
  rw [statusFor_eq, stateFor_eq, houtputs]
  rfl

theorem statusFor_of_missing (h : state.missing (neededNames config) ≠ []) :
    state.statusFor config = .error (.missingOutputs (state.missing (neededNames config))) := by
  rw [statusFor_eq, stateFor_eq, outputsFor_of_missing h]
  rfl

theorem missing_of_statusFor {status : Status} (h : state.statusFor config = .ok status) :
    state.missing (neededNames config) = [] :=
  Decidable.byContradiction fun hmissing => by
    rw [statusFor_of_missing hmissing] at h
    cases h

theorem takenFrom_of_statusFor {status : Status} (h : state.statusFor config = .ok status) :
    status.TakenFrom state config := by
  have hpresent := missing_eq_nil_iff.mp (missing_of_statusFor h)
  obtain ⟨status', hstatus', htaken⟩ := statusFor_of_present hpresent
  rw [h] at hstatus'
  cases hstatus'
  exact htaken

theorem missing_of_statusFor_error {error : Error} (h : state.statusFor config = .error error) :
    error = .missingOutputs (state.missing (neededNames config)) := by
  by_cases hmissing : state.missing (neededNames config) = []
  · obtain ⟨status, hstatus, -⟩ := statusFor_of_present (missing_eq_nil_iff.mp hmissing)
    rw [h] at hstatus
    cases hstatus
  · rw [statusFor_of_missing hmissing] at h
    cases h
    rfl

end StateDocument

/-- **From a document to a status.** A document that is accepted has a status for a config if and
only if it has every output that the config needs, and the status is then made of these outputs
alone: the reader answers all the keys that are asked for, so none is taken to be empty. Otherwise
the error lists the names that are missing, in the order of the question and none twice. -/
theorem Status.compute_from_document {document : Bytes} {state : StateDocument}
    (h : StateDocument.ofDocument document = .ok state) (config : ProviderConfig) :
    (state.version = 3 ∨ state.version = 4) ∧
    (requested config).map name = neededNames config ∧
    ((∃ status, state.statusFor config = .ok status) ↔
      ∀ name ∈ neededNames config, (state.output? name).isSome) ∧
    (∀ status, state.statusFor config = .ok status → status.TakenFrom state config) ∧
    (∀ outputs, state.outputsFor ((requested config).map name) = .ok outputs →
      ∀ key ∈ requested config, ∃ text,
        outputs.get? key.name = some text ∧ state.output? key.name = some text) ∧
    ∀ error, state.statusFor config = .error error →
      error = .missingOutputs (state.missing (neededNames config)) ∧
        (state.missing (neededNames config)).Nodup := by
  refine ⟨StateDocument.known_of_ofDocument h, map_name_requested config, ⟨?_, ?_⟩, ?_, ?_, ?_⟩
  · rintro ⟨status, hstatus⟩
    exact StateDocument.missing_eq_nil_iff.mp (StateDocument.missing_of_statusFor hstatus)
  · intro hpresent
    obtain ⟨status, hstatus, -⟩ := StateDocument.statusFor_of_present hpresent
    exact ⟨status, hstatus⟩
  · exact fun status hstatus => StateDocument.takenFrom_of_statusFor hstatus
  · rw [map_name_requested]
    exact fun outputs houtputs key hkey => StateDocument.get?_of_needed houtputs hkey
  · intro error herror
    exact ⟨StateDocument.missing_of_statusFor_error herror, (nodup_neededNames config).filter _⟩

/-- A document with one output of the three that every config needs. -/
def vpcOnlyDocument : Bytes :=
  Utf8.encode
    "\x7b\"version\": 4, \"outputs\": \x7b\"vpc_name\": \x7b\"value\": \"v\"\x7d\x7d\x7d"

theorem ofDocument_vpcOnlyDocument :
    StateDocument.ofDocument vpcOnlyDocument = .ok ⟨4, .ofList [("vpc_name", "v")]⟩ := by
  decide +kernel

theorem Status.compute_from_vpcOnlyDocument :
    StateDocument.ofDocument vpcOnlyDocument = .ok ⟨4, .ofList [("vpc_name", "v")]⟩ ∧
      StateDocument.statusFor ⟨4, .ofList [("vpc_name", "v")]⟩ ⟨⟨none, none, ⟨"10.250.0.0/16"⟩⟩⟩ =
        .error (.missingOutputs ["subnet_nodes", "service_account_email"]) := by
  refine ⟨ofDocument_vpcOnlyDocument, ?_⟩
  obtain ⟨-, -, hsome, -, -, hmissing⟩ :=
    Status.compute_from_document ofDocument_vpcOnlyDocument ⟨⟨none, none, ⟨"10.250.0.0/16"⟩⟩⟩
  cases hstatus : StateDocument.statusFor ⟨4, .ofList [("vpc_name", "v")]⟩
      ⟨⟨none, none, ⟨"10.250.0.0/16"⟩⟩⟩ with
  | ok status => exact absurd (hsome.mp ⟨status, hstatus⟩) (by decide)
  | error error =>
    rw [(hmissing error hstatus).1]
    rfl

end Provisioning
