import Provisioning.Proofs.Calls
import Provisioning.Proofs.State.Extraction

/-!
# What is asked of a reader, and what is made of its answer

A reader may be any function that answers a list of names with an error or with a table. Whatever
it is, one question is put to it: the names that the config needs. An error is handed on. Of a table
every needed name is looked up (`State.Shows`): an absent output is an empty text, and an output
that was not asked for is not looked at, so the internal subnet is in the state exactly if the
config asks for one.

The outputs may also be taken out of the table one after the other (`State.takeFrom`). The names
are distinct, so none is gone before it is needed, and the state is the same.
-/

set_option autoImplicit false

namespace Provisioning

open OutputKey

variable {m : Type → Type} {ε α : Type}

/-! ## Asking -/

section Recording

variable [Monad m] [LawfulMonad m] [MonadLog m] [ToString ε]

/-- One question is put to a reader, whatever it does, and keeping it changes nothing. -/
theorem State.run_extract_recorded (reader : OutputReader m ε) (config : ProviderConfig)
    (asked : List (List String)) :
    (State.extract (recorded reader) config).run asked =
      (fun answer => (answer, asked ++ [neededNames config])) <$> State.extract reader config := by
  rw [← map_name_requested]
  simp only [State.extract, StateT.run_bind, run_log, run_recorded, bind_map_left, map_bind]
  refine bind_congr fun _ => bind_congr fun answer => ?_
  cases answer <;> simp

theorem Status.run_compute_recorded (reader : OutputReader m ε) (config : ProviderConfig)
    (asked : List (List String)) :
    (Status.compute (recorded reader) config).run asked =
      (fun answer => (answer.map Status.ofState, asked ++ [neededNames config])) <$>
        State.extract reader config := by
  simp [Status.compute, State.run_extract_recorded]

end Recording

/-- A reader that answers by a function and does nothing else. -/
def answering (answer : List String → Except ε (Table String)) : OutputReader Logged ε :=
  fun names => return answer names

/-! ## Reading the answer -/

/-- A state says what a table says under the names that a config needs, and nothing else. -/
structure State.Shows (outputs : Table String) (config : ProviderConfig) (state : State) :
    Prop where
  vpcName : state.vpcName = (outputs.get? "vpc_name").getD ""
  subnetNodes : state.subnetNodes = (outputs.get? "subnet_nodes").getD ""
  serviceAccountEmail :
    state.serviceAccountEmail = (outputs.get? "service_account_email").getD ""
  subnetInternal : state.subnetInternal =
    config.networks.internal.map fun _ => (outputs.get? "subnet_internal").getD ""

theorem State.shows_ofOutputs (config : ProviderConfig) (outputs : Table String) :
    (State.ofOutputs config outputs).Shows outputs config := by
  refine ⟨rfl, rfl, rfl, ?_⟩
  rw [State.ofOutputs, ProviderConfig.hasInternal]
  cases config.networks.internal <;> rfl

/-- Tables that agree on the needed names show the same state. -/
theorem State.ofOutputs_congr {config : ProviderConfig} {outputs outputs' : Table String}
    (h : ∀ name ∈ neededNames config, outputs.get? name = outputs'.get? name) :
    State.ofOutputs config outputs = State.ofOutputs config outputs' := by
  have hkey (key : OutputKey) (hkey : key ∈ requested config) :
      outputs.get? key.name = outputs'.get? key.name := by
    apply h
    rw [← map_name_requested]
    exact List.mem_map_of_mem hkey
  have hvpc := hkey .vpcName (by simp [requested])
  have hnodes := hkey .subnetNodes (by simp [requested])
  have hemail := hkey .serviceAccountEmail (by simp [requested])
  cases hasked : config.hasInternal with
  | false => simp only [State.ofOutputs, hvpc, hnodes, hemail, hasked]; rfl
  | true =>
    have hinternal := hkey .subnetInternal (by simp [requested, hasked])
    simp only [State.ofOutputs, hvpc, hnodes, hemail, hinternal]

/-- What the extraction of a state answers, and asks, where questions are answered by a function. -/
def State.extracting [ToString ε] (answer : List String → Except ε (Table String))
    (config : ProviderConfig) : Except ε State × List (List String) :=
  called (State.extract (recorded (answering answer)) config)

/-- What the computation of a status answers, and asks, there. -/
def Status.computing [ToString ε] (answer : List String → Except ε (Table String))
    (config : ProviderConfig) : Except ε Status × List (List String) :=
  called (Status.compute (recorded (answering answer)) config)

theorem State.extracting_eq [ToString ε] (answer : List String → Except ε (Table String))
    (config : ProviderConfig) :
    State.extracting answer config =
      ((answer (neededNames config)).map (State.ofOutputs config), [neededNames config]) := by
  rw [State.extracting, called, State.run_extract_recorded, Logged.outcome_map,
    ← map_name_requested]
  cases h : answer ((requested config).map name) <;>
    simp [State.extract, answering, h, Logged.outcome, Except.map]

/-- The status is asked for with the same question as the state, and is made of the state. -/
theorem Status.computing_eq [ToString ε] (answer : List String → Except ε (Table String))
    (config : ProviderConfig) :
    Status.computing answer config =
      ((State.extracting answer config).1.map Status.ofState, [neededNames config]) := by
  rw [Status.computing, called, Status.run_compute_recorded, State.extracting, called,
    State.run_extract_recorded]
  rfl

/-! ## Taking the answer apart -/

namespace Table

/-- Removes what is under a name. -/
def erase (t : Table α) (name : String) : Table α :=
  ⟨t.entries.filter (·.1 ≠ name), t.ordered.filter _⟩

theorem find?_filter (name n : String) (l : List (String × α)) :
    find? n (l.filter (·.1 ≠ name)) = if n = name then none else find? n l := by
  induction l with
  | nil => simp [find?]
  | cons head rest ih =>
    obtain ⟨k, v⟩ := head
    by_cases hk : k = name
    · subst hk
      by_cases hn : n = k <;> simp_all [find?]
    · by_cases hn : n = k
      · subst hn
        simp [find?, hk]
      · simp_all [find?]

@[simp] theorem get?_erase (t : Table α) (name n : String) :
    (t.erase name).get? n = if n = name then none else t.get? n :=
  find?_filter name n t.entries

end Table

/-- Takes an output out of a table, or an empty text if it is not there. -/
def OutputKey.take (key : OutputKey) : StateM (Table String) String := do
  let outputs ← get
  set (outputs.erase key.name)
  return (outputs.get? key.name).getD ""

@[simp] theorem OutputKey.run_take (key : OutputKey) (outputs : Table String) :
    key.take.run outputs = pure ((outputs.get? key.name).getD "", outputs.erase key.name) := rfl

/-- The state that a config finds in a table, each output being taken out of it. -/
def State.takeFrom (config : ProviderConfig) : StateM (Table String) State := do
  let vpcName ← OutputKey.vpcName.take
  let subnetNodes ← OutputKey.subnetNodes.take
  let serviceAccountEmail ← OutputKey.serviceAccountEmail.take
  if OutputKey.subnetInternal ∈ requested config then
    let subnetInternal ← OutputKey.subnetInternal.take
    return ⟨vpcName, serviceAccountEmail, subnetNodes, some subnetInternal⟩
  else
    return ⟨vpcName, serviceAccountEmail, subnetNodes, none⟩

/-- No output is taken before it is needed, and exactly the needed names are taken. -/
theorem State.run_takeFrom (config : ProviderConfig) (outputs : Table String) :
    (State.takeFrom config).run outputs =
      pure (State.ofOutputs config outputs, (neededNames config).foldl Table.erase outputs) := by
  rw [← map_name_requested]
  cases hasked : config.hasInternal <;>
    simp [State.takeFrom, State.ofOutputs, requested, hasked, OutputKey.name]

/-! ## The extraction -/

/-- Every name that is asked for is the name of a key, and of the key that is meant. -/
theorem OutputKey.map_ofName?_neededNames (config : ProviderConfig) :
    (neededNames config).map ofName? = (requested config).map some := by
  rw [← map_name_requested, List.map_map]
  apply List.map_congr_left
  intro key _
  cases key <;> rfl

/-- **One question, and its answer.** Whatever a reader answers, it is asked once, for the names
that the config needs, which are distinct and known. Its error is the result. Its table gives a
state, output by output, and gives the same one if the outputs are taken out of it one after the
other; what it has under other names makes no difference. The status is made of that state and asks
nothing more. -/
theorem State.extract_asks_once [ToString ε] (answer : List String → Except ε (Table String))
    (config : ProviderConfig) :
    (State.extracting answer config).2 = [neededNames config] ∧
    (neededNames config).Nodup ∧
    (neededNames config).map ofName? = (requested config).map some ∧
    (∀ error, answer (neededNames config) = .error error →
      (State.extracting answer config).1 = .error error) ∧
    (∀ outputs, answer (neededNames config) = .ok outputs →
      ∃ state, (State.extracting answer config).1 = .ok state ∧ state.Shows outputs config ∧
        (State.takeFrom config).run outputs =
          pure (state, (neededNames config).foldl Table.erase outputs)) ∧
    (∀ (answer' : List String → Except ε (Table String)) (outputs outputs' : Table String),
      answer (neededNames config) = .ok outputs → answer' (neededNames config) = .ok outputs' →
      (∀ name ∈ neededNames config, outputs.get? name = outputs'.get? name) →
      (State.extracting answer config).1 = (State.extracting answer' config).1) ∧
    Status.computing answer config =
      ((State.extracting answer config).1.map Status.ofState, [neededNames config]) := by
  refine ⟨?_, nodup_neededNames config, map_ofName?_neededNames config, ?_, ?_, ?_,
    Status.computing_eq answer config⟩
  · rw [State.extracting_eq]
  · intro error h
    rw [State.extracting_eq, h]
    rfl
  · intro outputs h
    refine ⟨State.ofOutputs config outputs, ?_, State.shows_ofOutputs config outputs,
      State.run_takeFrom config outputs⟩
    rw [State.extracting_eq, h]
    rfl
  · intro answer' outputs outputs' h h' hagree
    rw [State.extracting_eq, State.extracting_eq, h, h']
    show Except.ok _ = Except.ok _
    rw [State.ofOutputs_congr hagree]

/-- A table with an internal subnet, whether or not it is asked for, and without one for nodes. -/
def internalOnly : List String → Except Error (Table String) := fun _ =>
  .ok (.ofList [("subnet_internal", "i"), ("vpc_name", "v")])

/-- An internal subnet that is not asked for stays out of the state. -/
theorem State.extract_asks_once_internalOnly :
    State.extracting internalOnly ⟨⟨none, none, ⟨"10.250.0.0/16"⟩⟩⟩ =
      (.ok ⟨"v", "", "", none⟩, [["vpc_name", "subnet_nodes", "service_account_email"]]) := by
  obtain ⟨hasked, -, -, -, hok, -, -⟩ :=
    State.extract_asks_once internalOnly ⟨⟨none, none, ⟨"10.250.0.0/16"⟩⟩⟩
  obtain ⟨state, hstate, hshows, -⟩ := hok _ rfl
  refine Prod.ext (hstate.trans (congrArg Except.ok ?_)) hasked
  obtain ⟨vpcName, email, nodes, internal⟩ := state
  obtain ⟨hvpc, hnodes, hemail, hinternal⟩ := hshows
  dsimp only at hvpc hnodes hemail hinternal
  rw [hvpc, hnodes, hemail, hinternal]
  rfl

end Provisioning
