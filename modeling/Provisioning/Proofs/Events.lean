import Mathlib.Control.Monad.Writer
import Provisioning.Proofs.Chart.Handing
import Provisioning.Proofs.Quoting
import Provisioning.Proofs.State.Extraction

/-!
# What the events tell

Whoever reads the log sees a line for every event, with its level and its wording, and nothing else
of a call. The lines are enough to know how it ended (`Outcome.Tells`): they begin with what is
about to be done and end as the answer does, with a warning exactly if it is an error, and then with
the text of that very error.

The reader of a state and the renderer of a chart are functions of someone else, and what they do
may depend on a world that they change. They do it in `Observed`, where events can only be added:
in the list of a `Logged` computation they could be taken back. What a call emits is first said of
readers and renderers that emit events of their own (`Chart.outcome_render`,
`State.outcome_extract`), because a document is such a reader; that it emits nothing else follows
for those who emit nothing.

Of a sequence of calls in one world the warnings tell the errors, one for each failed call and in
their order (`Operation.failures_runAll`). One call warns of its error or of nothing, and the rest
is an induction.
-/

set_option autoImplicit false

namespace Provisioning

open OutputKey

variable {σ ε α β : Type}

/-! ## Observing a computation -/

def Event.line (event : Event) : Level × String := (event.level, event.message)

/-- What a computation answers, the events it has emitted, and the world it leaves. -/
structure Outcome (σ α : Type) where
  answer : α
  events : List Event
  world : σ

namespace Outcome

def lines (told : Outcome σ α) : List (Level × String) := told.events.map Event.line

def map (f : α → β) (told : Outcome σ α) : Outcome σ β := ⟨f told.answer, told.events, told.world⟩

/-- The same behind events that have been emitted before. -/
def after (before : List Event) (told : Outcome σ α) : Outcome σ α :=
  ⟨told.answer, before ++ told.events, told.world⟩

end Outcome

/-- A computation in a world that it may look at and change. Its events are added to those that have
been emitted, which it cannot see. -/
abbrev Observed (σ : Type) := WriterT (List Event) (StateM σ)

instance : MonadLog (Observed σ) := ⟨fun event => tell [event]⟩

namespace Observed

def outcome (x : Observed σ α) (world : σ) : Outcome σ α :=
  let ((answer, events), world) := ((WriterT.run x).run world).run
  ⟨answer, events, world⟩

/-- A computation that emits nothing. -/
def silent (x : StateM σ α) : Observed σ α := liftM x

@[simp] theorem outcome_pure (a : α) (world : σ) :
    (pure a : Observed σ α).outcome world = ⟨a, [], world⟩ := rfl

@[simp] theorem outcome_bind (x : Observed σ α) (f : α → Observed σ β) (world : σ) :
    (x >>= f).outcome world =
      ((f (x.outcome world).answer).outcome (x.outcome world).world).after
        (x.outcome world).events := rfl

@[simp] theorem outcome_map (f : α → β) (x : Observed σ α) (world : σ) :
    (f <$> x).outcome world = (x.outcome world).map f := rfl

@[simp] theorem outcome_log (event : Event) (world : σ) :
    (log event : Observed σ Unit).outcome world = ⟨(), [event], world⟩ := rfl

@[simp] theorem outcome_silent (x : StateM σ α) (world : σ) :
    (silent x).outcome world = ⟨(x.run world).run.1, [], (x.run world).run.2⟩ := rfl

end Observed

/-- A reader of someone else, who has no events of this library to emit. -/
def OutputReader.silent (reader : OutputReader (StateM σ) ε) : OutputReader (Observed σ) ε :=
  fun names => Observed.silent (reader names)

/-- A renderer of someone else. -/
def Chart.Renderer.silent (renderer : Renderer (StateM σ) ε) : Renderer (Observed σ) ε :=
  fun path name namespaceName values =>
    Observed.silent (renderer path name namespaceName values)

/-! ## What one call emits -/

section

variable [ToString ε]

/-- The events that follow when the answer is known. -/
def ending (success : List Event) (failure : String → Event) : Except ε α → List Event
  | .ok _ => success
  | .error e => [failure (toString e)]

@[simp] theorem ending_map (f : α → β) (success : List Event) (failure : String → Event)
    (answer : Except ε α) :
    ending success failure (answer.map f) = ending success failure answer := by
  cases answer <;> rfl

/-- What a rendering emits, around what the renderer emits itself. -/
theorem Chart.outcome_render [OfUnwritable ε] (renderer : Renderer (Observed σ) ε)
    (location : Location) (infra : Infrastructure) (account : ServiceAccount)
    (config : ProviderConfig) (cluster : Cluster) (world : σ) :
    (render renderer location infra account config cluster).outcome world =
      let told := (renderer location.path location.name infra.namespaceName
        (Values.ofRequest infra account config cluster).tree).outcome world
      ⟨told.answer.map Files.ofRendered,
        .rendering location.name location.path infra.namespaceName :: (told.events ++
          ending [.rendered location.name infra.namespaceName] (.renderFailed location.name)
            told.answer), told.world⟩ := by
  rw [render_eq]
  simp only [renderTree, Observed.outcome_bind, Observed.outcome_log]
  cases ((renderer location.path location.name infra.namespaceName
      (Values.ofRequest infra account config cluster).tree).outcome world).answer with
  | ok rendered => simp [ending, Outcome.after, Except.map]
  | error e => simp [ending, Outcome.after, Except.map]

/-- What an extraction emits, around what the reader emits itself. -/
theorem State.outcome_extract (reader : OutputReader (Observed σ) ε) (config : ProviderConfig)
    (world : σ) :
    (State.extract reader config).outcome world =
      let told := (reader (neededNames config)).outcome world
      ⟨told.answer.map (State.ofOutputs config),
        .readingOutputs (neededNames config) ::
          (told.events ++ ending [] .readFailed told.answer), told.world⟩ := by
  rw [← map_name_requested]
  simp only [State.extract, Observed.outcome_bind, Observed.outcome_log]
  cases ((reader ((requested config).map name)).outcome world).answer with
  | ok outputs => simp [ending, Outcome.after, Except.map]
  | error e => simp [ending, Outcome.after, Except.map]

/-- The computation of a status emits what the extraction of the state emits. -/
theorem Status.outcome_compute (reader : OutputReader (Observed σ) ε) (config : ProviderConfig)
    (world : σ) :
    (Status.compute reader config).outcome world =
      ((State.extract reader config).outcome world).map (Except.map Status.ofState) := by
  simp [Status.compute, Outcome.after, Outcome.map]

/-! ## What the lines tell -/

/-- The lines begin with these and then tell how the call has ended: they are those of a success if
and only if it has succeeded, and that of a failure, with the text of the error, if and only if it
has failed. -/
structure Outcome.Tells (told : Outcome σ (Except ε α)) (beginning success : List String)
    (failure : String → String) : Prop where
  success_iff : told.lines = beginning.map (.debug, ·) ++ success.map (.info, ·) ↔
    ∃ a, told.answer = .ok a
  failure_iff : (∃ text, told.lines = beginning.map (.debug, ·) ++ [(.warn, failure text)]) ↔
    ∃ e, told.answer = .error e
  failure_text : ∀ e, told.answer = .error e →
    told.lines = beginning.map (.debug, ·) ++ [(.warn, failure (toString e))]

/-- No line is that of a success and of a failure, for the two differ in their level. -/
theorem Outcome.tells_of_events {told : Outcome σ (Except ε α)} {before onSuccess : List Event}
    {onFailure : String → Event} {beginning success : List String} {failure : String → String}
    (h : told.events = before ++ ending onSuccess onFailure told.answer)
    (hbefore : before.map Event.line = beginning.map (.debug, ·))
    (hsuccess : onSuccess.map Event.line = success.map (.info, ·))
    (hfailure : ∀ text, (onFailure text).line = (.warn, failure text)) :
    told.Tells beginning success failure := by
  have hne : ∀ text, success.map (Level.info, ·) ≠ [(.warn, text)] := by
    intro text heq
    have hmem : (Level.warn, text) ∈ success.map (Level.info, ·) := by simp [heq]
    simp at hmem
  have hlines : told.lines =
      beginning.map (.debug, ·) ++ (ending onSuccess onFailure told.answer).map Event.line := by
    rw [Outcome.lines, h, List.map_append, hbefore]
  cases hanswer : told.answer with
  | ok a =>
    rw [hanswer, ending, hsuccess] at hlines
    constructor
    case success_iff => simp [hlines, hanswer]
    case failure_iff => simp [hlines, hanswer, hne]
    case failure_text => simp [hanswer]
  | error e =>
    rw [hanswer, ending, List.map_singleton, hfailure] at hlines
    constructor
    case success_iff => simp [hlines, hanswer, (hne _).symm]
    case failure_iff => simp [hlines, hanswer]
    case failure_text => simp [hlines, hanswer]

/-! ## Renderings -/

section

variable [OfUnwritable ε]

/-- What a rendering tells: the renderer is called in the world as it is and its answer decides, and
around the call two events are emitted, of which the second says how it has ended. -/
structure Chart.RenderTells (renderer : Renderer (StateM σ) ε) (location : Location)
    (infra : Infrastructure) (account : ServiceAccount) (config : ProviderConfig)
    (cluster : Cluster) (world : σ) (told : Outcome σ (Except ε Files)) : Prop where
  answer : (told.answer, told.world) =
    (Except.map Files.ofRendered <$> renderer location.path location.name infra.namespaceName
      (Values.ofRequest infra account config cluster).tree).run world
  events : told.events = .rendering location.name location.path infra.namespaceName ::
    ending [.rendered location.name infra.namespaceName] (.renderFailed location.name) told.answer
  lines : told.Tells
    ["Rendering chart " ++ location.name ++ " from " ++ location.path ++ " for namespace " ++
      infra.namespaceName]
    ["Rendered chart " ++ location.name ++ " for namespace " ++ infra.namespaceName]
    ("Failed to render chart " ++ location.name ++ ": " ++ ·)

theorem Chart.renderTells (renderer : Renderer (StateM σ) ε) (location : Location)
    (infra : Infrastructure) (account : ServiceAccount) (config : ProviderConfig)
    (cluster : Cluster) (world : σ) :
    RenderTells renderer location infra account config cluster world
      ((render renderer.silent location infra account config cluster).outcome world) := by
  have hevents : ((render renderer.silent location infra account config cluster).outcome
      world).events = [.rendering location.name location.path infra.namespaceName] ++
        ending [.rendered location.name infra.namespaceName] (.renderFailed location.name)
          ((render renderer.silent location infra account config cluster).outcome
            world).answer := by
    rw [outcome_render, ending_map]
    rfl
  refine ⟨?_, hevents, Outcome.tells_of_events hevents rfl rfl fun _ => rfl⟩
  rw [outcome_render]
  rfl

end

/-! ## Extractions -/

/-- The line that lists the names which a config needs. -/
def readingLine (config : ProviderConfig) : String :=
  match config.networks.internal with
  | none =>
    "Reading terraform output variables: " ++
      "[\"vpc_name\", \"subnet_nodes\", \"service_account_email\"]"
  | some _ =>
    "Reading terraform output variables: " ++
      "[\"vpc_name\", \"subnet_nodes\", \"service_account_email\", \"subnet_internal\"]"

theorem OutputKey.plain_name (key : OutputKey) : Text.Plain key.name := by
  cases key <;> decide

theorem plain_of_mem_neededNames {config : ProviderConfig} :
    ∀ name ∈ neededNames config, Text.Plain name := by
  rw [← map_name_requested, List.forall_mem_map]
  exact fun key _ => key.plain_name

theorem message_readingOutputs (config : ProviderConfig) :
    (Event.readingOutputs (neededNames config)).message = readingLine config := by
  unfold Event.message readingLine
  simp only [Text.quoteAll_of_plain plain_of_mem_neededNames]
  unfold neededNames
  cases config.networks.internal with
  | none => exact congrArg ("Reading terraform output variables: " ++ ·) (by decide)
  | some _ =>
    rw [Option.isSome_some, if_pos rfl]
    exact congrArg ("Reading terraform output variables: " ++ ·) (by decide)

/-- What an extraction from a reader of someone else tells: the reader is asked for the needed names
in the world as it is, after the event that lists these names, and its answer decides whether there
is another event. -/
structure State.ExtractTells (reader : OutputReader (StateM σ) ε) (config : ProviderConfig)
    (world : σ) (told : Outcome σ (Except ε State)) : Prop where
  answer : (told.answer, told.world) =
    (Except.map (State.ofOutputs config) <$> reader (neededNames config)).run world
  events : told.events =
    .readingOutputs (neededNames config) :: ending [] .readFailed told.answer
  lines : told.Tells [readingLine config] [] ("Failed to read terraform output variables: " ++ ·)

/-- What an extraction from a document tells, which has an event of its own. -/
structure StateDocument.ExtractTells (state : StateDocument) (config : ProviderConfig) (world : σ)
    (told : Outcome σ (Except Error State)) : Prop where
  answer : (told.answer, told.world) =
    ((state.outputsFor (neededNames config)).map (State.ofOutputs config), world)
  events : told.events = .readingOutputs (neededNames config) ::
    .lookingUp (neededNames config).length state.version :: ending [] .readFailed told.answer
  lines : told.Tells
    [readingLine config, "Looking up " ++ toString (neededNames config).length ++
      " output variables in terraform state v" ++ toString state.version.toNat] []
    ("Failed to read terraform output variables: " ++ ·)

/-- A reader may emit events of its own, if they are of the lowest level. -/
theorem State.tells_extract (reader : OutputReader (Observed σ) ε) (config : ProviderConfig)
    (world : σ) {own : List String}
    (hown : ((reader (neededNames config)).outcome world).lines = own.map (.debug, ·)) :
    ((State.extract reader config).outcome world).Tells (readingLine config :: own) []
      ("Failed to read terraform output variables: " ++ ·) := by
  have hevents : ((State.extract reader config).outcome world).events =
      (.readingOutputs (neededNames config) ::
        ((reader (neededNames config)).outcome world).events) ++
        ending [] .readFailed ((State.extract reader config).outcome world).answer := by
    rw [State.outcome_extract, ending_map]
    rfl
  refine Outcome.tells_of_events hevents ?_ rfl fun _ => rfl
  rw [List.map_cons, List.map_cons, Event.line, message_readingOutputs]
  exact congrArg _ hown

theorem State.extractTells (reader : OutputReader (StateM σ) ε) (config : ProviderConfig)
    (world : σ) :
    State.ExtractTells reader config world
      ((State.extract reader.silent config).outcome world) := by
  refine ⟨?_, ?_, State.tells_extract reader.silent config world rfl⟩
  · rw [State.outcome_extract]
    rfl
  · rw [State.outcome_extract, ending_map]
    rfl

theorem StateDocument.extractTells (state : StateDocument) (config : ProviderConfig) (world : σ) :
    state.ExtractTells config world
      (Observed.outcome (State.extract (m := Observed σ) state.reader config) world) := by
  refine ⟨?_, ?_, State.tells_extract state.reader config world rfl⟩
  · rw [State.outcome_extract]
    rfl
  · rw [State.outcome_extract, ending_map]
    rfl

end

/-! ## Sequences of calls -/

/-- The text of the error of a call that has failed. -/
def errorText [ToString ε] : Except ε α → Option String
  | .ok _ => none
  | .error e => some (toString e)

@[simp] theorem errorText_map [ToString ε] (f : α → β) (answer : Except ε α) :
    errorText (answer.map f) = errorText answer := by
  cases answer <;> rfl

/-- Whoever can be asked for outputs: a reader of someone else or a document. -/
inductive Source (σ : Type) : Type → Type 1 where
  | foreign {ε : Type} (reader : OutputReader (StateM σ) ε) : Source σ ε
  | document (state : StateDocument) : Source σ Error

def Source.ask : Source σ ε → OutputReader (Observed σ) ε
  | foreign reader => reader.silent
  | document state => state.reader

inductive Operation (σ : Type) : Type 1 where
  | render {ε : Type} [ToString ε] [OfUnwritable ε] (renderer : Chart.Renderer (StateM σ) ε)
    (location : Chart.Location) (infra : Infrastructure) (account : ServiceAccount)
    (config : ProviderConfig) (cluster : Cluster)
  | extract {ε : Type} [ToString ε] (source : Source σ ε) (config : ProviderConfig)
  | compute {ε : Type} [ToString ε] (source : Source σ ε) (config : ProviderConfig)

namespace Operation

/-- Calls what the operation stands for. The answer is how the call has failed, if it has. -/
def run : Operation σ → Observed σ (Option String)
  | render renderer location infra account config cluster =>
    errorText <$> Chart.render renderer.silent location infra account config cluster
  | extract source config => errorText <$> State.extract source.ask config
  | compute source config => errorText <$> Status.compute source.ask config

/-- Runs operations one after the other in one world, whether or not they fail. -/
def runAll : List (Operation σ) → Observed σ (List (Option String))
  | [] => return []
  | operation :: operations => do
    let answer ← operation.run
    return answer :: (← runAll operations)

end Operation

/-! ## Warnings -/

/-- The error that an event tells. -/
def Event.failure? : Event → Option String
  | renderFailed _ error | readFailed error => some error
  | rendering .. | rendered .. | readingOutputs _ | lookingUp .. => none

theorem Event.level_eq_warn_iff (event : Event) : event.level = .warn ↔ event.failure?.isSome := by
  cases event <;> simp [level, failure?]

/-- The errors that events tell, in order. -/
def failures (events : List Event) : List String := events.filterMap Event.failure?

theorem countP_warn (events : List Event) :
    events.countP (·.level = .warn) = (failures events).length := by
  rw [failures, List.length_filterMap_eq_countP]
  simp only [Event.level_eq_warn_iff, Bool.decide_eq_true]

theorem failures_cons (event : Event) (events : List Event) :
    failures (event :: events) = event.failure?.toList ++ failures events := by
  cases h : event.failure? <;> simp [failures, h]

theorem failures_append (before after : List Event) :
    failures (before ++ after) = failures before ++ failures after :=
  List.filterMap_append

section

variable [ToString ε]

theorem failures_ending {success : List Event} {failure : String → Event}
    (hsuccess : failures success = []) (hfailure : ∀ text, (failure text).failure? = some text)
    (answer : Except ε α) :
    failures (ending success failure answer) = (errorText answer).toList := by
  cases answer with
  | ok a => exact hsuccess
  | error e => simp [failures, ending, errorText, hfailure]

/-- No source warns; whoever asks it does. -/
theorem Source.failures_ask (source : Source σ ε) (names : List String) (world : σ) :
    failures ((source.ask names).outcome world).events = [] := by
  cases source <;> rfl

theorem Chart.failures_render [OfUnwritable ε] (renderer : Renderer (StateM σ) ε)
    (location : Location) (infra : Infrastructure) (account : ServiceAccount)
    (config : ProviderConfig) (cluster : Cluster) (world : σ) :
    let told := (render renderer.silent location infra account config cluster).outcome world
    failures told.events = (errorText told.answer).toList := by
  rw [outcome_render]
  simp only [errorText_map]
  exact failures_ending rfl (fun _ => rfl) _

theorem State.failures_extract (source : Source σ ε) (config : ProviderConfig) (world : σ) :
    let told := (State.extract source.ask config).outcome world
    failures told.events = (errorText told.answer).toList := by
  rw [State.outcome_extract]
  simp only [errorText_map, failures_cons, failures_append, Source.failures_ask]
  exact failures_ending rfl (fun _ => rfl) _

end

namespace Operation

/-- An operation warns of its error, if it has one, and of nothing else. -/
theorem failures_run (operation : Operation σ) (world : σ) :
    failures (operation.run.outcome world).events =
      (operation.run.outcome world).answer.toList := by
  cases operation with
  | render renderer location infra account config cluster =>
    exact Chart.failures_render renderer location infra account config cluster world
  | extract source config => exact State.failures_extract source config world
  | compute source config =>
    rw [run, Observed.outcome_map, Status.outcome_compute]
    simp only [Outcome.map, errorText_map]
    exact State.failures_extract source config world

/-- A sequence of operations warns of their errors in order. -/
theorem failures_runAll (operations : List (Operation σ)) (world : σ) :
    failures ((runAll operations).outcome world).events =
      ((runAll operations).outcome world).answer.filterMap id := by
  induction operations generalizing world with
  | nil => rfl
  | cons operation operations ih =>
    -- The rest runs in the world that the first operation leaves.
    simp only [runAll, Observed.outcome_bind, Observed.outcome_pure, Outcome.after]
    rw [failures_append, failures_append, failures_run, ih]
    cases (operation.run.outcome world).answer with
    | none => simp [failures]
    | some text => simp [failures]

theorem length_answer_runAll (operations : List (Operation σ)) (world : σ) :
    ((runAll operations).outcome world).answer.length = operations.length := by
  induction operations generalizing world with
  | nil => rfl
  | cons operation operations ih => simp [runAll, Outcome.after, ih]

/-- What a sequence of operations tells: as many warnings as operations have failed, with the texts
of their errors in order. -/
structure RunTells (operations : List (Operation σ)) (told : Outcome σ (List (Option String))) :
    Prop where
  length : told.answer.length = operations.length
  count : told.events.countP (·.level = .warn) = told.answer.countP Option.isSome
  texts : failures told.events = told.answer.filterMap id

theorem runTells (operations : List (Operation σ)) (world : σ) :
    RunTells operations ((runAll operations).outcome world) where
  length := length_answer_runAll operations world
  count := by
    rw [countP_warn, failures_runAll, List.length_filterMap_eq_countP]
    rfl
  texts := failures_runAll operations world

end Operation

/-! ## What is told -/

/-- **Events tell the outcome.** A rendering logs that it begins and then how it has ended, with a
warning if and only if the renderer has answered with an error, and with the text of that error. An
extraction logs the names that it hands to the reader, and a warning if and only if the reader has
answered with an error; a document that is the reader adds how many names it looks up and its own
version. The computation of a status logs what the extraction does. Of any sequence of calls, in a
world in which readers and renderers may do as they like, the warnings are as many as the calls that
have failed, and tell their errors in order. -/
theorem events_tell_outcome [ToString ε] [OfUnwritable ε] :
    (∀ (renderer : Chart.Renderer (StateM σ) ε) (location : Chart.Location)
        (infra : Infrastructure) (account : ServiceAccount) (config : ProviderConfig)
        (cluster : Cluster) (world : σ),
      Chart.RenderTells renderer location infra account config cluster world
        ((Chart.render renderer.silent location infra account config cluster).outcome world)) ∧
    (∀ (reader : OutputReader (StateM σ) ε) (config : ProviderConfig) (world : σ),
      State.ExtractTells reader config world
        ((State.extract reader.silent config).outcome world)) ∧
    (∀ (state : StateDocument) (config : ProviderConfig) (world : σ),
      state.ExtractTells config world
        (Observed.outcome (State.extract (m := Observed σ) state.reader config) world)) ∧
    (∀ (reader : OutputReader (Observed σ) ε) (config : ProviderConfig) (world : σ),
      (Status.compute reader config).outcome world =
        ((State.extract reader config).outcome world).map (Except.map Status.ofState)) ∧
    ∀ (operations : List (Operation σ)) (world : σ),
      Operation.RunTells operations ((Operation.runAll operations).outcome world) :=
  ⟨Chart.renderTells, State.extractTells, StateDocument.extractTells, Status.outcome_compute,
    Operation.runTells⟩

/-- An extraction from a document without outputs, and then a rendering that succeeds. -/
example :
    ((Operation.runAll [
      .extract (.document ⟨4, .empty⟩) ⟨⟨none, none, ⟨"10.250.0.0/16"⟩⟩⟩,
      .render (fun _ name _ _ => return (Except.ok (.empty name) : Except Error _)) default
        ⟨"foo", "bar", ⟨"europe", none, none⟩⟩ ⟨"p", []⟩ ⟨⟨none, none, ⟨"10.250.0.0/16"⟩⟩⟩
        ⟨⟨none, none⟩⟩]).outcome ()).events.map Event.level =
      [.debug, .debug, .warn, .debug, .info] := by
  rfl

end Provisioning
