import Provisioning.State.Extraction

/-!
# State documents

The provisioning tool persists its state as a document. Two formats of it are known, which keep the
outputs in different places: format 3 in the first module, which is the root, and format 4 at the
top. A document of either format is read in full before its version is looked at, so a fault in a
part that the version does not use is still a fault.

An output is any value. Whoever asks for it gets a text: a string as it is, anything else as its
compact text.
-/

set_option autoImplicit false

namespace Provisioning

/-! ## What is persisted -/

namespace StateFile

structure Output where
  value : Json

def Output.shape : Shape Output :=
  .record "RawOutput"
    (.required "value" .tree <|
     .nil)
    ⟨fun (value, ()) => ⟨value⟩, fun o => (o.value, ()), fun _ => rfl, fun _ => rfl⟩

/-- The text of an output. -/
def Output.text (output : Output) : String :=
  match output.value with
  | .string text => text
  | value => value.text

structure Module where
  outputs : Table Output

def Module.shape : Shape Module :=
  .record "RawModule"
    (.orElse "outputs" .empty (.table Output.shape) <|
     .nil)
    ⟨fun (outputs, ()) => ⟨outputs⟩, fun m => (m.outputs, ()), fun _ => rfl, fun _ => rfl⟩

end StateFile

structure StateFile where
  version : UInt64
  outputs : Table StateFile.Output
  modules : List StateFile.Module

namespace StateFile

def shape : Shape StateFile :=
  .record "RawState"
    (.required "version" (.leaf .word) <|
     .orElse "outputs" .empty (.table Output.shape) <|
     .orElse "modules" [] (.list Module.shape) <|
     .nil)
    ⟨fun (version, outputs, modules, ()) => ⟨version, outputs, modules⟩,
      fun f => (f.version, f.outputs, f.modules, ()), fun _ => rfl, fun _ => rfl⟩

/-- The outputs of the root module, which the version says where to find. -/
def selected (file : StateFile) : Except Error (Table Output) :=
  if file.version = 3 then .ok ((file.modules.head?.map Module.outputs).getD .empty)
  else if file.version = 4 then .ok file.outputs
  else .error (.unsupportedVersion file.version)

end StateFile

/-! ## What is read from it -/

/-- The outputs of a persisted state, as texts. -/
structure StateDocument where
  version : UInt64
  outputs : Table String
  deriving DecidableEq

namespace StateDocument

/-- A document without outputs, of no version. -/
instance : Inhabited StateDocument := ⟨⟨0, .empty⟩⟩

def ofDocument (document : Bytes) : Except Error StateDocument := do
  let file ← StateFile.shape.decode document
  return ⟨file.version, (← file.selected).map StateFile.Output.text⟩

def output? (state : StateDocument) (name : String) : Option String := state.outputs.get? name

/-- The outputs of all the names, or an error that lists the names without one. -/
def outputsFor (state : StateDocument) (names : List String) : Except Error (Table String) :=
  match names.filter fun name => (state.output? name).isNone with
  | [] => .ok (.ofList (names.filterMap fun name => (state.output? name).map (name, ·)))
  | missing => .error (.missingOutputs missing)

/-- A persisted state as one who can be asked for outputs. -/
def reader {m : Type → Type} [Monad m] [MonadLog m] (state : StateDocument) :
    OutputReader m Error := fun names => do
  log (.lookingUp names.length state.version)
  return state.outputsFor names

end StateDocument

end Provisioning
