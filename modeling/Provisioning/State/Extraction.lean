import Provisioning.Event
import Provisioning.Status

/-!
# Asking for the state

The outputs of a run are kept by someone else, who is asked once for all of them. The one who is
asked is a function in a monad of its own, and its errors are its own too: this module adds the
events around the call and nothing to the error.
-/

set_option autoImplicit false

namespace Provisioning

variable {m : Type → Type} {ε : Type}

/-- Whoever can be asked for outputs by their names. -/
abbrev OutputReader (m : Type → Type) (ε : Type) := List String → m (Except ε (Table String))

/-- The state of the infrastructure that a config asks for. -/
def State.extract [Monad m] [MonadLog m] [ToString ε] (reader : OutputReader m ε)
    (config : ProviderConfig) : m (Except ε State) := do
  let names := (OutputKey.requested config).map OutputKey.name
  log (.readingOutputs names)
  match ← reader names with
  | .error e =>
    log (.readFailed (toString e))
    return .error e
  | .ok outputs => return .ok (.ofOutputs config outputs)

/-- The status of the infrastructure that a config asks for. -/
def Status.compute [Monad m] [MonadLog m] [ToString ε] (reader : OutputReader m ε)
    (config : ProviderConfig) : m (Except ε Status) := do
  return (← State.extract reader config).map Status.ofState

end Provisioning
