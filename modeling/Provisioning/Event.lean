import Provisioning.Text.Quoted

/-!
# What is logged

An event says what is about to be done or how it ended. It is data, with a level and a wording, so
that the functions that emit events need not know what becomes of them: they work in any monad that
takes an `Event` (`MonadLog`). The plainest such monad keeps them in a list (`Logged`).
-/

set_option autoImplicit false

namespace Provisioning

inductive Level where
  | debug
  | info
  | warn
  deriving DecidableEq

def Level.label : Level → String
  | debug => "DEBUG"
  | info => "INFO"
  | warn => "WARN"

inductive Event where
  | rendering (chart path namespaceName : String)
  | rendered (chart namespaceName : String)
  | renderFailed (chart error : String)
  | readingOutputs (names : List String)
  /-- A state document is asked for so many outputs. -/
  | lookingUp (count : Nat) (version : UInt64)
  | readFailed (error : String)
  deriving DecidableEq

namespace Event

def level : Event → Level
  | rendering .. | readingOutputs _ | lookingUp .. => .debug
  | rendered .. => .info
  | renderFailed .. | readFailed _ => .warn

def message : Event → String
  | rendering chart path namespaceName =>
    "Rendering chart " ++ chart ++ " from " ++ path ++ " for namespace " ++ namespaceName
  | rendered chart namespaceName =>
    "Rendered chart " ++ chart ++ " for namespace " ++ namespaceName
  | renderFailed chart error => "Failed to render chart " ++ chart ++ ": " ++ error
  | readingOutputs names => "Reading terraform output variables: " ++ Text.quoteAll names
  | lookingUp count version =>
    "Looking up " ++ String.ofList (Nat.toDigits 10 count) ++
      " output variables in terraform state v" ++
      String.ofList (Nat.toDigits 10 version.toNat)
  | readFailed error => "Failed to read terraform output variables: " ++ error

end Event

class MonadLog (m : Type → Type) where
  log : Event → m Unit

export MonadLog (log)

/-- A computation whose events are kept, in order. -/
abbrev Logged := StateM (List Event)

instance : MonadLog Logged := ⟨fun event => modify (· ++ [event])⟩

/-- What a computation answers, and the events it has emitted. -/
def Logged.outcome {α : Type} (x : Logged α) : α × List Event := (StateT.run x []).run

end Provisioning
