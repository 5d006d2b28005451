import Provisioning.OutputKey

/-!
# The state of a provisioned infrastructure

What a run has left, taken from its outputs. An output that is absent is an empty text, so a state
can be taken from any table; the internal subnet alone may be absent from a state, and is exactly
when the config asks for none.
-/

set_option autoImplicit false

namespace Provisioning

structure State where
  vpcName : String
  serviceAccountEmail : String
  subnetNodes : String
  subnetInternal : Option String
  deriving DecidableEq

namespace State

/-- A state in which nothing has been provisioned. -/
instance : Inhabited State := ⟨⟨"", "", "", none⟩⟩

/-- The state that a table of outputs shows to a config. -/
def ofOutputs (config : ProviderConfig) (outputs : Table String) : State :=
  let output (key : OutputKey) := (outputs.get? key.name).getD ""
  { vpcName := output .vpcName
    serviceAccountEmail := output .serviceAccountEmail
    subnetNodes := output .subnetNodes
    subnetInternal := if config.hasInternal then some (output .subnetInternal) else none }

end State

end Provisioning
