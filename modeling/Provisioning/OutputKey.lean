import Provisioning.ProviderConfig

/-!
# The outputs of a provisioning run

A run leaves its results under fixed names. They are stable: the chart is told to use them, the
state is asked for them, and `OutputKey` is the one list of them.
-/

set_option autoImplicit false

namespace Provisioning

inductive OutputKey where
  | vpcName
  | serviceAccountEmail
  | subnetNodes
  | subnetInternal
  deriving DecidableEq

namespace OutputKey

/-- Every key, in declared order. -/
def all : List OutputKey := [vpcName, serviceAccountEmail, subnetNodes, subnetInternal]

def name : OutputKey → String
  | vpcName => "vpc_name"
  | serviceAccountEmail => "service_account_email"
  | subnetNodes => "subnet_nodes"
  | subnetInternal => "subnet_internal"

def naming : Naming OutputKey where
  all := all
  name := name
  mem_all a := by cases a <;> decide
  name_injective a b := by cases a <;> cases b <;> decide

def ofName? (name : String) : Option OutputKey := all.find? (·.name = name)

def shape : Shape OutputKey := .choice naming

/-- The keys to ask for. The internal subnet is asked for only if there is to be one. -/
def requested (config : ProviderConfig) : List OutputKey :=
  [vpcName, subnetNodes, serviceAccountEmail] ++
    if config.hasInternal then [subnetInternal] else []

end OutputKey

end Provisioning
