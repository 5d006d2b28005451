import Provisioning.Schema.Shape

/-!
# Where the charts are

A chart has a directory and a name. The chart of the infrastructure comes with this provider, in
the directory of its internal charts; another one can be named instead, in part or in whole.

A directory is given by the text of its path, as it stands in a document. File systems know paths
that are no text; no document can name one, and a location here has none.
-/

set_option autoImplicit false

namespace Provisioning.Chart

/-- What the provisioning tool is told that it works on. -/
def purpose : String := "infra"

/-- The name of the infrastructure chart, which is that of the provider and the purpose. -/
def infrastructureName : String := "gcp-" ++ purpose

/-- The directory of all charts of the provider. -/
def directory : String := "controllers/provider-gcp/charts"

/-- The directory of the charts that are not installed by themselves. -/
def internalDirectory : String := directory ++ "/internal"

/-- The directory of the infrastructure chart. -/
def infrastructurePath : String := internalDirectory ++ "/" ++ infrastructureName

structure Location where
  path : String
  name : String
  deriving DecidableEq

namespace Location

/-- The infrastructure chart. -/
instance : Inhabited Location := ⟨⟨infrastructurePath, infrastructureName⟩⟩

def shape : Shape Location :=
  .record "InfraChartConfig"
    (.orElse "chart_path" infrastructurePath (.leaf (.text "path string" (.refl String))) <|
     .orElse "chart_name" infrastructureName .string <|
     .nil)
    ⟨fun (path, name, ()) => ⟨path, name⟩, fun l => (l.path, l.name, ()),
      fun _ => rfl, fun _ => rfl⟩

end Location

end Provisioning.Chart
