import Provisioning.Table
import Provisioning.Text.Utf8

/-!
# Rendered charts

A renderer answers with the files it made, under names of its choice: either the bare name of a
file or its path among the templates of the chart. A file is looked up under both, the bare name
first, and under no other, so the templates of another chart are never taken for those of this
one.
-/

set_option autoImplicit false

namespace Provisioning.Chart

structure Rendered where
  /-- The chart that was rendered. -/
  name : String
  files : Table String
  deriving DecidableEq

namespace Rendered

/-- A rendered chart that has no files yet. -/
def empty (name : String) : Rendered := ⟨name, .empty⟩

/-- Adds a file, in place of the one that may have its name. -/
def withFile (chart : Rendered) (file content : String) : Rendered :=
  { chart with files := chart.files.insert file content }

/-- The path of a template of a chart. -/
def templatePath (chart file : String) : String := chart ++ "/templates/" ++ file

/-- The content of a file; one that was not made is empty. -/
def content (chart : Rendered) (file : String) : String :=
  ((chart.files.get? file).or (chart.files.get? (templatePath chart.name file))).getD ""

end Rendered

/-! ## The files of the provisioning tool -/

def mainFile : String := "main.tf"
def variablesFile : String := "variables.tf"
def tfVarsFile : String := "terraform.tfvars"

/-- What the provisioning tool runs on: definitions, declarations of variables and their values. -/
structure Files where
  main : String
  declarations : String
  tfVars : Bytes
  deriving DecidableEq

def Files.ofRendered (chart : Rendered) : Files where
  main := chart.content mainFile
  declarations := chart.content variablesFile
  tfVars := Utf8.encode (chart.content tfVarsFile)

end Provisioning.Chart
