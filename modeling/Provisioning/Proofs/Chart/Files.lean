import Provisioning.Chart.Rendered

/-!
# What is taken from a rendered chart

A file of a chart stands under its bare name, or else under its path among the templates of the
chart that was rendered; a file that stands under neither is empty. `Rendered.Finds` lists these
cases, and in every chart exactly one content is found for a file (`Rendered.content_eq_iff`). The
provisioning tool is given three of them, the last one as bytes (`Files.takenFrom_iff`).
-/

set_option autoImplicit false

namespace Provisioning.Chart

/-- The content that a chart has for a file. -/
inductive Rendered.Finds (chart : Rendered) (file : String) : String → Prop where
  | bare {content : String} (h : chart.files.get? file = some content) : Finds chart file content
  | template {content : String} (hbare : chart.files.get? file = none)
      (h : chart.files.get? (chart.name ++ "/templates/" ++ file) = some content) :
      Finds chart file content
  | absent (hbare : chart.files.get? file = none)
      (h : chart.files.get? (chart.name ++ "/templates/" ++ file) = none) : Finds chart file ""

theorem Rendered.finds_content (chart : Rendered) (file : String) :
    chart.Finds file (chart.content file) := by
  rw [content, templatePath]
  cases hbare : chart.files.get? file with
  | some content => exact .bare hbare
  | none =>
    cases h : chart.files.get? (chart.name ++ "/templates/" ++ file) with
    | some content => exact .template hbare h
    | none => exact .absent hbare h

theorem Rendered.content_eq_iff {chart : Rendered} {file content : String} :
    chart.content file = content ↔ chart.Finds file content := by
  constructor
  · rintro rfl
    exact chart.finds_content file
  · intro h
    rw [Rendered.content, templatePath]
    cases h with
    | bare h => rw [h]; rfl
    | template hbare h => rw [hbare, h]; rfl
    | absent hbare h => rw [hbare, h]; rfl

/-- The files are those that the chart has under the names that the provisioning tool knows. -/
structure Files.TakenFrom (chart : Rendered) (files : Files) : Prop where
  main : chart.Finds "main.tf" files.main
  declarations : chart.Finds "variables.tf" files.declarations
  tfVars : ∃ text, chart.Finds "terraform.tfvars" text ∧ files.tfVars = text.toUTF8.data.toList

theorem Files.takenFrom_iff {chart : Rendered} {files : Files} :
    files.TakenFrom chart ↔ files = .ofRendered chart := by
  constructor
  · rintro ⟨hmain, hdeclarations, text, htext, hbytes⟩
    obtain ⟨main, declarations, tfVars⟩ := files
    rw [ofRendered, mainFile, variablesFile, tfVarsFile, Rendered.content_eq_iff.mpr hmain,
      Rendered.content_eq_iff.mpr hdeclarations, Rendered.content_eq_iff.mpr htext,
      Utf8.encode_eq_toUTF8, ← hbytes]
  · rintro rfl
    exact ⟨chart.finds_content mainFile, chart.finds_content variablesFile,
      chart.content tfVarsFile, chart.finds_content tfVarsFile, Utf8.encode_eq_toUTF8 _⟩

end Provisioning.Chart
