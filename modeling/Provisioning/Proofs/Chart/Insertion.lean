import Provisioning.Proofs.Members
import Provisioning.Proofs.Chart.Files

/-!
# Charts made file by file

A renderer makes its answer by adding files one after the other, from an empty chart on, and may add
a name more than once. What such a chart answers for a key is what has been added last under that
key (`get?_ofFiles`): one step changes one key, and a run is the table built from its list of pairs.

So a run says no more than which contents each key has had, in which order. A file is looked up
under two keys, its bare name and its path among the templates of the chart, and whatever is added
under a third one has no effect on it. No path of a template of another chart, or of a chart inside
this one, is one of the two: both end in the name of the file, so what stands before it decides
(`append_eq_key_iff`).
-/

set_option autoImplicit false

namespace Provisioning

/-! ## What has been added last -/

section Members

variable {α : Type}

theorem last?_append (name : String) (xs ys : List (String × α)) :
    last? name (xs ++ ys) = (last? name ys).or (last? name xs) := by
  rw [last?, named_append, List.getLast?_append, last?, last?]
  cases (named name ys).getLast? <;> rfl

theorem named_eq_nil {name : String} {members : List (String × α)}
    (h : ∀ m ∈ members, m.1 ≠ name) : named name members = [] :=
  List.filter_eq_nil_iff.mpr fun m hm => by simpa using h m hm

theorem last?_eq_none {name : String} {members : List (String × α)}
    (h : ∀ m ∈ members, m.1 ≠ name) : last? name members = none :=
  last?_eq_none_iff.mpr (named_eq_nil h)

/-- What stands behind the last member of a name does not have that name. -/
theorem last?_append_cons {name : String} {value : α} (before : List (String × α))
    {after : List (String × α)} (h : ∀ m ∈ after, m.1 ≠ name) :
    last? name (before ++ (name, value) :: after) = some value := by
  rw [last?_append, last?_cons, last?_eq_none h]
  simp

theorem named_insert_of_ne {name : String} {m : String × α} (h : m.1 ≠ name)
    (before after : List (String × α)) :
    named name (before ++ m :: after) = named name (before ++ after) := by
  rw [named_append, named_cons_of_ne h, ← named_append]

end Members

namespace Chart

/-! ## Runs of insertions -/

/-- The chart that a run of insertions makes. -/
def Rendered.ofFiles (chart : String) (files : List (String × String)) : Rendered :=
  files.foldl (fun rendered file => rendered.withFile file.1 file.2) (.empty chart)

namespace Rendered

/-- A step puts one content under one key and leaves the name of the chart. -/
theorem foldl_withFile (files : List (String × String)) (chart : Rendered) :
    files.foldl (fun rendered file => rendered.withFile file.1 file.2) chart =
      ⟨chart.name, files.foldl (fun t (name, content) => t.insert name content) chart.files⟩ := by
  induction files generalizing chart with
  | nil => rfl
  | cons file files ih => exact ih (chart.withFile file.1 file.2)

theorem ofFiles_eq (chart : String) (files : List (String × String)) :
    ofFiles chart files = ⟨chart, .ofList files⟩ :=
  foldl_withFile files (.empty chart)

theorem get?_ofFiles (chart : String) (files : List (String × String)) (key : String) :
    (ofFiles chart files).files.get? key = last? key files := by
  rw [ofFiles_eq]
  exact Table.get?_ofList files key

theorem content_ofFiles (chart file : String) (files : List (String × String)) :
    (ofFiles chart files).content file =
      ((last? file files).or (last? (chart ++ "/templates/" ++ file) files)).getD "" := by
  rw [content, get?_ofFiles, get?_ofFiles, ofFiles_eq, templatePath]

/-- A content depends on what has been added under two keys. -/
theorem content_ofFiles_congr {chart file : String} {files files' : List (String × String)}
    (hbare : last? file files' = last? file files)
    (htemplate : last? (chart ++ "/templates/" ++ file) files' =
      last? (chart ++ "/templates/" ++ file) files) :
    (ofFiles chart files').content file = (ofFiles chart files).content file := by
  rw [content_ofFiles, content_ofFiles, hbare, htemplate]

theorem content_ofFiles_insert {chart file key : String} (hbare : key ≠ file)
    (htemplate : key ≠ chart ++ "/templates/" ++ file) (text : String)
    (before after : List (String × String)) :
    (ofFiles chart (before ++ (key, text) :: after)).content file =
      (ofFiles chart (before ++ after)).content file := by
  refine content_ofFiles_congr ?_ ?_
  · rw [last?, named_insert_of_ne hbare, last?]
  · rw [last?, named_insert_of_ne htemplate, last?]

/-- A chart keeps of a run what comes last under each key. -/
theorem ofFiles_eq_iff {chart : String} {files files' : List (String × String)} :
    ofFiles chart files' = ofFiles chart files ↔ ∀ key, last? key files' = last? key files := by
  constructor
  · intro h key
    rw [← get?_ofFiles chart, h, get?_ofFiles]
  · intro h
    rw [ofFiles_eq, ofFiles_eq]
    congr 1
    refine Table.ext_get? fun key => ?_
    rw [Table.get?_ofList, Table.get?_ofList, h key]

theorem named_swap {f g : String × String} (h : f.1 ≠ g.1) (before after : List (String × String))
    (key : String) :
    named key (before ++ f :: g :: after) = named key (before ++ g :: f :: after) := by
  -- One of the two does not have the key, and may stand anywhere.
  by_cases hf : f.1 = key
  · have hg : g.1 ≠ key := fun hg => h (hf.trans hg.symm)
    have := named_insert_of_ne hg (before ++ [f]) after
    rw [List.append_assoc, List.append_assoc] at this
    exact this.trans (named_insert_of_ne hg before (f :: after)).symm
  · have := named_insert_of_ne hf (before ++ [g]) after
    rw [List.append_assoc, List.append_assoc] at this
    exact (named_insert_of_ne hf before (g :: after)).trans this.symm

/-! ## The two keys of a file -/

/-- Of all that ends in the name of a file, two are its keys. -/
theorem append_eq_key_iff (chart file front : String) :
    front ++ file = file ∨ front ++ file = chart ++ "/templates/" ++ file ↔
      front = "" ∨ front = chart ++ "/templates/" := by
  rw [String.append_left_inj, String.append_eq_right_iff]

theorem subchart_front_ne (chart sub : String) :
    chart ++ "/charts/" ++ sub ++ "/templates/" ≠ chart ++ "/templates/" := by
  rw [String.append_assoc, String.append_assoc, Ne, String.append_right_inj]
  intro h
  have := congrArg String.length h
  simp only [String.length_append] at this
  have hcharts : "/charts/".length = 8 := rfl
  omega

theorem templates_front_ne_empty (front : String) : front ++ "/templates/" ≠ "" := by
  simp

/-! ## What a run of insertions makes -/

section

variable (chart file : String) (files : List (String × String))

/-- A content is the one that has been added last under the name of a file, else the one added last
under its path among the templates of the chart, else none. -/
structure LastAdded (content : String) : Prop where
  eq_last : content =
    ((last? file files).or (last? (chart ++ "/templates/" ++ file) files)).getD ""
  bare : ∀ before text after, files = before ++ (file, text) :: after →
    (∀ f ∈ after, f.1 ≠ file) → content = text
  template : ∀ before text after,
    files = before ++ (chart ++ "/templates/" ++ file, text) :: after →
    (∀ f ∈ after, f.1 ≠ chart ++ "/templates/" ++ file) → (∀ f ∈ files, f.1 ≠ file) →
    content = text
  absent : (∀ f ∈ files, f.1 ≠ file ∧ f.1 ≠ chart ++ "/templates/" ++ file) → content = ""

theorem lastAdded_content : LastAdded chart file files ((ofFiles chart files).content file) where
  eq_last := content_ofFiles chart file files
  bare := by
    rintro before text after rfl hafter
    rw [content_ofFiles, last?_append_cons before hafter]
    rfl
  template := by
    rintro before text after rfl hafter hbare
    rw [content_ofFiles, last?_eq_none hbare, last?_append_cons before hafter]
    rfl
  absent h := by
    rw [content_ofFiles, last?_eq_none fun f hf => (h f hf).1, last?_eq_none fun f hf => (h f hf).2]
    rfl

/-- All other paths that end in the name of a file are other keys than its two: of a chart within
this one, of another chart, longer and shorter ones. -/
structure TwoKeys : Prop where
  front_iff : ∀ front, front ++ file = file ∨ front ++ file = chart ++ "/templates/" ++ file ↔
    front = "" ∨ front = chart ++ "/templates/"
  subchart : ∀ sub, chart ++ "/charts/" ++ sub ++ "/templates/" ++ file ≠ file ∧
    chart ++ "/charts/" ++ sub ++ "/templates/" ++ file ≠ chart ++ "/templates/" ++ file
  other : ∀ other, other ≠ chart → other ++ "/templates/" ++ file ≠ file ∧
    other ++ "/templates/" ++ file ≠ chart ++ "/templates/" ++ file

theorem twoKeys : TwoKeys chart file := by
  have hkeys (front : String) (hempty : front ≠ "") (hown : front ≠ chart ++ "/templates/") :
      front ++ file ≠ file ∧ front ++ file ≠ chart ++ "/templates/" ++ file :=
    not_or.mp fun h => ((append_eq_key_iff chart file front).mp h).elim hempty hown
  refine ⟨append_eq_key_iff chart file, ?_, ?_⟩
  · intro sub
    exact hkeys _ (templates_front_ne_empty _) (subchart_front_ne chart sub)
  · intro other hother
    refine hkeys _ (templates_front_ne_empty other) ?_
    rwa [Ne, String.append_left_inj]

/-- An insertion under another key may stand anywhere or be left out. Runs that have the same
contents under each key, in the same order, make the same chart, in particular those that put two
insertions under different keys the other way round. -/
structure OthersIdle : Prop where
  other_key : ∀ before after key text, files = before ++ after → key ≠ file →
    key ≠ chart ++ "/templates/" ++ file →
    (ofFiles chart (before ++ (key, text) :: after)).content file =
      (ofFiles chart files).content file
  same_named : ∀ files', (∀ key, named key files' = named key files) →
    ofFiles chart files' = ofFiles chart files
  swapped : ∀ before f g after, files = before ++ f :: g :: after → f.1 ≠ g.1 →
    ofFiles chart (before ++ g :: f :: after) = ofFiles chart files

theorem othersIdle : OthersIdle chart file files where
  other_key := by
    rintro before after key text rfl hbare htemplate
    exact content_ofFiles_insert hbare htemplate text before after
  same_named files' h := by
    refine ofFiles_eq_iff.mpr fun key => ?_
    rw [last?, h key, last?]
  swapped := by
    rintro before f g after rfl hne
    refine ofFiles_eq_iff.mpr fun key => ?_
    rw [last?, named_swap hne.symm, last?]

variable {chart files}

/-- The three files of the provisioning tool depend on six keys. -/
theorem ofRendered_ofFiles_congr {files' : List (String × String)}
    (h : ∀ key ∈ ["main.tf", chart ++ "/templates/main.tf",
        "variables.tf", chart ++ "/templates/variables.tf",
        "terraform.tfvars", chart ++ "/templates/terraform.tfvars"],
      last? key files' = last? key files) :
    Files.ofRendered (ofFiles chart files') = Files.ofRendered (ofFiles chart files) := by
  have hlast : ∀ name ∈ ["main.tf", "variables.tf", "terraform.tfvars"],
      (ofFiles chart files').content name = (ofFiles chart files).content name := by
    intro name hname
    simp only [List.mem_cons, List.not_mem_nil, or_false] at hname
    have hpath (tail : String) :
        chart ++ "/templates/" ++ tail = chart ++ ("/templates/" ++ tail) :=
      String.append_assoc
    obtain rfl | rfl | rfl := hname
    all_goals exact content_ofFiles_congr (h _ (by simp)) (h _ (by simp [hpath]))
  rw [Files.ofRendered, Files.ofRendered, mainFile, variablesFile, tfVarsFile,
    hlast "main.tf" (by simp), hlast "variables.tf" (by simp), hlast "terraform.tfvars" (by simp)]

end

/-- **A file is looked up under two keys.** In a chart that has been made by any run of insertions,
a file has the content that has been added last under its name, even if that is empty, else the one
added last under its path among the templates of the chart, else none. So an insertion under another
key may stand anywhere or be left out, and all other paths that end in the name of the file are
other keys: of a chart within this one, of another chart, longer and shorter ones. Runs that have
the same contents under each key, in the same order, make the same chart, in particular those that
put two insertions under different keys the other way round. The three files of the provisioning
tool depend on six keys. -/
theorem content_last_inserted (chart file : String) (files : List (String × String)) :
    LastAdded chart file files ((ofFiles chart files).content file) ∧ TwoKeys chart file ∧
      OthersIdle chart file files ∧
      ∀ files', (∀ key ∈ ["main.tf", chart ++ "/templates/main.tf",
            "variables.tf", chart ++ "/templates/variables.tf",
            "terraform.tfvars", chart ++ "/templates/terraform.tfvars"],
          last? key files' = last? key files) →
        Files.ofRendered (ofFiles chart files') = Files.ofRendered (ofFiles chart files) :=
  ⟨lastAdded_content chart file files, twoKeys chart file, othersIdle chart file files,
    fun _ => ofRendered_ofFiles_congr⟩

/-- A template that is overridden by an empty file, a path of another chart between them, and a path
of a chart inside. -/
def overriddenFiles : List (String × String) :=
  [("gcp-infra/templates/main.tf", "own"), ("other/templates/main.tf", "foreign"),
    ("main.tf", "first"), ("main.tf", ""), ("gcp-infra/charts/sub/templates/main.tf", "sub")]

/-- The empty file counts. It still does with a path in front that only ends like the template, with
its neighbour of another key put before it, and with nothing of the run but itself. -/
theorem content_last_inserted_overridden :
    (ofFiles "gcp-infra" overriddenFiles).content "main.tf" = "" ∧
      (ofFiles "gcp-infra" (("templates/main.tf", "short") :: overriddenFiles)).content "main.tf" =
        "" ∧
      ofFiles "gcp-infra"
          [("gcp-infra/templates/main.tf", "own"), ("other/templates/main.tf", "foreign"),
            ("main.tf", "first"), ("gcp-infra/charts/sub/templates/main.tf", "sub"),
            ("main.tf", "")] =
        ofFiles "gcp-infra" overriddenFiles ∧
      Files.ofRendered (ofFiles "gcp-infra"
          [("gcp-infra/templates/main.tf", "own"), ("main.tf", "")]) =
        Files.ofRendered (ofFiles "gcp-infra" overriddenFiles) := by
  obtain ⟨hlast, -, hothers, hsix⟩ :=
    content_last_inserted "gcp-infra" "main.tf" overriddenFiles
  have hempty : (ofFiles "gcp-infra" overriddenFiles).content "main.tf" = "" :=
    hlast.bare [("gcp-infra/templates/main.tf", "own"), ("other/templates/main.tf", "foreign"),
      ("main.tf", "first")] "" [("gcp-infra/charts/sub/templates/main.tf", "sub")] rfl (by simp)
  refine ⟨hempty, ?_, ?_, ?_⟩
  · rw [← hempty]
    exact hothers.other_key [] overriddenFiles "templates/main.tf" "short" rfl (by simp) (by decide)
  · exact hothers.swapped [("gcp-infra/templates/main.tf", "own"),
      ("other/templates/main.tf", "foreign"), ("main.tf", "first")] ("main.tf", "")
      ("gcp-infra/charts/sub/templates/main.tf", "sub") [] rfl (by simp)
  · refine hsix _ ?_
    decide

end Rendered

end Chart

end Provisioning
