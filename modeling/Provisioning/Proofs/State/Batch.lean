import Provisioning.Proofs.State.Document

/-!
# Many outputs at once

Whoever needs several outputs can look up one name after the other and keep two lists, of what has
been found and of what is missing (`StateDocument.Search`). After any number of names the two say
all there is to say about them, and nothing about other names (`Search.Covers`): that is true before
the first name, and every look-up keeps it true.

Asking for all names at once answers what such a search has in the end
(`StateDocument.outputsFor_eq_search`). So the answer is complete or it is an error, however found
and missing names alternate; and as a search only covers *which* names have been looked up, neither
their order nor a repetition shows in an answer.
-/

set_option autoImplicit false

namespace Provisioning.StateDocument

/-! ## Looking up one name after the other -/

/-- What has been found and what is missing, after some names. -/
structure Search where
  found : Table String
  missing : List String

namespace Search

def start : Search := ⟨.empty, []⟩

/-- One more name is looked up. -/
def lookUp (state : StateDocument) (search : Search) (name : String) : Search :=
  match state.output? name with
  | some text => { search with found := search.found.insert name text }
  | none => { search with missing := search.missing ++ [name] }

/-- A search has succeeded if nothing is missing in the end. -/
def answer (search : Search) : Except Error (Table String) :=
  match search.missing with
  | [] => .ok search.found
  | missing => .error (.missingOutputs missing)

/-- The search has looked up these names, and no others. -/
structure Covers (state : StateDocument) (names : List String) (search : Search) : Prop where
  found : ∀ name, search.found.get? name = if name ∈ names then state.output? name else none
  missing : search.missing = state.missing names

variable {state : StateDocument} {names : List String} {search : Search}

theorem covers_start : Covers state [] start where
  found name := by simp [start]
  missing := rfl

theorem Covers.lookUp (h : Covers state names search) (name : String) :
    Covers state (names ++ [name]) (search.lookUp state name) := by
  rw [Search.lookUp]
  cases ho : state.output? name with
  | some text =>
    refine ⟨?_, ?_⟩
    · intro n
      rw [Table.get?_insert, h.found]
      by_cases hn : n = name
      · subst hn
        simp [ho]
      · simp [hn]
    · show search.missing = _
      rw [h.missing]
      simp [StateDocument.missing, ho]
  | none =>
    refine ⟨?_, ?_⟩
    · intro n
      show search.found.get? n = _
      rw [h.found]
      -- A name that has no output is not found, whether it has been looked up or not.
      by_cases hn : n = name
      · subst hn
        simp [ho]
      · simp [hn]
    · show search.missing ++ [name] = _
      rw [h.missing]
      simp [StateDocument.missing, ho]

theorem Covers.foldl_lookUp (h : Covers state names search) (more : List String) :
    Covers state (names ++ more) (more.foldl (Search.lookUp state) search) := by
  induction more generalizing names search with
  | nil => simpa using h
  | cons name more ih => simpa using ih (h.lookUp name)

end Search

/-- All names are looked up, in order. -/
def search (state : StateDocument) (names : List String) : Search :=
  names.foldl (Search.lookUp state) .start

variable {state : StateDocument} {names names' : List String}

theorem covers_search (state : StateDocument) (names : List String) :
    (state.search names).Covers state names :=
  Search.covers_start.foldl_lookUp names

/-! ## Asking for all names -/

/-- The answer to a list of names is that of a search for them. -/
theorem outputsFor_eq_search (state : StateDocument) (names : List String) :
    state.outputsFor names = (state.search names).answer := by
  have hcovers := covers_search state names
  rw [Search.answer, hcovers.missing]
  cases hmissing : state.missing names with
  | nil =>
    obtain ⟨outputs, houtputs⟩ := exists_outputsFor_iff.mpr (missing_eq_nil_iff.mp hmissing)
    rw [houtputs]
    refine congrArg Except.ok (Table.ext_get? ?_)
    intro name
    rw [get?_of_outputsFor houtputs, hcovers.found]
  | cons name others =>
    rw [outputsFor_of_missing (by simp [hmissing]), hmissing]

theorem missing_of_outputsFor_error {error : Error} (h : state.outputsFor names = .error error) :
    error = .missingOutputs (state.missing names) ∧ state.missing names ≠ [] := by
  by_cases hmissing : state.missing names = []
  · obtain ⟨outputs, houtputs⟩ := exists_outputsFor_iff.mpr (missing_eq_nil_iff.mp hmissing)
    rw [h] at houtputs
    cases houtputs
  · rw [outputsFor_of_missing hmissing] at h
    cases h
    exact ⟨rfl, hmissing⟩

/-- A name is missing as often as it is asked for, unless it has an output. -/
theorem count_missing (state : StateDocument) (names : List String) (name : String) :
    (state.missing names).count name =
      if state.output? name = none then names.count name else 0 := by
  rw [missing]
  by_cases ho : state.output? name = none
  · rw [if_pos ho, List.count_filter (by simp [ho])]
  · rw [if_neg ho, List.count_eq_zero]
    intro hmem
    have hnone : (state.output? name).isNone := (List.mem_filter.mp hmem).2
    exact ho (Option.isNone_iff_eq_none.mp hnone)

/-- Only which names are asked for shows in an answer, and not where or how often. -/
theorem outputsFor_eq_ok_of_same_names (h : ∀ name, name ∈ names ↔ name ∈ names')
    {outputs : Table String} (houtputs : state.outputsFor names = .ok outputs) :
    state.outputsFor names' = .ok outputs := by
  have hpresent := exists_outputsFor_iff.mp ⟨outputs, houtputs⟩
  obtain ⟨outputs', houtputs'⟩ :=
    exists_outputsFor_iff.mpr fun name hname => hpresent name ((h name).mpr hname)
  rw [houtputs']
  refine congrArg Except.ok (Table.ext_get? ?_)
  intro name
  rw [get?_of_outputsFor houtputs, get?_of_outputsFor houtputs']
  simp only [h name]

/-- **All outputs or none.** A list of names is answered if and only if every one of them has an
output. The answer has exactly these names, each with its output. Otherwise the error names what is
missing: a part of the list, in its order, that has every name without an output as often as the
list does, and no other name. It is the answer of a search that looks up one name after the other.
Two lists of the same names, in whatever order and number, have the same answer or both have
none. -/
theorem outputsFor_all_or_none (state : StateDocument) (names : List String) :
    state.outputsFor names = (state.search names).answer ∧
    ((∃ outputs, state.outputsFor names = .ok outputs) ↔
      ∀ name ∈ names, ∃ text, state.output? name = some text) ∧
    (∀ outputs, state.outputsFor names = .ok outputs →
      ∀ name text, (name, text) ∈ outputs.entries ↔
        name ∈ names ∧ state.output? name = some text) ∧
    (∀ error, state.outputsFor names = .error error → ∃ absent,
      error = .missingOutputs absent ∧ absent ≠ [] ∧ absent.Sublist names ∧
        ∀ name, absent.count name = if state.output? name = none then names.count name else 0) ∧
    ∀ names', (∀ name, name ∈ names' ↔ name ∈ names) →
      ∀ outputs, state.outputsFor names' = .ok outputs ↔ state.outputsFor names = .ok outputs := by
  refine ⟨outputsFor_eq_search state names, ?_, ?_, ?_, ?_⟩
  · rw [exists_outputsFor_iff]
    exact forall₂_congr fun name _ => Option.isSome_iff_exists
  · intro outputs houtputs name text
    rw [Table.mem_entries_iff, get?_of_outputsFor houtputs, Option.ite_none_right_eq_some]
  · intro error herror
    obtain ⟨rfl, hmissing⟩ := missing_of_outputsFor_error herror
    exact ⟨_, rfl, hmissing, List.filter_sublist, count_missing state names⟩
  · intro names' hnames outputs
    constructor
    · exact outputsFor_eq_ok_of_same_names hnames
    · exact outputsFor_eq_ok_of_same_names fun name => (hnames name).symm

/-- A state with one output. -/
def vpcOnly : StateDocument := ⟨4, .ofList [("vpc_name", "v")]⟩

theorem outputsFor_vpcOnly :
    vpcOnly.outputsFor ["a", "vpc_name", "b", "vpc_name", "a"] =
        .error (.missingOutputs ["a", "b", "a"]) ∧
      ["a", "b", "a"].Sublist ["a", "vpc_name", "b", "vpc_name", "a"] ∧
      vpcOnly.outputsFor ["vpc_name", "vpc_name"] = .ok (.ofList [("vpc_name", "v")]) ∧
      ∀ name text, (name, text) ∈ (Table.ofList [("vpc_name", "v")]).entries ↔
        name ∈ ["vpc_name", "vpc_name"] ∧ vpcOnly.output? name = some text := by
  obtain ⟨hsearch, -, -, habsent, -⟩ :=
    outputsFor_all_or_none vpcOnly ["a", "vpc_name", "b", "vpc_name", "a"]
  obtain ⟨hone, -, -, -, hsame⟩ := outputsFor_all_or_none vpcOnly ["vpc_name"]
  obtain ⟨-, -, hentries, -, -⟩ := outputsFor_all_or_none vpcOnly ["vpc_name", "vpc_name"]
  have herror := hsearch.trans (show _ = Except.error (.missingOutputs ["a", "b", "a"]) from rfl)
  have htwice := (hsame ["vpc_name", "vpc_name"] (by simp) _).mpr
    (hone.trans (show _ = Except.ok (Table.ofList [("vpc_name", "v")]) from rfl))
  obtain ⟨absent, habsent, -, hsublist, -⟩ := habsent _ herror
  cases habsent
  exact ⟨herror, hsublist, htwice, hentries _ htwice⟩

end Provisioning.StateDocument
