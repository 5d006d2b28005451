import Provisioning.OutputKey
import Provisioning.Proofs.Json.Written
import Provisioning.Proofs.Schema.Within
import Provisioning.Status

/-!
# Names and what stands for them in a document

A value out of a closed list has a name in three places: the table that prints it, the search that
looks a name up, and the shape that reads and writes documents. `Shape.Names` says that the three
are one, for every text there is and however a document spells it, and every choice is such a shape
(`Naming.names_choice`).

The names in documents are not chosen one by one. They come from what the values are called where
they are declared, in which words run together and start with a capital each, by a rule that is the
same for the whole list (`Text.snakeCase`, `Text.lowerCase`). Nothing makes a table that is written
down follow such a rule, so it is proved of each of the two tables that it does.
-/

set_option autoImplicit false

namespace Provisioning

open Json

variable {α : Type}

/-! ## A table, a search and a shape -/

/-- A shape stands for a table of names: a string is read as a value if and only if it is the name
of the value, which is also when the search finds the value, and the name is what is written. -/
structure Shape.Names (shape : Shape α) (ofName? : String → Option α) (name : α → String) :
    Prop where
  search : ∀ s a, ofName? s = some a ↔ s = name a
  tree : ∀ s a, shape.decodeTree (.string s) = .ok a ↔ s = name a
  document : ∀ s document, Shape.tree.decode document = .ok (.string s) →
    ∀ a, shape.decode document = .ok a ↔ s = name a
  written : ∀ a, shape.toJson a = .string (name a)
  text : ∀ a, Shape.tree.decode (Utf8.encode (shape.write a)) = .ok (.string (name a))
  /-- A text that is no name is not found, and refused wherever it stands. -/
  others : ∀ s, (∀ a, s ≠ name a) → ofName? s = none ∧
    (∃ detail, shape.decodeTree (.string s) = .error (.deserialization detail)) ∧
    ∀ document, Shape.tree.decode document = .ok (.string s) →
      ∃ detail, shape.decode document = .error (.deserialization detail)

/-- A document that is kept as a string lists the string and nothing else. -/
theorem Json.lists_string_iff {document : Bytes} {s : String} :
    Shape.tree.decode document = .ok (.string s) ↔ Lists document (.string s) := by
  rw [tree_decode_eq_ok_iff]
  constructor
  · rintro ⟨value, hvalue, htree⟩
    obtain rfl := tree_eq_scalar_iff.mp htree
    exact hvalue
  · intro h
    exact ⟨_, h, rfl⟩

/-- Every text is a string of some document. -/
theorem Json.decode_text_string (s : String) :
    Shape.tree.decode (Utf8.encode (Json.string s).text) = .ok (.string s) :=
  lists_string_iff.mpr (lists_text (everywhere_scalar.mpr trivial) (by simp))

namespace Naming

variable {naming : Naming α} {s : String} {a : α}

theorem accept_eq_ok_iff : naming.accept s = .ok a ↔ naming.name a = s := by
  rw [← naming.ofName?_eq_some_iff, accept]
  cases naming.ofName? s <;> simp

theorem ofJson_string_iff : (Shape.choice naming).ofJson (.string s) = .ok a ↔ s = naming.name a :=
  accept_eq_ok_iff.trans eq_comm

/-- A choice stands for the table that it is made of. -/
theorem names_choice (naming : Naming α) :
    (Shape.choice naming).Names naming.ofName? naming.name where
  search s a := naming.ofName?_eq_some_iff.trans eq_comm
  tree s a := Except.mapError_eq_ok.trans ofJson_string_iff
  document s document h a :=
    ((Shape.choice naming).decode_eq_ok_iff (lists_string_iff.mp h)).trans ofJson_string_iff
  written a := rfl
  text a := decode_text_string (naming.name a)
  others s hother := by
    have hnone : naming.ofName? s = none := by
      refine Option.eq_none_iff_forall_ne_some.mpr ?_
      intro a ha
      exact hother a (naming.ofName?_eq_some_iff.mp ha).symm
    refine ⟨hnone, ?_, ?_⟩
    · refine ⟨(Mismatch.unknownVariant s naming.names).message, ?_⟩
      rw [Shape.decodeTree, Shape.ofJson, accept, hnone]
      rfl
    · intro document h
      refine Shape.exists_decode_error ?_
      intro a ha
      have hread := ((Shape.choice naming).decode_eq_ok_iff (lists_string_iff.mp h)).mp ha
      exact hother a (ofJson_string_iff.mp hread)

/-- A naming is its list and its table. -/
theorem eq_of_name {other : Naming α} (hall : naming.all = other.all)
    (hname : ∀ a, naming.name a = other.name a) : naming = other := by
  cases naming
  cases other
  cases hall
  cases funext hname
  rfl

/-- A rule that gives the names of the table gives no name twice. -/
theorem injective_of_eq_name (naming : Naming α) {rule : α → String}
    (h : ∀ a, rule a = naming.name a) (a b : α) (hab : rule a = rule b) : a = b := by
  rw [h, h] at hab
  exact naming.name_injective a b hab

end Naming

namespace Shape.Names

variable {shape : Shape α} {ofName? : String → Option α} {name : α → String}

theorem toOption_decodeTree (h : shape.Names ofName? name) (s : String) :
    (shape.decodeTree (.string s)).toOption = ofName? s := by
  refine Option.ext ?_
  intro a
  rw [Except.toOption_eq_some_iff, h.tree, h.search]

theorem toOption_decode (h : shape.Names ofName? name) {s : String} {document : Bytes}
    (hs : Shape.tree.decode document = .ok (.string s)) :
    (shape.decode document).toOption = ofName? s := by
  refine Option.ext ?_
  intro a
  rw [Except.toOption_eq_some_iff, h.document s document hs, h.search]

/-- Of a list of names, the search finds those that are decoded, in every spelling. -/
theorem filterMap_decode (h : shape.Names ofName? name) {names : List String}
    {documents : List Bytes}
    (hs : List.Forall₂ (fun s document => Shape.tree.decode document = .ok (.string s)) names
      documents) :
    (documents.filterMap fun document => (shape.decode document).toOption) =
      names.filterMap ofName? := by
  induction hs with
  | nil => rfl
  | cons hs _ ih => rw [List.filterMap_cons, List.filterMap_cons, h.toOption_decode hs, ih]

end Shape.Names

/-! ## Names by a rule -/

namespace Text

/-- Words that are joined by underscores, out of words that start with a capital each. -/
def snakeCase (identifier : String) : String :=
  match identifier.toList with
  | [] => ""
  | first :: others =>
    String.ofList <| first.toLower :: others.flatMap fun c =>
      if c.isUpper then ['_', c.toLower] else [c.toLower]

/-- The same letters without capitals. -/
def lowerCase (identifier : String) : String :=
  String.ofList (identifier.toList.map Char.toLower)

end Text

namespace OutputKey

/-- What a key is called where it is declared. -/
def identifier : OutputKey → String
  | vpcName => "VpcName"
  | serviceAccountEmail => "ServiceAccountEmail"
  | subnetNodes => "SubnetNodes"
  | subnetInternal => "SubnetInternal"

theorem snakeCase_identifier (key : OutputKey) : Text.snakeCase key.identifier = key.name := by
  cases key <;> rfl

/-- The keys under the names that the rule gives them. -/
def derived : Naming OutputKey where
  all := [vpcName, serviceAccountEmail, subnetNodes, subnetInternal]
  name key := Text.snakeCase key.identifier
  mem_all := naming.mem_all
  name_injective := naming.injective_of_eq_name snakeCase_identifier

theorem derived_eq : derived = naming := Naming.eq_of_name rfl snakeCase_identifier

theorem shape_eq_derived : shape = .choice derived := by
  rw [derived_eq]
  rfl

theorem names_shape : shape.Names ofName? name := naming.names_choice

end OutputKey

namespace SubnetPurpose

/-- What a purpose is called where it is declared. -/
def identifier : SubnetPurpose → String
  | nodes => "Nodes"
  | internal => "Internal"

theorem lowerCase_identifier (purpose : SubnetPurpose) :
    Text.lowerCase purpose.identifier = purpose.name := by
  cases purpose <;> rfl

/-- The purposes under the names that the rule gives them. -/
def derived : Naming SubnetPurpose where
  all := [nodes, internal]
  name purpose := Text.lowerCase purpose.identifier
  mem_all := naming.mem_all
  name_injective := naming.injective_of_eq_name lowerCase_identifier

theorem derived_eq : derived = naming := Naming.eq_of_name rfl lowerCase_identifier

theorem shape_eq_derived : shape = .choice derived := by
  rw [derived_eq]
  rfl

theorem names_shape : shape.Names ofName? name := naming.names_choice

end SubnetPurpose

/-! ## The two tables -/

/-- **Names agree with documents.** For output keys and for purposes of subnets, every text is
treated alike by the table, the search and the documents, in every spelling: it stands for the value
whose name it is, or is refused. The shape is the one whose names come from the declared ones by the
rule. So of any list of names the search finds those that are decoded, each as the same key, and no
two keys share a name. -/
theorem names_agree_with_documents :
    OutputKey.shape.Names OutputKey.ofName? OutputKey.name ∧
    OutputKey.shape = .choice OutputKey.derived ∧
    SubnetPurpose.shape.Names SubnetPurpose.ofName? SubnetPurpose.name ∧
    SubnetPurpose.shape = .choice SubnetPurpose.derived ∧
    (∀ s, Shape.tree.decode (Utf8.encode (Json.string s).text) = .ok (.string s)) ∧
    (∀ (names : List String) (documents : List Bytes),
      List.Forall₂ (fun s document => Shape.tree.decode document = .ok (.string s)) names
        documents →
      (documents.filterMap fun document => (OutputKey.shape.decode document).toOption) =
        names.filterMap OutputKey.ofName?) ∧
    (∀ names : List String,
      (names.filter fun s => (OutputKey.shape.decodeTree (.string s)).toOption.isSome) =
        names.filter fun s => (OutputKey.ofName? s).isSome) ∧
    ∀ key key' : OutputKey, key.name = key'.name → key = key' := by
  refine ⟨OutputKey.names_shape, OutputKey.shape_eq_derived, SubnetPurpose.names_shape,
    SubnetPurpose.shape_eq_derived, decode_text_string, ?_, ?_, OutputKey.naming.name_injective⟩
  · intro names documents hs
    exact OutputKey.names_shape.filterMap_decode hs
  · intro names
    simp only [OutputKey.names_shape.toOption_decodeTree]

/-- A name with its underscore as an escape. -/
def escapedName : Bytes := Utf8.encode "\"vpc\\u005fname\""

/-- A text that is a name but for its capitals. -/
def capitalName : Bytes := Utf8.encode "\"VPC_NAME\""

theorem names_agree_with_documents_escaped :
    Shape.tree.decode escapedName = .ok (.string "vpc_name") ∧
      Shape.tree.decode capitalName = .ok (.string "VPC_NAME") ∧
      OutputKey.shape.decode escapedName = .ok .vpcName ∧
      (∃ detail, OutputKey.shape.decode capitalName = .error (.deserialization detail)) ∧
      ([escapedName, capitalName].filterMap fun document =>
        (OutputKey.shape.decode document).toOption) = [.vpcName] := by
  have hescaped : Shape.tree.decode escapedName = .ok (.string "vpc_name") := by decide +kernel
  have hcapital : Shape.tree.decode capitalName = .ok (.string "VPC_NAME") := by decide +kernel
  obtain ⟨hnames, -, -, -, -, hlist, -, -⟩ := names_agree_with_documents
  have hother : ∀ key : OutputKey, "VPC_NAME" ≠ key.name := by
    intro key
    cases key <;> decide
  refine ⟨hescaped, hcapital, (hnames.document _ _ hescaped _).mpr rfl,
    (hnames.others _ hother).2.2 _ hcapital, ?_⟩
  rw [hlist ["vpc_name", "VPC_NAME"] [escapedName, capitalName]
    (.cons hescaped (.cons hcapital .nil))]
  rfl

end Provisioning
