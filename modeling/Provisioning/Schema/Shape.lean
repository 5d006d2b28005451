import Provisioning.Json.Fault

/-!
# Shapes of documents

A `Shape α` says how a value of type `α` stands in a document. It is data, and three functions
interpret it: `Shape.read` reads the bytes of a document, `Shape.ofJson` a tree, and `Shape.toJson`
writes. A type is described once, so the three cannot disagree about the name of a field, the order
of the fields or what an absent one means; and a fact about every document is an induction over
shapes and no case analysis over documents.

A record is described by its `Fields`, from which two more types are computed: the tuple of the
values of all fields, and the *slots* in which they are collected while the members come in any
order. The record itself is put together from the tuple by an `Assembly`.
-/

set_option autoImplicit false

namespace Provisioning

/-! ## Ingredients -/

/-- A way of writing the same data as another type, and the way back. -/
structure Assembly (γ α : Type) where
  build : γ → α
  parts : α → γ
  build_parts : ∀ a, build (parts a) = a
  parts_build : ∀ g, parts (build g) = g

/-- The data as it is. -/
def Assembly.refl (α : Type) : Assembly α α := ⟨id, id, fun _ => rfl, fun _ => rfl⟩

/-- A value without parts: which leaves are accepted, and which one is written. -/
structure Leaf (α : Type) where
  accept : Found → Except Mismatch α
  give : α → Scalar
  accept_give : ∀ a, accept (.scalar (give a)) = .ok a
  refuses_sequence : ∀ a, accept .sequence ≠ .ok a
  refuses_map : ∀ a, accept .map ≠ .ok a

namespace Leaf

/-- Text of any kind, called `noun` when something else is found. -/
def text {α : Type} (noun : String) (as : Assembly String α) : Leaf α where
  accept
    | .scalar (.string s) => .ok (as.build s)
    | found => .error (.wrongType found noun)
  give a := .string (as.parts a)
  accept_give a := by simp [as.build_parts]
  refuses_sequence := nofun
  refuses_map := nofun

/-- A truth value. -/
def flag : Leaf Bool where
  accept
    | .scalar (.bool b) => .ok b
    | found => .error (.wrongType found "a boolean")
  give := .bool
  accept_give _ := rfl
  refuses_sequence := nofun
  refuses_map := nofun

/-- An unsigned 64-bit word. -/
def word : Leaf UInt64 where
  accept
    | .scalar (.integer n) =>
      match n.toUInt64? with
      | some w => .ok w
      | none => .error (.wrongValue (.scalar (.integer n)) "u64")
    | found => .error (.wrongType found "u64")
  give w := .integer (.ofUInt64 w)
  accept_give w := by simp [Integer.toUInt64?, Integer.ofUInt64]
  refuses_sequence := nofun
  refuses_map := nofun

/-- Nothing, which is written as `null`. -/
def unit : Leaf Unit where
  accept
    | .scalar .null => .ok ()
    | found => .error (.wrongType found "unit")
  give _ := .null
  accept_give _ := rfl
  refuses_sequence := nofun
  refuses_map := nofun

end Leaf

/-- A closed list of values, each with a name of its own. -/
structure Naming (α : Type) where
  all : List α
  name : α → String
  mem_all : ∀ a, a ∈ all
  name_injective : ∀ a b, name a = name b → a = b

namespace Naming

variable {α : Type}

def ofName? (naming : Naming α) (name : String) : Option α :=
  naming.all.find? (naming.name · = name)

def names (naming : Naming α) : List String := naming.all.map naming.name

theorem ofName?_eq_some_iff (naming : Naming α) {name : String} {a : α} :
    naming.ofName? name = some a ↔ naming.name a = name := by
  constructor
  · intro h
    simpa using List.find?_some h
  · intro h
    cases hf : naming.ofName? name with
    | none =>
      have := List.find?_eq_none.mp hf a (naming.mem_all a)
      simp [h] at this
    | some b =>
      have hb : naming.name b = name := by simpa using List.find?_some hf
      rw [naming.name_injective b a (hb.trans h.symm)]

/-- The value of a name in a document. -/
def accept (naming : Naming α) (name : String) : Except Mismatch α :=
  match naming.ofName? name with
  | some a => .ok a
  | none => .error (.unknownVariant name naming.names)

end Naming

/-- What the absence of a member means, and when a member is left out in writing. -/
structure Presence (β : Type) where
  absent? : Option β
  omits : β → Bool
  absent_of_omits : ∀ b, omits b → absent? = some b

namespace Presence

variable {β : Type}

/-- The member has to be there. -/
def required : Presence β := ⟨none, fun _ => false, by simp⟩

/-- An absent member has the given value, which is written all the same. -/
def orElse (value : β) : Presence β := ⟨some value, fun _ => false, by simp⟩

/-- An absent member is no value, and no value is left out. -/
def optional : Presence (Option β) := ⟨some none, Option.isNone, by simp⟩

end Presence

/-! ## Shapes -/

mutual

inductive Shape : Type → Type 1 where
  | leaf {α : Type} (leaf : Leaf α) : Shape α
  /-- A value of unknown shape, kept as a tree. -/
  | tree : Shape Json
  /-- Either `null`, for no value, or a value. -/
  | optional {α : Type} (inner : Shape α) : Shape (Option α)
  | list {α : Type} (inner : Shape α) : Shape (List α)
  /-- An object whose names are data. -/
  | table {α : Type} (inner : Shape α) : Shape (Table α)
  /-- One of a closed list of names. -/
  | choice {α : Type} (naming : Naming α) : Shape α
  /-- An object with known names. Others are passed over. -/
  | record {σ γ α : Type} (name : String) (fields : Fields σ γ) (as : Assembly γ α) : Shape α
  /-- An object that has its own fields and, among them, those of a tag. All members are read
  before the tag is looked for, so other names are decoded and not passed over. -/
  | tagged {σ γ τ δ α : Type} (name : String) (tag : Fields σ γ) (own : Fields τ δ)
      (as : Assembly (γ × δ) α) : Shape α

/-- Fields in the order in which they are declared, with the type of their slots and that of their
values. -/
inductive Fields : Type → Type → Type 1 where
  | nil : Fields Unit Unit
  | cons {β σ γ : Type} (name : String) (presence : Presence β) (shape : Shape β)
      (rest : Fields σ γ) : Fields (Option β × σ) (β × γ)

end

/-- Text that is kept as it is. -/
def Shape.string : Shape String := .leaf (.text "a string" (.refl String))

namespace Fields

variable {σ γ : Type}

/-! ## Fields -/

/-- A field that has to be there. -/
abbrev required {β : Type} (name : String) (shape : Shape β) (rest : Fields σ γ) :
    Fields (Option β × σ) (β × γ) :=
  cons name .required shape rest

/-- A field that may be absent or `null`. -/
abbrev optional {β : Type} (name : String) (shape : Shape β) (rest : Fields σ γ) :
    Fields (Option (Option β) × σ) (Option β × γ) :=
  cons name .optional (.optional shape) rest

/-- A field that has a value when it is absent, and may not be `null`. -/
abbrev orElse {β : Type} (name : String) (value : β) (shape : Shape β) (rest : Fields σ γ) :
    Fields (Option β × σ) (β × γ) :=
  cons name (.orElse value) shape rest

/-- The names of the fields, in order. -/
def names : {σ γ : Type} → Fields σ γ → List String
  | _, _, nil => []
  | _, _, cons name _ _ rest => name :: rest.names

/-- Slots with nothing in them. -/
def empty : {σ γ : Type} → Fields σ γ → σ
  | _, _, nil => ()
  | _, _, cons _ _ _ rest => (none, rest.empty)

/-- The values in the slots. The first field without one, and without a meaning for its absence,
is missing. -/
def collect : {σ γ : Type} → Fields σ γ → σ → Except Mismatch γ
  | _, _, nil, () => .ok ()
  | _, _, cons name presence _ rest, (slot, slots) =>
    match slot.or presence.absent? with
    | none => .error (.missingField name)
    | some value => do return (value, ← rest.collect slots)

/-- The values of fields of which none is given, the first being number `index` of a record. -/
def defaults (expected : String) : {σ γ : Type} → Fields σ γ → Nat → Except Mismatch γ
  | _, _, nil, _ => .ok ()
  | _, _, cons _ presence _ rest, index =>
    match presence.absent? with
    | none => .error (.wrongLength index expected)
    | some value => do return (value, ← rest.defaults expected (index + 1))

/-- How a record with these fields is called when something else is found. -/
def described (name : String) : String := "struct " ++ name

/-- The same, with the number of fields. -/
def counted (fields : Fields σ γ) (name : String) : String :=
  described name ++ " with " ++ String.ofList (Nat.toDigits 10 fields.names.length) ++
    if fields.names.length = 1 then " element" else " elements"

end Fields

end Provisioning
