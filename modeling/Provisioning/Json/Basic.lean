import Provisioning.Table

/-!
# JSON values

One type holds a value both as a document lists it and as a tree. In a document an object is a list
of members, in any order and perhaps with a name repeated; a tree has each name once, in order.
`Json.tree` goes from the first to the second and keeps the last value of a repeated name, which is
what reading a value of unknown shape does.

Whole numbers are exact as long as a 64-bit word holds them, with or without a sign (`Integer`). Any
other number is a floating-point one.
-/

set_option autoImplicit false

namespace Provisioning

/-! ## Leaves -/

/-- A whole number that fits a signed or an unsigned 64-bit word: from `-2^63` up to, but not
including, `2^64`. -/
structure Integer where
  val : Int
  le_val : -0x8000000000000000 ≤ val
  val_lt : val < 0x10000000000000000
  deriving DecidableEq

namespace Integer

def ofInt? (n : Int) : Option Integer :=
  if h : -0x8000000000000000 ≤ n ∧ n < 0x10000000000000000 then some ⟨n, h.1, h.2⟩ else none

def ofUInt64 (n : UInt64) : Integer :=
  ⟨n.toNat, by omega, by have := n.toNat_lt; omega⟩

/-- The same number as an unsigned word, unless it is negative. -/
def toUInt64? (n : Integer) : Option UInt64 :=
  if 0 ≤ n.val then some (UInt64.ofNat n.val.toNat) else none

end Integer

/-- A value without parts. -/
inductive Scalar where
  | null
  | bool (value : Bool)
  | integer (value : Integer)
  | float (value : Float)
  | string (value : String)
  deriving DecidableEq

/-! ## Values -/

inductive Json where
  | scalar (value : Scalar)
  | array (items : List Json)
  | object (members : List (String × Json))

namespace Json

instance : Inhabited Json := ⟨scalar .null⟩

@[match_pattern] abbrev null : Json := scalar .null
@[match_pattern] abbrev bool (value : Bool) : Json := scalar (.bool value)
@[match_pattern] abbrev integer (value : Integer) : Json := scalar (.integer value)
@[match_pattern] abbrev string (value : String) : Json := scalar (.string value)

mutual

/-- Values are compared part by part. Zeros of different signs are different values. -/
def decEq : (value value' : Json) → Decidable (value = value')
  | scalar a, scalar b => decidable_of_iff (a = b) (by simp)
  | array xs, array ys =>
    match decEqItems xs ys with
    | isTrue h => isTrue (by rw [h])
    | isFalse h => isFalse (by simp [h])
  | object ms, object ns =>
    match decEqMembers ms ns with
    | isTrue h => isTrue (by rw [h])
    | isFalse h => isFalse (by simp [h])
  | scalar _, array _ | scalar _, object _ | array _, scalar _ => isFalse (by simp)
  | array _, object _ | object _, scalar _ | object _, array _ => isFalse (by simp)

def decEqItems : (items items' : List Json) → Decidable (items = items')
  | [], [] => isTrue rfl
  | [], _ :: _ | _ :: _, [] => isFalse (by simp)
  | x :: xs, y :: ys =>
    match decEq x y, decEqItems xs ys with
    | isTrue h, isTrue hs => isTrue (by rw [h, hs])
    | isFalse h, _ => isFalse (by simp [h])
    | _, isFalse hs => isFalse (by simp [hs])

def decEqMembers : (members members' : List (String × Json)) → Decidable (members = members')
  | [], [] => isTrue rfl
  | [], _ :: _ | _ :: _, [] => isFalse (by simp)
  | (n, x) :: ms, (k, y) :: ns =>
    match decEq x y, decEqMembers ms ns with
    | isTrue h, isTrue hs => decidable_of_iff (n = k) (by simp [h, hs])
    | isFalse h, _ => isFalse (by simp [h])
    | _, isFalse hs => isFalse (by simp [hs])

end

instance : DecidableEq Json := decEq

/-- The object of a table. -/
def ofTable (t : Table Json) : Json := object t.entries

mutual

/-- The value with the members of every object in order and the last of each name kept. -/
def tree : Json → Json
  | scalar value => scalar value
  | array items => array (treeItems items)
  | object members => ofTable (Table.ofList (treeMembers members))

def treeItems : List Json → List Json
  | [] => []
  | item :: rest => item.tree :: treeItems rest

def treeMembers : List (String × Json) → List (String × Json)
  | [] => []
  | (name, value) :: rest => (name, value.tree) :: treeMembers rest

end

theorem treeItems_eq_map (items : List Json) : treeItems items = items.map tree := by
  induction items with
  | nil => rfl
  | cons item rest ih => rw [treeItems, ih, List.map_cons]

theorem treeMembers_eq_map (members : List (String × Json)) :
    treeMembers members = members.map fun m => (m.1, m.2.tree) := by
  induction members with
  | nil => rfl
  | cons m rest ih => rw [treeMembers, ih, List.map_cons]

mutual

/-- What holds of a container as soon as it holds of its parts holds of every value. -/
@[induction_eliminator]
theorem induction {P : Json → Prop} (scalar : ∀ value, P (scalar value))
    (array : ∀ items, (∀ item ∈ items, P item) → P (array items))
    (object : ∀ members, (∀ m ∈ members, P m.2) → P (object members)) : ∀ value, P value
  | .scalar value => scalar value
  | .array items => array items (induction_items scalar array object items)
  | .object members => object members (induction_members scalar array object members)

theorem induction_items {P : Json → Prop} (scalar : ∀ value, P (.scalar value))
    (array : ∀ items, (∀ item ∈ items, P item) → P (.array items))
    (object : ∀ members, (∀ m ∈ members, P m.2) → P (.object members)) :
    ∀ items : List Json, ∀ item ∈ items, P item
  | [] => fun _ h => nomatch h
  | item :: rest => List.forall_mem_cons.mpr
      ⟨induction scalar array object item, induction_items scalar array object rest⟩

theorem induction_members {P : Json → Prop} (scalar : ∀ value, P (.scalar value))
    (array : ∀ items, (∀ item ∈ items, P item) → P (.array items))
    (object : ∀ members, (∀ m ∈ members, P m.2) → P (.object members)) :
    ∀ members : List (String × Json), ∀ m ∈ members, P m.2
  | [] => fun _ h => nomatch h
  | (_, value) :: rest => List.forall_mem_cons.mpr
      ⟨induction scalar array object value, induction_members scalar array object rest⟩

end

end Json

/-! ## What a reader meets -/

/-- What stands where a value was wanted: a leaf in full, or the fact that a container opens. -/
inductive Found where
  | scalar (value : Scalar)
  | sequence
  | map

def Json.found : Json → Found
  | scalar value => .scalar value
  | array _ => .sequence
  | object _ => .map

end Provisioning
