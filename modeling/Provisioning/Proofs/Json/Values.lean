import Provisioning.Json.Basic

/-!
# What holds throughout a value

Some properties of a value are those of each of its parts: that no object repeats a name, or that no
number is a floating-point one. `Json.Everywhere` carries a property of one value to all values in
it. Besides, a reader bounds how many containers may be open at once (`Json.depth`).
-/

set_option autoImplicit false

namespace Provisioning.Json

/-! ## Parts -/

mutual

/-- The property holds of the value and of every value in it. -/
def Everywhere (P : Json → Prop) : Json → Prop
  | scalar value => P (scalar value)
  | array items => P (array items) ∧ EverywhereItems P items
  | object members => P (object members) ∧ EverywhereMembers P members

def EverywhereItems (P : Json → Prop) : List Json → Prop
  | [] => True
  | item :: rest => item.Everywhere P ∧ EverywhereItems P rest

def EverywhereMembers (P : Json → Prop) : List (String × Json) → Prop
  | [] => True
  | (_, value) :: rest => value.Everywhere P ∧ EverywhereMembers P rest

end

variable {P : Json → Prop}

@[simp] theorem everywhere_scalar {value : Scalar} :
    (scalar value).Everywhere P ↔ P (scalar value) := by
  rw [Everywhere]

@[simp] theorem everywhere_array {items : List Json} :
    (array items).Everywhere P ↔ P (array items) ∧ ∀ item ∈ items, item.Everywhere P := by
  rw [Everywhere]
  refine and_congr_right' ?_
  induction items with
  | nil => simp [EverywhereItems]
  | cons item rest ih => simp [EverywhereItems, ih]

@[simp] theorem everywhere_object {members : List (String × Json)} :
    (object members).Everywhere P ↔ P (object members) ∧ ∀ m ∈ members, m.2.Everywhere P := by
  rw [Everywhere]
  refine and_congr_right' ?_
  induction members with
  | nil => simp [EverywhereMembers]
  | cons m rest ih => simp [EverywhereMembers, ih]

theorem Everywhere.imp {P Q : Json → Prop} (h : ∀ part, P part → Q part) {value : Json}
    (hvalue : value.Everywhere P) : value.Everywhere Q := by
  induction value with
  | scalar value => exact everywhere_scalar.mpr (h _ (everywhere_scalar.mp hvalue))
  | array items ih =>
    obtain ⟨hself, hitems⟩ := everywhere_array.mp hvalue
    exact everywhere_array.mpr ⟨h _ hself, fun item hitem => ih item hitem (hitems item hitem)⟩
  | object members ih =>
    obtain ⟨hself, hmembers⟩ := everywhere_object.mp hvalue
    exact everywhere_object.mpr ⟨h _ hself, fun m hm => ih m hm (hmembers m hm)⟩

/-! ## Nothing -/

def isNull : Json → Bool
  | .null => true
  | _ => false

theorem isNull_iff {value : Json} : value.isNull = true ↔ value = .null := by
  constructor
  · intro h
    unfold isNull at h
    split at h
    · rfl
    · cases h
  · rintro rfl
    rfl

/-- A value that begins as another one is `null` if that is. -/
theorem eq_null_iff_of_found {value value' : Json} (h : value.found = value'.found) :
    value = .null ↔ value' = .null := by
  constructor
  · rintro rfl
    cases value' <;> cases h
    rfl
  · rintro rfl
    cases value <;> cases h
    rfl

/-! ## Names and numbers -/

/-- An object of which no two members have one name, or no object. -/
def NamesOnce : Json → Prop
  | object members => (members.map (·.1)).Nodup
  | _ => True

/-- No object in the value repeats a name. -/
def Distinct (value : Json) : Prop := value.Everywhere NamesOnce

/-- Anything but a floating-point number. -/
def NoFloat : Json → Prop
  | scalar (.float _) => False
  | _ => True

/-- No number in the value is a floating-point one. -/
def Exact (value : Json) : Prop := value.Everywhere NoFloat

/-! ## Nesting -/

mutual

/-- How many containers are open at once, at most. -/
def depth : Json → Nat
  | scalar _ => 0
  | array items => depthItems items + 1
  | object members => depthMembers members + 1

def depthItems : List Json → Nat
  | [] => 0
  | item :: rest => max item.depth (depthItems rest)

def depthMembers : List (String × Json) → Nat
  | [] => 0
  | (_, value) :: rest => max value.depth (depthMembers rest)

end

@[simp] theorem depth_scalar (value : Scalar) : (scalar value).depth = 0 := by
  rw [depth]

@[simp] theorem depth_array_le {items : List Json} {n : Nat} :
    (array items).depth ≤ n + 1 ↔ ∀ item ∈ items, item.depth ≤ n := by
  rw [depth, Nat.succ_le_succ_iff]
  induction items with
  | nil => simp [depthItems]
  | cons item rest ih => rw [depthItems, Nat.max_le, List.forall_mem_cons, ih]

@[simp] theorem depth_object_le {members : List (String × Json)} {n : Nat} :
    (object members).depth ≤ n + 1 ↔ ∀ m ∈ members, m.2.depth ≤ n := by
  rw [depth, Nat.succ_le_succ_iff]
  induction members with
  | nil => simp [depthMembers]
  | cons m rest ih => rw [depthMembers, Nat.max_le, List.forall_mem_cons, ih]

/-- An array needs room for itself, and its items have what is left. -/
theorem exists_of_depth_array_le {items : List Json} {n : Nat} (h : (array items).depth ≤ n) :
    ∃ m, n = m + 1 ∧ ∀ item ∈ items, item.depth ≤ m := by
  cases n with
  | zero =>
    rw [depth] at h
    cases h
  | succ n => exact ⟨n, rfl, depth_array_le.mp h⟩

theorem exists_of_depth_object_le {members : List (String × Json)} {n : Nat}
    (h : (object members).depth ≤ n) : ∃ m, n = m + 1 ∧ ∀ e ∈ members, e.2.depth ≤ m := by
  cases n with
  | zero =>
    rw [depth] at h
    cases h
  | succ n => exact ⟨n, rfl, depth_object_le.mp h⟩

end Provisioning.Json
