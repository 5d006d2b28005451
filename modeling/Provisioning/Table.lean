/-!
# Tables

A `Table` holds one value under each of finitely many names. Its entries are listed in the order of
their names, strictly, and that is part of the type: two tables that answer alike are equal
(`Table.ext_get?`), and whatever is written from a table has one form. Names are compared character
by character by code point, which is also the order of their UTF-8 bytes.

Putting a value under a name that is there replaces the old one, so a table built from a list of
pairs keeps the last value of each name.
-/

set_option autoImplicit false

namespace Provisioning

variable {α : Type}

/-- Values under distinct names, in the order of the names. -/
structure Table (α : Type) where
  entries : List (String × α)
  ordered : entries.Pairwise (·.1 < ·.1)

namespace Table

/-! ## Lists of entries -/

def place (name : String) (value : α) : List (String × α) → List (String × α)
  | [] => [(name, value)]
  | (n, v) :: rest =>
    if name < n then (name, value) :: (n, v) :: rest
    else if name = n then (name, value) :: rest
    else (n, v) :: place name value rest

def find? (name : String) : List (String × α) → Option α
  | [] => none
  | (n, v) :: rest => if name = n then some v else find? name rest

theorem mem_place {name : String} {value : α} {e : String × α} {l : List (String × α)}
    (h : e ∈ place name value l) : e = (name, value) ∨ e ∈ l := by
  induction l with
  | nil => simpa [place] using h
  | cons head rest ih =>
    obtain ⟨n, v⟩ := head
    unfold place at h
    split at h
    · simpa using h
    · split at h
      · rcases List.mem_cons.mp h with h | h
        · exact .inl h
        · exact .inr (List.mem_cons_of_mem _ h)
      · rcases List.mem_cons.mp h with h | h
        · exact .inr (h ▸ List.mem_cons_self)
        · exact (ih h).imp_right (List.mem_cons_of_mem _)

theorem pairwise_place (name : String) (value : α) {l : List (String × α)}
    (h : l.Pairwise (·.1 < ·.1)) : (place name value l).Pairwise (·.1 < ·.1) := by
  induction l with
  | nil => simp [place]
  | cons head rest ih =>
    obtain ⟨n, v⟩ := head
    have hrest := List.pairwise_cons.mp h
    unfold place
    split
    · next hlt =>
      refine List.pairwise_cons.mpr ⟨fun e he => ?_, h⟩
      rcases List.mem_cons.mp he with rfl | he
      · exact hlt
      · exact String.lt_trans hlt (hrest.1 e he)
    · split
      · next heq =>
        exact List.pairwise_cons.mpr ⟨fun e he => heq ▸ hrest.1 e he, hrest.2⟩
      · next hlt hne =>
        refine List.pairwise_cons.mpr ⟨fun e he => ?_, ih hrest.2⟩
        rcases mem_place he with rfl | he
        · exact Std.lt_of_le_of_ne (String.not_lt.mp hlt) (Ne.symm hne)
        · exact hrest.1 e he

/-! ## The operations -/

def empty : Table α := ⟨[], .nil⟩

instance : Inhabited (Table α) := ⟨empty⟩

instance [DecidableEq α] : DecidableEq (Table α) := fun s t =>
  if h : s.entries = t.entries then .isTrue (by cases s; cases t; cases h; rfl)
  else .isFalse fun e => h (e ▸ rfl)

/-- Puts a value under a name, in place of the one that may be there. -/
def insert (t : Table α) (name : String) (value : α) : Table α :=
  ⟨place name value t.entries, pairwise_place name value t.ordered⟩

def get? (t : Table α) (name : String) : Option α := find? name t.entries

/-- The last value of each name. -/
def ofList (pairs : List (String × α)) : Table α :=
  pairs.foldl (fun t (name, value) => t.insert name value) empty

def names (t : Table α) : List String := t.entries.map (·.1)

/-- Changes every value and no name. -/
def map {β : Type} (f : α → β) (t : Table α) : Table β :=
  ⟨t.entries.map fun (name, value) => (name, f value), List.pairwise_map.mpr t.ordered⟩

/-! ## What a look-up sees -/

@[simp] theorem get?_empty (name : String) : (empty : Table α).get? name = none := rfl

theorem find?_place (name n : String) (value : α) (l : List (String × α)) :
    find? n (place name value l) = if n = name then some value else find? n l := by
  induction l with
  | nil => rfl
  | cons head rest ih =>
    obtain ⟨m, v⟩ := head
    unfold place
    split
    · rfl
    · split
      · next heq => by_cases h : n = name <;> simp [find?, h, ← heq]
      · next hne =>
        by_cases h : n = m
        · simp [find?, h, Ne.symm hne]
        · simp [find?, h, ih]

@[simp] theorem get?_insert (t : Table α) (name n : String) (value : α) :
    (t.insert name value).get? n = if n = name then some value else t.get? n :=
  find?_place name n value t.entries

theorem find?_eq_none {n : String} {l : List (String × α)} (h : ∀ e ∈ l, n < e.1) :
    find? n l = none := by
  induction l with
  | nil => rfl
  | cons head rest ih =>
    have hne : n ≠ head.1 := fun e => String.lt_irrefl _ (e ▸ h head List.mem_cons_self)
    simp [find?, hne, ih fun e he => h e (List.mem_cons_of_mem _ he)]

theorem eq_of_find?_eq {l₁ l₂ : List (String × α)} (h₁ : l₁.Pairwise (·.1 < ·.1))
    (h₂ : l₂.Pairwise (·.1 < ·.1)) (h : ∀ n, find? n l₁ = find? n l₂) : l₁ = l₂ := by
  induction l₁ generalizing l₂ with
  | nil =>
    cases l₂ with
    | nil => rfl
    | cons e r => simpa [find?] using h e.1
  | cons e₁ r₁ ih =>
    cases l₂ with
    | nil => simpa [find?] using h e₁.1
    | cons e₂ r₂ =>
      obtain ⟨m₁, v₁⟩ := e₁
      obtain ⟨m₂, v₂⟩ := e₂
      obtain ⟨below₁, ordered₁⟩ := List.pairwise_cons.mp h₁
      obtain ⟨below₂, ordered₂⟩ := List.pairwise_cons.mp h₂
      have absent₁ : ∀ n, n ≤ m₁ → find? n r₁ = none := fun n hn =>
        find?_eq_none fun e he => Std.lt_of_le_of_lt hn (below₁ e he)
      have absent₂ : ∀ n, n ≤ m₂ → find? n r₂ = none := fun n hn =>
        find?_eq_none fun e he => Std.lt_of_le_of_lt hn (below₂ e he)
      have hname : m₁ = m₂ := by
        apply Classical.byContradiction
        intro hne
        rcases Std.le_total (a := m₁) (b := m₂) with hle | hle
        · have := h m₁
          simp [find?, hne, absent₂ _ hle] at this
        · have := h m₂
          simp [find?, Ne.symm hne, absent₁ _ hle] at this
      subst hname
      have hvalue : v₁ = v₂ := by simpa [find?] using h m₁
      subst hvalue
      congr 1
      refine ih ordered₁ ordered₂ fun n => ?_
      by_cases hn : n = m₁
      · subst hn
        rw [absent₁ _ (Std.le_refl _), absent₂ _ (Std.le_refl _)]
      · simpa [find?, hn] using h n

/-- A table is what it answers. -/
theorem ext_get? {s t : Table α} (h : ∀ n, s.get? n = t.get? n) : s = t := by
  obtain ⟨l₁, h₁⟩ := s
  obtain ⟨l₂, h₂⟩ := t
  have : l₁ = l₂ := eq_of_find?_eq h₁ h₂ h
  subst this
  rfl

end Table

end Provisioning
