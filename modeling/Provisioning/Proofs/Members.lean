import Provisioning.Table

/-!
# Members by name

An object is a list of members and a table answers one value for a name. Between the two stands the
question what a list says about a name: which members have it (`named`), which have not (`unnamed`),
and which value counts if several do (`last?`). A table built from a list answers the last value,
and the entries of a table repeat no name, so from there on a name has at most one member.
-/

set_option autoImplicit false

namespace Provisioning

variable {α β : Type}

/-- The members of a name. -/
def named (name : String) (members : List (String × α)) : List (String × α) :=
  members.filter fun m => m.1 = name

/-- The members of all other names. -/
def unnamed (name : String) (members : List (String × α)) : List (String × α) :=
  members.filter fun m => m.1 ≠ name

/-- The value of the last member of a name. -/
def last? (name : String) (members : List (String × α)) : Option α :=
  (named name members).getLast?.map (·.2)

/-! ## Lists of members -/

theorem named_cons_self (name : String) (value : α) (members : List (String × α)) :
    named name ((name, value) :: members) = (name, value) :: named name members := by
  simp [named]

theorem named_cons_of_ne {name n : String} (h : n ≠ name) (value : α)
    (members : List (String × α)) : named name ((n, value) :: members) = named name members := by
  simp [named, h]

theorem unnamed_cons_self (name : String) (value : α) (members : List (String × α)) :
    unnamed name ((name, value) :: members) = unnamed name members := by
  simp [unnamed]

theorem unnamed_cons_of_ne {name n : String} (h : n ≠ name) (value : α)
    (members : List (String × α)) :
    unnamed name ((n, value) :: members) = (n, value) :: unnamed name members := by
  simp [unnamed, h]

@[simp] theorem named_nil (name : String) : named name ([] : List (String × α)) = [] := rfl

@[simp] theorem last?_nil (name : String) : last? name ([] : List (String × α)) = none := rfl

theorem last?_cons (name : String) (m : String × α) (members : List (String × α)) :
    last? name (m :: members) =
      (last? name members).or (if m.1 = name then some m.2 else none) := by
  by_cases h : m.1 = name
  · obtain ⟨n, v⟩ := m
    subst h
    rw [last?, last?, named_cons_self, List.getLast?_cons]
    cases (named n members).getLast? <;> simp
  · obtain ⟨n, v⟩ := m
    rw [last?, last?, named_cons_of_ne h]
    simp [h]

theorem last?_eq_none_iff {name : String} {members : List (String × α)} :
    last? name members = none ↔ named name members = [] := by
  simp [last?]

theorem mem_of_last? {name : String} {members : List (String × α)} {value : α}
    (h : last? name members = some value) : (name, value) ∈ members := by
  obtain ⟨⟨n, v⟩, hm, rfl⟩ := Option.map_eq_some_iff.mp h
  have hm := List.mem_filter.mp (List.mem_of_getLast? hm)
  have hn : n = name := by simpa using hm.2
  exact hn ▸ hm.1

theorem last?_map (f : α → β) (name : String) (members : List (String × α)) :
    last? name (members.map fun m => (m.1, f m.2)) = (last? name members).map f := by
  induction members with
  | nil => rfl
  | cons m members ih =>
    rw [List.map_cons, last?_cons, last?_cons, ih]
    by_cases h : m.1 = name <;> simp [h]

theorem named_append (name : String) (xs ys : List (String × α)) :
    named name (xs ++ ys) = named name xs ++ named name ys :=
  List.filter_append xs ys

theorem named_filter (p : String → Bool) (name : String) (members : List (String × α)) :
    named name (members.filter fun m => p m.1) = if p name then named name members else [] := by
  rw [named, List.filter_filter]
  by_cases hp : p name
  · rw [if_pos hp, named]
    refine List.filter_congr ?_
    intro m _
    by_cases hn : m.1 = name <;> simp [hn, hp]
  · rw [if_neg hp, List.filter_eq_nil_iff]
    intro m _
    by_cases hn : m.1 = name <;> simp [hn, hp]

/-- No member of a name is among the members of other names, and all others are. -/
theorem named_unnamed (n name : String) (members : List (String × α)) :
    named n (unnamed name members) = if n = name then [] else named n members := by
  refine (named_filter (fun n => n ≠ name) n members).trans ?_
  by_cases hn : n = name <;> simp [hn]

theorem last?_filter (p : String → Bool) (name : String) (members : List (String × α)) :
    last? name (members.filter fun m => p m.1) = if p name then last? name members else none := by
  rw [last?, named_filter]
  by_cases hp : p name <;> simp [hp, last?]

theorem last?_filterMap (f : String → Option α) (name : String) (names : List String) :
    last? name (names.filterMap fun n => (f n).map (n, ·)) =
      if name ∈ names then f name else none := by
  induction names with
  | nil => rfl
  | cons n names ih =>
    cases hf : f n with
    | none =>
      rw [List.filterMap_cons_none (by rw [hf]; rfl), ih]
      by_cases hn : name = n
      · subst hn
        simp [hf]
      · simp [hn]
    | some a =>
      -- A name that comes again later has the same value there.
      rw [List.filterMap_cons_some (by rw [hf]; rfl), last?_cons, ih]
      by_cases hn : name = n
      · subst hn
        by_cases hmem : name ∈ names <;> simp [hmem, hf]
      · by_cases hmem : name ∈ names <;> simp [hmem, hn, Ne.symm hn]

/-- Among members of which no two have one name, a name has at most one. -/
theorem named_of_nodup {members : List (String × α)} (h : (members.map (·.1)).Nodup)
    (name : String) : named name members = (last? name members).toList.map (name, ·) := by
  induction members with
  | nil => rfl
  | cons m members ih =>
    obtain ⟨n, v⟩ := m
    rw [List.map_cons, List.nodup_cons] at h
    rw [last?_cons]
    by_cases hn : n = name
    · subst hn
      have hrest : named n members = [] := by
        refine List.filter_eq_nil_iff.mpr ?_
        intro m hm hmn
        exact h.1 (List.mem_map.mpr ⟨m, hm, by simpa using hmn⟩)
      rw [named_cons_self, hrest, last?_eq_none_iff.mpr hrest]
      simp
    · rw [named_cons_of_ne hn, ih h.2]
      simp [hn]

/-- Among such members every one is the last of its name. -/
theorem last?_eq_some_iff {members : List (String × α)} (h : (members.map (·.1)).Nodup)
    {name : String} {value : α} :
    last? name members = some value ↔ (name, value) ∈ members := by
  refine ⟨mem_of_last?, fun hm => ?_⟩
  have hmem : (name, value) ∈ named name members := List.mem_filter.mpr ⟨hm, by simp⟩
  rw [named_of_nodup h, List.mem_map] at hmem
  obtain ⟨value', hvalue', he⟩ := hmem
  cases he
  exact Option.mem_toList.mp hvalue'

/-! ## Tables -/

namespace Table

theorem nodup_names (t : Table α) : (t.entries.map (·.1)).Nodup :=
  List.pairwise_map.mpr (t.ordered.imp fun hlt => Std.ne_of_lt hlt)

theorem last?_entries (t : Table α) (name : String) : last? name t.entries = t.get? name := by
  have h := t.nodup_names
  rw [get?]
  revert h
  induction t.entries with
  | nil => exact fun _ => rfl
  | cons m members ih =>
    intro h
    obtain ⟨n, v⟩ := m
    rw [List.map_cons, List.nodup_cons] at h
    rw [last?_cons, ih h.2, find?]
    by_cases hn : name = n
    · subst hn
      -- The first entry of a name is also the last one.
      have hrest : last? name members = none := by
        refine Option.eq_none_iff_forall_ne_some.mpr ?_
        intro v hv
        exact h.1 (List.mem_map.mpr ⟨_, mem_of_last? hv, rfl⟩)
      simp [← ih h.2, hrest]
    · simp [hn, Ne.symm hn]

/-- The entries of a table are what it answers. -/
theorem mem_entries_iff {t : Table α} {name : String} {value : α} :
    (name, value) ∈ t.entries ↔ t.get? name = some value := by
  rw [← last?_entries]
  exact (last?_eq_some_iff t.nodup_names).symm

@[simp] theorem get?_map (f : α → β) (t : Table α) (name : String) :
    (t.map f).get? name = (t.get? name).map f := by
  rw [← last?_entries, ← last?_entries]
  exact last?_map f name t.entries

/-- A table to which values are added one by one, as long as each is acceptable, answers the last
one of each name. -/
theorem foldlM_insert_eq_some_iff (f : α → Option β) (members : List (String × α))
    (start t : Table β) :
    members.foldlM (fun t m => (f m.2).map (t.insert m.1)) start = some t ↔
      (∀ m ∈ members, (f m.2).isSome) ∧
        ∀ name, t.get? name = ((last? name members).bind f).or (start.get? name) := by
  induction members generalizing start with
  | nil =>
    simp only [List.foldlM_nil, last?_nil]
    constructor
    · intro h
      cases h
      simp
    · rintro ⟨-, h⟩
      exact congrArg some (ext_get? fun name => (h name).symm)
  | cons m members ih =>
    rw [List.foldlM_cons]
    cases hm : f m.2 with
    | none => simp [hm]
    | some b =>
      have hall : (∀ m' ∈ m :: members, (f m'.2).isSome) ↔ ∀ m' ∈ members, (f m'.2).isSome := by
        simp [hm]
      refine (ih _).trans (Iff.trans ?_ (and_congr_left' hall).symm)
      refine and_congr_right fun hvalues => forall_congr' ?_
      intro name
      -- The table met on the way has the value of `m`, until a later member replaces it.
      rw [last?_cons, get?_insert]
      cases hlast : last? name members with
      | none => by_cases hn : m.1 = name <;> simp [hm, hn, Ne.symm]
      | some v =>
        obtain ⟨c, hc⟩ := Option.isSome_iff_exists.mp (hvalues _ (mem_of_last? hlast))
        simp [hc]

/-- A table built from a list answers the last value of a name. -/
theorem get?_ofList (members : List (String × α)) (name : String) :
    (ofList members).get? name = last? name members := by
  have h := (foldlM_insert_eq_some_iff some members .empty (ofList members)).mp List.foldlM_pure
  simpa using h.2 name

/-- A table is built from its entries, whatever their order. -/
theorem ofList_of_perm {t : Table α} {members : List (String × α)} (h : members.Perm t.entries) :
    ofList members = t := by
  have hnodup : (members.map (·.1)).Nodup := (h.map _).nodup_iff.mpr t.nodup_names
  refine ext_get? fun name => Option.ext fun value => ?_
  rw [get?_ofList, last?_eq_some_iff hnodup, h.mem_iff, mem_entries_iff]

end Table

end Provisioning
