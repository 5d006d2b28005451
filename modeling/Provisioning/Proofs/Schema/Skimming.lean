import Provisioning.Proofs.Schema.Surveying

/-!
# What a document shows to a shape

A record passes over the members that it has no field for, and of those a document need not say
anything that could be kept. Skimming goes through a value as a shape does and keeps what the shape
looks at, in the order of the document; a member that is passed over leaves its name and stands as
`null` (`Shape.skim`).

Reading is skimming and then making sense of what has been skimmed, for any bytes whatever
(`Shape.toOption_read`). So two documents that show the same to a shape are accepted alike, and what
a change to a document does can be said of the value that it shows
(`Shape.decode_eq_ok_iff_shows`). Other than with the value that a document lists (`Json.Lists`),
nothing is required of what nobody looks at.
-/

set_option autoImplicit false

namespace Provisioning

open Ascii Container Json

/-! ## Loops -/

namespace Container

variable {α β σ : Type}

/-- A loop over the items of an array accepts what it makes of a list of items, if its reader
accepts what it makes of each. -/
theorem toOption_items_of_skim {item : Reader α} {item' : Reader β} (f : α → Option β)
    (h : ∀ s, (item' s).toOption =
      (item s).toOption.bind fun (x, rest) => (f x).map (·, rest))
    (care : Care) (n : Nat) (first : Bool) (s : Bytes) :
    (items care item' n first s).toOption =
      (items care item n first s).toOption.bind fun (xs, rest) => (xs.mapM f).map (·, rest) := by
  induction n generalizing first s with
  | zero => rfl
  | succ n ih =>
    rw [items, items, Except.toOption_bind, Except.toOption_bind]
    cases nextItem care first s with
    | error fault => rfl
    | ok step =>
      cases step with
      | closed t => rfl
      | part t =>
        simp only [Except.toOption_ok, Option.bind_some, Except.toOption_bind, h, ih]
        cases (item t).toOption with
        | none => rfl
        | some r =>
          obtain ⟨x, u⟩ := r
          cases hx : f x <;> cases (items care item n false u).toOption <;>
            simp [List.mapM_cons, hx, Option.map_eq_bind, Option.bind_assoc]

/-- A loop over the members of an object makes the same of them one by one as of their list in the
end. -/
theorem toOption_members_of_skim {name : Reader String} (value : String → Reader α)
    {member : String → σ → Reader σ} (put : σ → String × α → Option σ)
    (h : ∀ n state s, (member n state s).toOption =
      (readColon s).toOption.bind fun s₁ => (value n s₁).toOption.bind fun (x, rest) =>
        (put state (n, x)).map (·, rest))
    (care : Care) (start : σ) (n : Nat) (first : Bool) (seen : List (String × α)) (s : Bytes) :
    ((seen.reverse.foldlM put start).bind fun state =>
        (members care name member n first state s).toOption) =
      (members care name (fun n => readMember (value n) n) n first seen s).toOption.bind
        fun (seen, rest) => (seen.reverse.foldlM put start).map (·, rest) := by
  induction n generalizing first seen s with
  | zero => simp [members]
  | succ n ih =>
    simp only [members, Except.toOption_bind]
    cases nextMember care first s with
    | error fault => simp
    | ok step =>
      cases step with
      | closed t => exact Option.map_eq_bind.symm
      | part t =>
        simp only [Except.toOption_ok, Option.bind_some, Except.toOption_bind]
        cases (name t).toOption with
        | none => simp
        | some r =>
          obtain ⟨k, u⟩ := r
          simp only [Option.bind_some, h, readMember, Except.toOption_bind]
          cases (readColon u).toOption with
          | none => simp
          | some v =>
            simp only [Option.bind_some]
            cases (value k v).toOption with
            | none => simp
            | some r =>
              -- The member is put into the state here and in front of the list there.
              obtain ⟨x, w⟩ := r
              simpa [Option.map_eq_bind, Option.bind_assoc] using ih false ((k, x) :: seen) w

theorem toOption_readMembers_of_skim {name : Reader String} (value : String → Reader α)
    {member : String → σ → Reader σ} (put : σ → String × α → Option σ)
    (h : ∀ n state s, (member n state s).toOption =
      (readColon s).toOption.bind fun s₁ => (value n s₁).toOption.bind fun (x, rest) =>
        (put state (n, x)).map (·, rest))
    (care : Care) (start : σ) (s : Bytes) :
    (readMembers care name member start s).toOption =
      (readMembers care name (fun n => readMember (value n) n) [] s).toOption.bind
        fun (seen, rest) => (seen.reverse.foldlM put start).map (·, rest) := by
  simpa [readMembers] using toOption_members_of_skim value put h care start s.length true [] s

end Container

/-! ## Skimming -/

/-- Of a member that is passed over nothing is kept. -/
def Json.passOver : Reader Json := fun s => do return (.null, ← skip s)

mutual

/-- The value at the front of a document as far as the shape looks at it. -/
def Shape.skim : {α : Type} → Shape α → Nat → Reader Json
  | _, .leaf _, depth, s => readListed depth s
  | _, .tree, depth, s => readListed depth s
  | _, .choice _, depth, s => readListed depth s
  | _, .optional inner, depth, s =>
    match after? lowerN (skipBlank s) with
    | some s => do return (.null, ← readWord nullTail s)
    | none => inner.skim depth s
  | _, .list inner, depth, s =>
    match opening s with
    | .array s => do
      let depth ← enter s depth
      let (xs, rest) ← readItems .decoded (fun s => inner.skim depth s) s
      return (.array xs, rest)
    | _ => .error (Found.refuse "a sequence" s)
  | _, .table inner, depth, s =>
    match opening s with
    | .object s => do
      let depth ← enter s depth
      let member (name : String) := readMember (fun s => inner.skim depth s) name
      let (seen, rest) ← readMembers .decoded Literal.read member [] s
      return (.object seen.reverse, rest)
    | _ => .error (Found.refuse "a map" s)
  | _, .record name fields _, depth, s =>
    match opening s with
    | .array s => do
      let depth ← enter s depth
      let (xs, rest) ← fields.skimItems depth true s
      return (.array xs, rest)
    | .object s => do
      let depth ← enter s depth
      let member (name : String) :=
        readMember (fun s => fields.skimMember passOver depth name s) name
      let (seen, rest) ← readMembers .decoded Literal.read member [] s
      return (.object seen.reverse, rest)
    | .other s => .error (Found.refuse (Fields.described name) s)
  | _, .tagged name _ own _, depth, s =>
    match opening s with
    | .object s => do
      let depth ← enter s depth
      let member (name : String) :=
        readMember (fun s => own.skimMember (readListed depth) depth name s) name
      let (seen, rest) ← readMembers .decoded Literal.read member [] s
      return (.object seen.reverse, rest)
    | _ => .error (Found.refuse (Fields.described name) s)

/-- The value of the member whose name has just been read, which `other` reads if it is none of the
fields. -/
def Fields.skimMember (other : Reader Json) :
    {σ γ : Type} → Fields σ γ → Nat → String → Reader Json
  | _, _, .nil, _, _, s => other s
  | _, _, .cons field _ shape rest, depth, name, s =>
    if name = field then shape.skim depth s else rest.skimMember other depth name s

/-- The items of an array, of which there may be fewer than fields and not more. -/
def Fields.skimItems : {σ γ : Type} → Fields σ γ → Nat → Bool → Reader (List Json)
  | _, _, .nil, _, _, s => do return ([], ← readBracket s)
  | _, _, .cons _ _ shape rest, depth, first, s => do
    match ← nextItem .decoded first s with
    | .closed s => return ([], s)
    | .part s =>
      let (x, s) ← shape.skim depth s
      let (xs, s) ← rest.skimItems depth false s
      return (x :: xs, s)

end

/-! ## Shapes with one part -/

namespace Shape

variable {α : Type}

/-- The shape reads what it makes of what it skims. -/
def Skims (shape : Shape α) : Prop :=
  ∀ depth s, (shape.read depth s).toOption =
    (shape.skim depth s).toOption.bind fun (value, rest) =>
      (shape.ofJson value).toOption.map (·, rest)

/-- A shape that looks at all of a value skims what could be kept. -/
theorem skims_of_listed {shape : Shape α} (hskim : shape.skim = readListed)
    (hstreams : shape.Streams)
    (hlisted : ∀ {depth s a rest}, shape.read depth s = .ok (a, rest) →
      ∃ value, readListed depth s = .ok (value, rest)) : shape.Skims := by
  intro depth s
  rw [hskim]
  cases hl : readListed depth s with
  | ok r => exact hstreams.of_readListed hl
  | error fault =>
    cases hr : shape.read depth s with
    | error fault => rfl
    | ok r =>
      obtain ⟨value, hvalue⟩ := hlisted hr
      rw [hl] at hvalue
      cases hvalue

theorem skims_leaf (leaf : Leaf α) : (Shape.leaf leaf).Skims := by
  refine skims_of_listed (by funext depth s; rw [skim]) (streams_leaf leaf) ?_
  intro depth s a rest h
  rw [Shape.read] at h
  obtain ⟨value, hvalue, -⟩ := leaf.exists_listed_of_read depth h
  exact ⟨value, hvalue⟩

theorem skims_tree : Shape.tree.Skims := by
  refine skims_of_listed (by funext depth s; rw [skim]) streams_tree ?_
  intro depth s a rest h
  rw [Shape.read] at h
  obtain ⟨⟨value, rest'⟩, hvalue, h⟩ := Except.bind_eq_ok.mp h
  cases h
  exact ⟨value, hvalue⟩

theorem skims_choice (naming : Naming α) : (Shape.choice naming).Skims := by
  refine skims_of_listed (by funext depth s; rw [skim]) (streams_choice naming) ?_
  intro depth s a rest h
  rw [Shape.read] at h
  obtain ⟨value, hvalue, -⟩ := naming.exists_listed_of_read h
  exact ⟨value, hvalue⟩

/-- Only what begins with the letter of `null` is skimmed as `null`. -/
theorem after_of_skim_null : {α : Type} → (shape : Shape α) → {depth : Nat} → {s rest : Bytes} →
    shape.skim depth s = .ok (.null, rest) → ∃ t, after? lowerN (skipBlank s) = some t
  | _, .leaf _, _, _, _, h => by
    rw [skim] at h
    exact after_of_surveyed_null (surveyed_of_readListed h)
  | _, .tree, _, _, _, h => by
    rw [skim] at h
    exact after_of_surveyed_null (surveyed_of_readListed h)
  | _, .choice _, _, _, _, h => by
    rw [skim] at h
    exact after_of_surveyed_null (surveyed_of_readListed h)
  | _, .optional inner, _, _, _, h => by
    rw [skim] at h
    split at h
    · next t ht => exact ⟨t, ht⟩
    · exact inner.after_of_skim_null h
  | _, .list _, _, _, _, h => by
    rw [skim] at h
    split at h
    · obtain ⟨_, -, h⟩ := Except.bind_eq_ok.mp h
      obtain ⟨_, -, h⟩ := Except.bind_eq_ok.mp h
      cases h
    · cases h
  | _, .table _, _, _, _, h => by
    rw [skim] at h
    split at h
    · obtain ⟨_, -, h⟩ := Except.bind_eq_ok.mp h
      obtain ⟨_, -, h⟩ := Except.bind_eq_ok.mp h
      cases h
    · cases h
  | _, .record _ _ _, _, _, _, h => by
    rw [skim] at h
    split at h
    · obtain ⟨_, -, h⟩ := Except.bind_eq_ok.mp h
      obtain ⟨_, -, h⟩ := Except.bind_eq_ok.mp h
      cases h
    · obtain ⟨_, -, h⟩ := Except.bind_eq_ok.mp h
      obtain ⟨_, -, h⟩ := Except.bind_eq_ok.mp h
      cases h
    · cases h
  | _, .tagged _ _ _ _, _, _, _, h => by
    rw [skim] at h
    split at h
    · obtain ⟨_, -, h⟩ := Except.bind_eq_ok.mp h
      obtain ⟨_, -, h⟩ := Except.bind_eq_ok.mp h
      cases h
    · cases h

theorem skims_optional {inner : Shape α} (ih : inner.Skims) : inner.optional.Skims := by
  intro depth s
  rw [Shape.read, skim]
  cases hn : after? lowerN (skipBlank s) with
  | some t =>
    dsimp only
    cases readWord nullTail t with
    | error fault => rfl
    | ok rest => simp [ofJson]
  | none =>
    simp only [Except.toOption_bind, ih depth s]
    cases hs : inner.skim depth s with
    | error fault => rfl
    | ok r =>
      obtain ⟨value, rest⟩ := r
      have hnull : value ≠ .null := by
        rintro rfl
        obtain ⟨t, ht⟩ := inner.after_of_skim_null hs
        rw [hn] at ht
        cases ht
      cases hvalue : inner.ofJson value <;> simp [ofJson_optional hnull, hvalue]

theorem skims_list {inner : Shape α} (ih : inner.Skims) : inner.list.Skims := by
  intro depth s
  rw [Shape.read, skim]
  cases opening s with
  | object t => rfl
  | other t => rfl
  | array t =>
    dsimp only
    simp only [Except.toOption_bind, Option.bind_assoc]
    refine Option.bind_congr fun depth _ => ?_
    have hitems := toOption_items_of_skim (fun x => (inner.ofJson x).toOption) (ih depth)
      .decoded t.length true t
    rw [readItems, readItems, hitems]
    simp [ofJson, toOption_mapM]

theorem skims_table {inner : Shape α} (ih : inner.Skims) : inner.table.Skims := by
  intro depth s
  rw [Shape.read, skim]
  cases opening s with
  | array t => rfl
  | other t => rfl
  | object t =>
    dsimp only
    simp only [Except.toOption_bind, Option.bind_assoc]
    refine Option.bind_congr fun depth _ => ?_
    rw [toOption_readMembers_of_skim (fun _ s => inner.skim depth s)
      (fun t m => (inner.ofJson m.2).toOption.map (t.insert m.1)) ?member]
    case member =>
      intro n t s
      simp only [readEntry, Except.toOption_bind, ih depth, Option.bind_assoc]
      refine Option.bind_congr fun s₁ _ => Option.bind_congr fun r _ => ?_
      cases (inner.ofJson r.1).toOption <;> rfl
    simp [ofJson, toOption_foldlM, -List.foldlM_reverse]

end Shape

/-! ## Fields -/

namespace Fields

variable {β σ γ : Type}

theorem skimMember_of_not_mem {other : Reader Json} {depth : Nat} {name : String} :
    {σ γ : Type} → {fields : Fields σ γ} → name ∉ fields.names →
    fields.skimMember other depth name = other
  | _, _, nil, _ => by funext s; rw [skimMember]
  | _, _, cons field _ shape rest, hn => by
    simp only [names, List.mem_cons, not_or] at hn
    funext s
    rw [skimMember, if_neg hn.1, skimMember_of_not_mem hn.2]

/-- Both readings of the fields, by name and by position, make of a value what they make of what
they skim. -/
structure Skims (fields : Fields σ γ) : Prop where
  member : ∀ (other : Reader Json) {name slots depth s result},
    fields.readMember? name slots depth s = some result →
      result.toOption = (readColon s).toOption.bind fun s₁ =>
        (fields.skimMember other depth name s₁).toOption.bind fun (value, rest) =>
          (fields.put name value slots).toOption.map (·, rest)
  items : ∀ expected depth index s, (fields.readItems expected depth index s).toOption =
    (fields.skimItems depth (decide (index = 0)) s).toOption.bind fun (xs, rest) =>
      (fields.ofItems expected index xs).toOption.bind fun (values, left) =>
        if left.isEmpty then some (values, rest) else none

theorem skims_nil : nil.Skims where
  member _ := nofun
  items expected depth index s := by
    rw [readItems, skimItems]
    cases readBracket s <;> simp [ofItems]

theorem skims_cons {name : String} {presence : Presence β} {shape : Shape β}
    {rest : Fields σ γ} (hshape : shape.Skims) (hrest : rest.Skims) :
    (cons name presence shape rest).Skims where
  member other n slots depth s result h := by
    obtain ⟨slot, slots⟩ := slots
    rw [readMember?] at h
    simp only [put, skimMember]
    by_cases hn : n = name
    · simp only [if_pos hn] at h ⊢
      cases slot with
      | some b =>
        cases h
        simp
      | none =>
        cases h
        simp only [Except.toOption_bind, hshape depth, Option.bind_assoc]
        refine Option.bind_congr fun s₁ _ => Option.bind_congr fun r _ => ?_
        cases shape.ofJson r.1 <;> rfl
    · simp only [if_neg hn] at h ⊢
      obtain ⟨result', hr, rfl⟩ := Option.map_eq_some_iff.mp h
      simp [hrest.member other hr, Option.map_eq_bind, Option.bind_assoc]
  items expected depth index s := by
    rw [readItems, skimItems]
    cases nextItem .decoded (decide (index = 0)) s with
    | error fault => rfl
    | ok step =>
      cases step with
      | closed t =>
        simp only [Except.ok_bind, Fault.toOption_check]
        cases h : (cons name presence shape rest).defaults expected index <;> simp [ofItems, h]
      | part t =>
        have hitems := hrest.items expected depth (index + 1)
        simp only [Except.ok_bind, Except.toOption_bind, hshape depth, hitems, Option.bind_assoc]
        refine Option.bind_congr fun r _ => ?_
        cases hx : shape.ofJson r.1 with
        | error why => simp [ofItems, hx]
        | ok b =>
          simp only [Except.toOption_ok, Option.bind_some, Option.map_some]
          refine Option.bind_congr fun y _ => ?_
          cases hy : rest.ofItems expected (index + 1) y.1 with
          | error why => simp [ofItems, hx, hy]
          | ok result =>
            obtain ⟨values, left⟩ := result
            cases left <;> simp [ofItems, hx, hy]

/-- A member of another name is passed over. -/
theorem Skims.member_or_skip {fields : Fields σ γ} (h : fields.Skims) (name : String) (slots : σ)
    (depth : Nat) (s : Bytes) :
    ((fields.readMember? name slots depth s).getD do
      return (slots, ← Json.skip (← readColon s))).toOption =
      (readColon s).toOption.bind fun s₁ =>
        (fields.skimMember passOver depth name s₁).toOption.bind fun (value, rest) =>
          (fields.put name value slots).toOption.map (·, rest) := by
  cases hr : fields.readMember? name slots depth s with
  | some result => exact h.member passOver hr
  | none =>
    have hn := readMember?_eq_none_iff.mp hr
    rw [skimMember_of_not_mem hn, Option.getD_none, Except.toOption_bind]
    refine Option.bind_congr fun s₁ _ => ?_
    simp only [passOver, Except.toOption_bind, Option.bind_assoc]
    refine Option.bind_congr fun _ _ => ?_
    simp [put_of_not_mem hn]

end Fields

/-! ## Records -/

namespace Shape

variable {σ γ τ δ α : Type}

theorem skims_record {fields : Fields σ γ} (ih : fields.Skims) (name : String)
    (as : Assembly γ α) : (Shape.record name fields as).Skims := by
  intro depth s
  rw [Shape.read, skim]
  cases opening s with
  | other t => rfl
  | array t =>
    dsimp only
    simp only [Except.toOption_bind, Option.bind_assoc]
    refine Option.bind_congr fun depth _ => ?_
    rw [ih.items]
    simp only [Option.bind_assoc]
    refine Option.bind_congr fun y _ => ?_
    cases hy : fields.ofItems (fields.counted name) 0 y.1 with
    | error why => simp [ofJson, hy]
    | ok result =>
      obtain ⟨values, left⟩ := result
      cases left <;> simp [ofJson, hy]
  | object t =>
    dsimp only
    simp only [Except.toOption_bind, Option.bind_assoc]
    refine Option.bind_congr fun depth _ => ?_
    rw [toOption_readMembers_of_skim (fields.skimMember passOver depth)
      (fun slots m => (fields.put m.1 m.2 slots).toOption)
      (fun name slots s => ih.member_or_skip name slots depth s)]
    simp only [Option.bind_assoc]
    refine Option.bind_congr fun y _ => ?_
    simp only [Except.toOption_pure, Option.bind_some, ofJson, Except.toOption_bind,
      toOption_foldlM, Fault.toOption_check]
    cases y.1.reverse.foldlM (fun slots m => (fields.put m.1 m.2 slots).toOption) fields.empty with
    | none => rfl
    | some slots => cases hc : fields.collect slots <;> simp [hc]

theorem skims_tagged {tag : Fields σ γ} {own : Fields τ δ} (ih : own.Skims) (name : String)
    (as : Assembly (γ × δ) α) : (Shape.tagged name tag own as).Skims := by
  intro depth s
  rw [Shape.read, skim]
  cases opening s with
  | other t => rfl
  | array t => rfl
  | object t =>
    dsimp only
    simp only [Except.toOption_bind, Option.bind_assoc]
    refine Option.bind_congr fun depth _ => ?_
    -- The loop carries the slots of the record and the members left over, and each member goes to
    -- one of the two.
    rw [toOption_readMembers_of_skim (own.skimMember (readListed depth) depth) (putOrKeep own)
      ?member]
    case member =>
      intro name seen s
      cases hr : own.readMember? name seen.1 depth s with
      | none =>
        have hn := Fields.readMember?_eq_none_iff.mp hr
        simp [putOrKeep, hn, readMember, Fields.skimMember_of_not_mem hn, Option.map_eq_bind,
          Option.bind_assoc]
      | some result =>
        have hn := Fields.mem_names_of_readMember? hr
        simp [putOrKeep, hn, ih.member (readListed depth) hr, Option.map_eq_bind,
          Option.bind_assoc]
    simp only [Option.bind_assoc]
    refine Option.bind_congr fun y _ => ?_
    simp only [foldlM_putOrKeep, Fault.toOption_check, ofJson, Except.toOption_bind,
      toOption_foldlM, List.append_nil, Except.toOption_pure, Option.bind_some]
    cases y.1.reverse.foldlM (fun slots m => (own.put m.1 m.2 slots).toOption) own.empty with
    | none => rfl
    | some slots => simp [-List.filter_reverse]

end Shape

/-! ## All shapes -/

mutual

theorem Shape.skims : {α : Type} → (shape : Shape α) → shape.Skims
  | _, .leaf leaf => Shape.skims_leaf leaf
  | _, .tree => Shape.skims_tree
  | _, .optional inner => Shape.skims_optional inner.skims
  | _, .list inner => Shape.skims_list inner.skims
  | _, .table inner => Shape.skims_table inner.skims
  | _, .choice naming => Shape.skims_choice naming
  | _, .record name fields as => Shape.skims_record fields.skims name as
  | _, .tagged name _ own as => Shape.skims_tagged own.skims name as

theorem Fields.skims : {σ γ : Type} → (fields : Fields σ γ) → fields.Skims
  | _, _, .nil => Fields.skims_nil
  | _, _, .cons _ _ shape rest => Fields.skims_cons shape.skims rest.skims

end

/-! ## Documents -/

/-- The document is a value, which shows to the shape as the given one does, and nothing behind
it. -/
def Shape.Shows {α : Type} (shape : Shape α) (document : Bytes) (value : Json) : Prop :=
  ∃ rest, shape.skim maxDepth document = .ok (value, rest) ∧ readEnd rest = .ok ()

instance {α : Type} (shape : Shape α) (document : Bytes) (value : Json) :
    Decidable (shape.Shows document value) :=
  inferInstanceAs (Decidable (∃ rest, _ = Except.ok (value, rest) ∧ readEnd rest = .ok ()))

/-- A document is accepted if what it shows to the shape is, and says the same. -/
theorem Shape.decode_eq_ok_iff_shows {α : Type} {shape : Shape α} {document : Bytes} {a : α} :
    shape.decode document = .ok a ↔
      ∃ value, shape.Shows document value ∧ shape.ofJson value = .ok a := by
  rw [decode_eq_ok_iff_readEnd]
  constructor
  · rintro ⟨rest, hread, hend⟩
    rw [← Except.toOption_eq_some_iff, shape.skims] at hread
    obtain ⟨⟨value, rest'⟩, hskim, h⟩ := Option.bind_eq_some_iff.mp hread
    obtain ⟨a', hvalue, h⟩ := Option.map_eq_some_iff.mp h
    cases h
    exact ⟨value, ⟨rest, Except.toOption_eq_some_iff.mp hskim, hend⟩,
      Except.toOption_eq_some_iff.mp hvalue⟩
  · rintro ⟨value, ⟨rest, hskim, hend⟩, hvalue⟩
    refine ⟨rest, ?_, hend⟩
    rw [← Except.toOption_eq_some_iff, shape.skims, hskim]
    simp [hvalue]

theorem Shape.Shows.unique {α : Type} {shape : Shape α} {document : Bytes} {value value' : Json}
    (h : shape.Shows document value) (h' : shape.Shows document value') : value = value' := by
  obtain ⟨rest, hskim, -⟩ := h
  obtain ⟨rest', hskim', -⟩ := h'
  rw [hskim] at hskim'
  cases hskim'
  rfl

theorem Shape.Shows.decode_eq_ok_iff {α : Type} {shape : Shape α} {document : Bytes}
    {value : Json} (h : shape.Shows document value) {a : α} :
    shape.decode document = .ok a ↔ shape.ofJson value = .ok a := by
  rw [decode_eq_ok_iff_shows]
  constructor
  · rintro ⟨value', hvalue', ha⟩
    rwa [h.unique hvalue']
  · intro ha
    exact ⟨value, h, ha⟩

end Provisioning
