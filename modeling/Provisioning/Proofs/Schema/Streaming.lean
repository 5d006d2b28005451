import Provisioning.Error
import Provisioning.Proofs.Json.Survey
import Provisioning.Proofs.Schema.Fitting
import Provisioning.Proofs.Schema.Slots

/-!
# Reading in one pass

`Shape.read` takes a value off the front of a document without building anything but the value. This
file says what it amounts to: as long as the whole value is JSON that could be kept
(`Json.readListed`), at whatever depth, reading it in one pass accepts exactly what `Shape.ofJson`
accepts of the listed value, if that fits into the depth of the pass, answers the same and stops at
the same byte (`Shape.Streams`). So what a document means is a question about a `Json`, and no
longer one about bytes.

The two may differ in *why* they refuse a value, because they come upon its faults in another order;
hence the comparison of what is accepted.

Each kind of shape is compared under the assumption that its parts have been, and the induction over
shapes is then a list of these lemmas.
-/

set_option autoImplicit false

namespace Provisioning

open Ascii Container Json

/-! ## Leaves -/

theorem Fault.check_eq_ok {α : Type} {rest rest' : Bytes} {x : Except Mismatch α} {a : α} :
    Fault.check rest x = .ok (a, rest') ↔ x = .ok a ∧ rest = rest' := by
  cases x <;> simp [Fault.check]

@[simp] theorem Fault.toOption_check {α : Type} (rest : Bytes) (x : Except Mismatch α) :
    (Fault.check rest x).toOption = x.toOption.map (·, rest) := by
  cases x <;> rfl

namespace Leaf

variable {α : Type} (leaf : Leaf α)

theorem toOption_accept_sequence : (leaf.accept .sequence).toOption = none := by
  cases h : leaf.accept .sequence with
  | ok a => exact absurd h (leaf.refuses_sequence a)
  | error why => rfl

theorem toOption_accept_map : (leaf.accept .map).toOption = none := by
  cases h : leaf.accept .map with
  | ok a => exact absurd h (leaf.refuses_map a)
  | error why => rfl

theorem toOption_read {depth : Nat} {s rest : Bytes} {value : Json}
    (h : Listed depth s value rest) :
    (leaf.read s).toOption = (leaf.accept value.found).toOption.map (·, rest) := by
  cases h with
  | scalar hs hx => simp [Leaf.read, Found.read, hs, hx, Json.found]
  | array hs _ => simp [Leaf.read, Found.read, hs, Json.found, toOption_accept_sequence]
  | object hs _ => simp [Leaf.read, Found.read, hs, Json.found, toOption_accept_map]

end Leaf

/-! ## What a value begins with -/

/-- A value begins with the letter of `null` if it is `null`, and then the rest of the word follows;
no other value does. -/
theorem after_null_of_listed {depth : Nat} {s rest : Bytes} {value : Json}
    (h : Listed depth s value rest) :
    (value = .null ∧ ∃ t, after? lowerN (skipBlank s) = some t ∧ readWord nullTail t = .ok rest) ∨
    (value ≠ .null ∧ after? lowerN (skipBlank s) = none) := by
  cases h with
  | @scalar _ _ t _ x hs hx =>
    rw [skipBlank_of_other hs]
    cases t with
    | nil => cases hx
    | cons b t =>
      rcases Scalar.read_cases hx with
        ⟨rfl, rfl, hw⟩ | ⟨rfl, rfl, -⟩ | ⟨rfl, rfl, -⟩ | ⟨rfl, _, rfl, -⟩ | ⟨hb, hx, -⟩
      · exact .inl ⟨rfl, t, rfl, hw⟩
      · exact .inr ⟨nofun, rfl⟩
      · exact .inr ⟨nofun, rfl⟩
      · exact .inr ⟨nofun, rfl⟩
      · have hb' : b ≠ lowerN := by rintro rfl; revert hb; decide
        rcases hx with ⟨n, rfl⟩ | ⟨x, rfl⟩ <;> exact .inr ⟨nofun, if_neg hb'⟩
  | array hs _ =>
    rw [skipBlank_of_array hs]
    exact .inr ⟨nofun, rfl⟩
  | object hs _ =>
    rw [skipBlank_of_object hs]
    exact .inr ⟨nofun, rfl⟩

/-! ## Shapes with one part -/

namespace Shape

variable {α : Type}

/-- One pass over a value agrees with the listed value. -/
def Streams (shape : Shape α) : Prop :=
  ∀ {n depth s rest value}, Listed n s value rest →
    (shape.read depth s).toOption = (shape.within? depth value).map (·, rest)

/-- What could be kept within the depth of the pass is not too deep for it. -/
theorem Streams.of_readListed {shape : Shape α} (h : shape.Streams) {depth : Nat} {s rest : Bytes}
    {value : Json} (hs : readListed depth s = .ok (value, rest)) :
    (shape.read depth s).toOption = (shape.ofJson value).toOption.map (·, rest) := by
  rw [h (listed_of_readListed hs), shape.within?_of_depth_le (depth_of_readListed hs)]

theorem streams_leaf (leaf : Leaf α) : (Shape.leaf leaf).Streams := by
  intro n depth s rest value h
  simp [Shape.read, within?, fits, Shape.ofJson, leaf.toOption_read h]

theorem streams_tree : Shape.tree.Streams := by
  intro n depth s rest value h
  simp only [Shape.read, Json.read, Except.toOption_bind, toOption_readListed h, within?, fits,
    Shape.ofJson, decide_eq_true_eq]
  split <;> rfl

theorem streams_optional {inner : Shape α} (ih : inner.Streams) : inner.optional.Streams := by
  intro n depth s rest value h
  rw [Shape.read]
  rcases after_null_of_listed h with ⟨rfl, t, ht, hw⟩ | ⟨hne, ht⟩
  · simp [ht, hw, within?, fits_scalar, Shape.ofJson]
  · simp only [ht, Except.toOption_bind, ih h, within?, fits, ofJson_optional hne]
    split
    · cases inner.ofJson value <;> rfl
    · rfl

theorem streams_list {inner : Shape α} (ih : inner.Streams) : inner.list.Streams := by
  intro n depth s rest value h
  rw [Shape.read]
  cases h with
  | scalar hs _ => simp [hs, within?, Shape.ofJson]
  | object hs _ => simp [hs, within?, Shape.ofJson]
  | array hs hxs =>
    cases depth with
    | zero => simp [hs, enter, within?, fits, room]
    | succ depth =>
      have hitems := hxs.toOption_items (readListed_advances _) _ (fun x => inner.within? depth x) _
        (Nat.le_refl _) (fun _ hx => ih (listed_of_readListed hx)) .decoded (Nat.le_refl _)
      simp only [within?, mapM_ite] at hitems
      simp [hs, enter, readItems, hitems, within?, fits, room, Shape.ofJson, toOption_mapM]

theorem streams_table {inner : Shape α} (ih : inner.Streams) : inner.table.Streams := by
  intro n depth s rest value h
  rw [Shape.read]
  cases h with
  | scalar hs _ => simp [hs, within?, Shape.ofJson]
  | array hs _ => simp [hs, within?, Shape.ofJson]
  | @object _ s t _ ms hs hms =>
    cases depth with
    | zero => simp [hs, enter, within?, fits, room]
    | succ depth =>
      have hmembers := hms.toOption_members Literal.read_advances (readListed_advances _)
        Literal.read id id (readEntry fun s => inner.read depth s)
        (fun t m => if inner.fits depth m.2 then (inner.ofJson m.2).toOption.map (t.insert m.1)
          else none) _ (Nat.le_refl _)
        (fun {_ _ _ _ x _} _ hc hx => by
          simp only [readEntry, hc, Except.ok_bind, Except.toOption_bind,
            ih (listed_of_readListed hx), within?]
          split
          · cases inner.ofJson x <;> rfl
          · rfl) .decoded (Nat.le_refl _) .empty
      rw [foldlM_ite] at hmembers
      simp only [hs, enter, readMembers, Except.ok_bind, hmembers, within?, fits, room,
        Shape.ofJson, toOption_foldlM]
      simp

/-- A name is read off a string, or off an object whose only member is that name with `null`. -/
theorem streams_choice (naming : Naming α) : (Shape.choice naming).Streams := by
  intro n depth s rest value h
  rw [Shape.read, Naming.read]
  cases h with
  | @scalar _ _ t _ x hs hx =>
    rw [skipBlank_of_other hs]
    cases t with
    | nil => cases hx
    | cons b t =>
      rcases Scalar.read_cases hx with
        ⟨rfl, rfl, hw⟩ | ⟨rfl, rfl, -⟩ | ⟨rfl, rfl, -⟩ | ⟨rfl, _, rfl, hw⟩ | ⟨hb, hx, -⟩
      · rfl
      · rfl
      · rfl
      · simp [hw, Shape.ofJson]
      · have h₁ : b ≠ quote := by rintro rfl; revert hb; decide
        have h₂ : b ≠ leftBrace := by rintro rfl; revert hb; decide
        rcases hx with ⟨n, rfl⟩ | ⟨x, rfl⟩ <;> simp [h₁, h₂, Shape.ofJson]
  | array hs _ =>
    rw [skipBlank_of_array hs]
    rfl
  | @object _ _ _ _ ms hs hms =>
    rw [skipBlank_of_object hs]
    have hq : leftBrace ≠ quote := by decide
    simp only [hq, if_false, if_true]
    -- Whatever the object is, there has to be room for it.
    cases depth with
    | zero => simp [enter, within?, fits, room]
    | succ depth =>
      have hroom : (choice naming).within? (depth + 1) (object ms) =
          ((choice naming).ofJson (object ms)).toOption := by simp [within?, fits, room]
      rw [hroom]
      simp only [enter]
      cases hms with
      | closed hclosed =>
        have ht := skipBlank_of_closed_member hclosed
        have hq : rightBrace ≠ quote := by decide
        simp [ht, hq, Shape.ofJson]
      | @part _ _ s₁ s₂ s₃ s₄ _ name x ms hpart hname hcolon hx hms =>
        have ht := skipBlank_of_first_member hpart
        have hunit := Leaf.toOption_read Leaf.unit (listed_of_readListed hx)
        simp only [ht, Except.ok_bind, if_true, hname, Except.toOption_bind, Fault.toOption_check]
        cases hms with
        | closed hclosed =>
          have hs₄ := skipBlank_of_closed_member hclosed
          cases hn : naming.accept name with
          | error why => simp [Shape.ofJson, hn]
          | ok a =>
            cases hu : Leaf.unit.accept x.found <;>
              simp [hcolon, hunit, Shape.ofJson, hn, hu, hs₄]
        | part hpart' _ _ _ _ =>
          -- A comma stands where the brace should be, so the object has a second member.
          obtain ⟨u, hs₄⟩ := skipBlank_of_later_member hpart'
          have hb : comma ≠ rightBrace := by decide
          cases hn : naming.accept name with
          | error why => simp [Shape.ofJson]
          | ok a =>
            cases hu : Leaf.unit.accept x.found <;>
              simp [hcolon, hunit, Shape.ofJson, hu, hs₄, hb]

end Shape

/-! ## Fields -/

namespace Fields

variable {β σ γ : Type}

theorem put_of_not_mem : {σ γ : Type} → {fields : Fields σ γ} → {name : String} →
    name ∉ fields.names → (value : Json) → (slots : σ) → fields.put name value slots = .ok slots
  | _, _, nil, _, _, _, () => rfl
  | _, _, cons field _ shape rest, name, hn, value, (slot, slots) => by
    simp only [names, List.mem_cons, not_or] at hn
    rw [put, if_neg hn.1, put_of_not_mem hn.2]
    rfl

theorem readMember?_eq_none_iff : {σ γ : Type} → {fields : Fields σ γ} → {name : String} →
    {slots : σ} → {depth : Nat} → {s : Bytes} →
    (fields.readMember? name slots depth s = none ↔ name ∉ fields.names)
  | _, _, nil, _, (), _, _ => by simp [readMember?, names]
  | _, _, cons field _ shape rest, name, (slot, slots), depth, s => by
    rw [readMember?, names, List.mem_cons]
    by_cases hn : name = field
    · rw [if_pos hn]
      cases slot <;> simp [hn]
    · have ih : rest.readMember? name slots depth s = none ↔ name ∉ rest.names :=
        readMember?_eq_none_iff
      simp [hn, ih]

theorem mem_names_of_readMember? {fields : Fields σ γ} {name : String} {slots : σ} {depth : Nat}
    {s : Bytes} {result : Except Fault (σ × Bytes)}
    (h : fields.readMember? name slots depth s = some result) : name ∈ fields.names :=
  Decidable.byContradiction fun hn => by
    rw [readMember?_eq_none_iff.mpr hn] at h
    cases h

/-- Both readings of the fields, by name and by position, agree with the listed values. -/
structure Streams (fields : Fields σ γ) : Prop where
  member : ∀ (other) {name slots n depth s s₁ rest value result}, readColon s = .ok s₁ →
    readListed n s₁ = .ok (value, rest) →
    fields.readMember? name slots depth s = some result →
    result.toOption =
      if fields.fitsMember other depth name value then
        (fields.put name value slots).toOption.map (·, rest)
      else none
  items : ∀ (expected : String) (index depth : Nat) {n s xs rest},
    Items (Reader.Gives (readListed n)) (decide (index = 0)) s xs rest →
    (fields.readItems expected depth index s).toOption =
      if fields.fitsItems depth xs then
        (fields.ofItems expected index xs).toOption.bind fun (values, left) =>
          if left.isEmpty then some (values, rest) else none
      else none

theorem streams_nil : nil.Streams where
  member _ := fun _ _ h => nomatch h
  items expected index depth {n s xs rest} h := by
    rw [readItems, readBracket, if_pos (fitsItems_nil depth xs)]
    cases h with
    | closed hclosed => simp [skipBlank_of_closed_item hclosed, ofItems]
    | part hpart _ _ =>
      -- An item is left over: the bracket is not there yet.
      rcases nextItem_cases hpart with
        ⟨_, _, he⟩ | ⟨b, t, ht, hb, -, -⟩ | ⟨t, c, u, ht, -, hu, hc, -⟩
      · cases he
      · simp only [ht, hb, if_false, ofItems]
        split
        · split
          · rfl
          · split <;> rfl
        · rfl
      · have hb : comma ≠ rightBracket := by decide
        simp [ht, hb, hu, hc, ofItems]

theorem streams_cons {name : String} {presence : Presence β} {shape : Shape β}
    {rest : Fields σ γ} (hshape : shape.Streams) (hrest : rest.Streams) :
    (cons name presence shape rest).Streams where
  member other {m slots n depth s s₁ tail value result} hcolon hx hresult := by
    obtain ⟨slot, slots⟩ := slots
    rw [readMember?] at hresult
    rw [put, fitsMember]
    by_cases hm : m = name
    · rw [if_pos hm] at hresult
      simp only [if_pos hm]
      cases slot with
      | some a =>
        cases hresult
        simp
      | none =>
        cases hresult
        simp only [hcolon, Except.ok_bind, Except.toOption_bind, hshape (listed_of_readListed hx),
          Shape.within?]
        split
        · cases shape.ofJson value <;> rfl
        · rfl
    · rw [if_neg hm] at hresult
      simp only [if_neg hm]
      obtain ⟨result', hr, rfl⟩ := Option.map_eq_some_iff.mp hresult
      simp only [Except.toOption_map, hrest.member other hcolon hx hr]
      split
      · cases rest.put m value slots <;> rfl
      · rfl
  items expected index depth {n s xs tail} h := by
    rw [readItems]
    cases h with
    | closed hclosed =>
      simp only [hclosed, Except.ok_bind, Fault.toOption_check, ofItems, fitsItems, if_true]
      cases (cons name presence shape rest).defaults expected index <;> rfl
    | @part _ _ s₁ s₂ _ x xs hpart hx hxs =>
      have hitems := hrest.items expected (index + 1) depth (by simpa using hxs)
      simp only [hpart, Except.ok_bind, ofItems, fitsItems, Except.toOption_bind,
        hshape (listed_of_readListed hx), Shape.within?]
      cases shape.fits depth x with
      | false => rfl
      | true =>
        cases shape.ofJson x with
        | error why => simp
        | ok a =>
          simp only [if_true, Except.toOption_ok, Option.map_some, Option.bind_some, hitems,
            Bool.true_and]
          cases rest.fitsItems depth xs with
          | false => rfl
          | true =>
            cases rest.ofItems expected (index + 1) xs with
            | error why => rfl
            | ok result =>
              -- Items that are left over are refused by both: here at the bracket, there at the
              -- end.
              obtain ⟨values, left⟩ := result
              cases left <;> rfl

/-- A member of another name is passed over, however deep it is. -/
theorem Streams.member_or_skip {fields : Fields σ γ} (h : fields.Streams) {name : String}
    {slots : σ} {n depth : Nat} {s s₁ rest : Bytes} {value : Json} (hcolon : readColon s = .ok s₁)
    (hx : readListed n s₁ = .ok (value, rest)) :
    ((fields.readMember? name slots depth s).getD do
      return (slots, ← Json.skip (← readColon s))).toOption =
      (if fields.fitsMember (fun _ => true) depth name value then
        (fields.put name value slots).toOption
      else none).map (·, rest) := by
  cases hr : fields.readMember? name slots depth s with
  | none =>
    have hn := readMember?_eq_none_iff.mp hr
    simp [hcolon, skip_of_readListed hx, put_of_not_mem hn, fitsMember_of_not_mem hn]
  | some result =>
    rw [Option.getD_some, h.member (fun _ => true) hcolon hx hr]
    split <;> rfl

end Fields

/-! ## Records -/

namespace Shape

variable {σ γ τ δ α : Type}

theorem streams_record {fields : Fields σ γ} (ih : fields.Streams) (name : String)
    (as : Assembly γ α) : (Shape.record name fields as).Streams := by
  intro n depth s rest value h
  rw [Shape.read]
  cases h with
  | scalar hs _ => simp [hs, Shape.ofJson]
  | @array _ _ _ _ xs hs hxs =>
    cases depth with
    | zero => simp [hs, enter, within?, fits, room]
    | succ depth =>
      have hitems := ih.items (fields.counted name) 0 depth hxs
      simp only [hs, enter, Except.ok_bind, Except.toOption_bind, hitems, within?, fits, room,
        Shape.ofJson]
      cases fields.fitsItems depth xs with
      | false => rfl
      | true =>
        cases fields.ofItems (fields.counted name) 0 xs with
        | error why => rfl
        | ok result =>
          obtain ⟨values, left⟩ := result
          cases left <;> rfl
  | @object _ s t _ ms hs hms =>
    cases depth with
    | zero => simp [hs, enter, within?, fits, room]
    | succ depth =>
      have hmembers := hms.toOption_members Literal.read_advances (readListed_advances _)
        Literal.read id id
        (fun name slots s => (fields.readMember? name slots depth s).getD do
          return (slots, ← Json.skip (← readColon s)))
        (fun slots m => if fields.fitsMember (fun _ => true) depth m.1 m.2 then
          (fields.put m.1 m.2 slots).toOption else none) _ (Nat.le_refl _)
        (fun _ hc hx => ih.member_or_skip hc hx) .decoded (Nat.le_refl _) fields.empty
      simp only [hs, enter, readMembers, Except.ok_bind, Except.toOption_bind, hmembers, foldlM_ite,
        Fault.toOption_check, within?, fits, room, Shape.ofJson, toOption_foldlM]
      cases ms.all fun m => fields.fitsMember (fun _ => true) depth m.1 m.2 with
      | false => rfl
      | true =>
        cases ms.foldlM (fun slots m => (fields.put m.1 m.2 slots).toOption) fields.empty with
        | none => rfl
        | some slots => cases hc : fields.collect slots <;> simp [hc]

/-- What has been read of a tagged record: its own slots, and all other members. -/
def putOrKeep (own : Fields τ δ) (seen : τ × List (String × Json)) (m : String × Json) :
    Option (τ × List (String × Json)) :=
  if m.1 ∈ own.names then (own.put m.1 m.2 seen.1).toOption.map (·, seen.2)
  else some (seen.1, m :: seen.2)

theorem foldlM_putOrKeep (own : Fields τ δ) (ms : List (String × Json)) (slots : τ)
    (seen : List (String × Json)) :
    ms.foldlM (putOrKeep own) (slots, seen) =
      (ms.foldlM (fun slots m => (own.put m.1 m.2 slots).toOption) slots).map
        (·, (ms.filter fun (name, _) => name ∉ own.names).reverse ++ seen) := by
  induction ms generalizing slots seen with
  | nil => rfl
  | cons m ms ih =>
    rw [List.foldlM_cons, List.foldlM_cons, putOrKeep]
    by_cases hm : m.1 ∈ own.names
    · cases own.put m.1 m.2 slots with
      | error why => simp [hm]
      | ok slots' => simp [hm, ih]
    · simp [hm, ih, Fields.put_of_not_mem hm]

theorem streams_tagged {tag : Fields σ γ} {own : Fields τ δ} (ih : own.Streams) (name : String)
    (as : Assembly (γ × δ) α) : (Shape.tagged name tag own as).Streams := by
  intro n depth s rest value h
  rw [Shape.read]
  cases h with
  | scalar hs _ => simp [hs, Shape.ofJson]
  | array hs _ => simp [hs, within?, Shape.ofJson]
  | @object n s t _ ms hs hms =>
    cases depth with
    | zero => simp [hs, enter, within?, fits, room]
    | succ depth =>
      simp only [hs, enter, readMembers, Except.ok_bind, Except.toOption_bind]
      -- The loop carries the slots of the record and the members left over, and each member goes to
      -- one of the two.
      rw [hms.toOption_members Literal.read_advances (readListed_advances _) Literal.read id id _
        (fun seen m => if own.fitsMember (fun value => value.depth ≤ depth) depth m.1 m.2 then
          putOrKeep own seen m else none)
        _ (Nat.le_refl _) ?member .decoded (Nat.le_refl _) (own.empty, []), foldlM_ite,
        foldlM_putOrKeep]
      case member =>
        intro name seen s s₁ x rest _ hcolon hx
        cases hr : own.readMember? name seen.1 depth s with
        | none =>
          have hn := Fields.readMember?_eq_none_iff.mp hr
          have hread : (readListed depth s₁).toOption =
              if x.depth ≤ depth then some (x, rest) else none :=
            toOption_readListed (listed_of_readListed hx)
          simp only [putOrKeep, id, hr, if_neg hn, Fields.fitsMember_of_not_mem hn, readMember,
            hcolon, Except.ok_bind, Except.toOption_map, Except.toOption_bind, hread,
            decide_eq_true_eq]
          split <;> rfl
        | some result =>
          have hn := Fields.mem_names_of_readMember? hr
          have hmember := ih.member (fun value => value.depth ≤ depth) hcolon hx hr
          simp only [putOrKeep, id, hr, if_pos hn, Except.toOption_map, hmember]
          split
          · cases own.put name x seen.1 <;> rfl
          · rfl
      simp only [Fault.toOption_check, within?, fits, room, Shape.ofJson, Except.toOption_bind,
        toOption_foldlM, List.append_nil]
      cases ms.all fun m => own.fitsMember (fun value => value.depth ≤ depth) depth m.1 m.2 with
      | false => rfl
      | true =>
        cases ms.foldlM (fun slots m => (own.put m.1 m.2 slots).toOption) own.empty with
        | none => rfl
        | some slots => simp

end Shape

/-! ## All shapes -/

mutual

theorem Shape.streams : {α : Type} → (shape : Shape α) → shape.Streams
  | _, .leaf leaf => Shape.streams_leaf leaf
  | _, .tree => Shape.streams_tree
  | _, .optional inner => Shape.streams_optional inner.streams
  | _, .list inner => Shape.streams_list inner.streams
  | _, .table inner => Shape.streams_table inner.streams
  | _, .choice naming => Shape.streams_choice naming
  | _, .record name fields as => Shape.streams_record fields.streams name as
  | _, .tagged name _ own as => Shape.streams_tagged own.streams name as

theorem Fields.streams : {σ γ : Type} → (fields : Fields σ γ) → fields.Streams
  | _, _, .nil => Fields.streams_nil
  | _, _, .cons _ _ shape rest => Fields.streams_cons shape.streams rest.streams

end

/-! ## Documents -/

/-- A document is decoded as the value that it denotes, if that is not too deep for the shape. -/
theorem Shape.toOption_decode_of_denotes {α : Type} (shape : Shape α) {document : Bytes}
    {value : Json} (h : Denotes document value) :
    (shape.decode document).toOption = shape.within? maxDepth value := by
  obtain ⟨n, rest, hread, hend⟩ := h
  have hvalue : (shape.read maxDepth document).toOption =
      (shape.within? maxDepth value).map (·, rest) := shape.streams (listed_of_readListed hread)
  cases hjson : shape.within? maxDepth value <;>
    simp [Shape.decode, Shape.readDocument, hvalue, hjson, hend]

/-- What an accepted document is decoded as, the value that it denotes means. -/
theorem Shape.ofJson_of_denotes {α : Type} {shape : Shape α} {document : Bytes} {value : Json}
    (hd : Denotes document value) {a : α} (h : shape.decode document = .ok a) :
    shape.ofJson value = .ok a := by
  have hvalue := shape.toOption_decode_of_denotes hd
  rw [h, Except.toOption_ok, within?] at hvalue
  split at hvalue
  · exact Except.toOption_eq_some_iff.mp hvalue.symm
  · cases hvalue

/-- A document that lists a value is decoded as that value is. -/
theorem Shape.toOption_decode {α : Type} (shape : Shape α) {document : Bytes} {value : Json}
    (h : Lists document value) :
    (shape.decode document).toOption = (shape.ofJson value).toOption := by
  rw [shape.toOption_decode_of_denotes h.denotes]
  obtain ⟨rest, hread, -⟩ := h
  exact shape.within?_of_depth_le (depth_of_readListed hread)

theorem Shape.decode_eq_ok_iff {α : Type} (shape : Shape α) {document : Bytes} {value : Json}
    (h : Lists document value) {a : α} :
    shape.decode document = .ok a ↔ shape.ofJson value = .ok a := by
  rw [← Except.toOption_eq_some_iff, shape.toOption_decode h, Except.toOption_eq_some_iff]

/-- A document that is kept as a tree lists a value with that tree. -/
theorem Json.tree_decode_eq_ok_iff {document : Bytes} {tree : Json} :
    Shape.tree.decode document = .ok tree ↔ ∃ value, Lists document value ∧ value.tree = tree := by
  constructor
  · intro h
    obtain ⟨⟨tree', rest⟩, hread, h⟩ := Except.bind_eq_ok.mp (Except.mapError_eq_ok.mp h)
    obtain ⟨⟨value, rest'⟩, hlisted, hread⟩ := Except.bind_eq_ok.mp hread
    obtain ⟨⟨⟩, hend, h⟩ := Except.bind_eq_ok.mp h
    cases hread
    cases h
    exact ⟨value, ⟨rest, hlisted, hend⟩, rfl⟩
  · rintro ⟨value, hvalue, rfl⟩
    exact (Shape.tree.decode_eq_ok_iff hvalue).mpr rfl

end Provisioning
