import Provisioning.Proofs.Schema.Slots

/-!
# The parts of a record

A record is written as an object or as the array of its fields, and the two differ only in where a
field finds its value: under its name or at its place. `Json.parts` answers the values that stand
there, so that a record can be described field by field without regard to how it is written
(`Fields.Reads`). There is at most one part for each field of a record that is accepted, and it is
of the shape of the field; and where this is so the record is accepted
(`Shape.ofJson_object_eq_ok_iff`, `Shape.ofJson_array_eq_ok_iff`).
-/

set_option autoImplicit false

namespace Provisioning

/-- The values that stand where a record has a field: the members of the name of the field, or the
item at its place. -/
def Json.parts (name : String) (index : Nat) : Json → List Json
  | object members => (named name members).map (·.2)
  | array items => items[index]?.toList
  | scalar _ => []

/-- The field has the value of its only part, or the one that its absence means. -/
def Presence.Reads {β : Type} (presence : Presence β) (shape : Shape β) (b : β) : List Json → Prop
  | [] => presence.absent? = some b
  | [part] => shape.ofJson part = .ok b
  | _ :: _ :: _ => False

theorem Presence.Reads.cases {β : Type} {presence : Presence β} {shape : Shape β} {b : β}
    {parts : List Json} (h : presence.Reads shape b parts) :
    (parts = [] ∧ presence.absent? = some b) ∨
      ∃ part, parts = [part] ∧ shape.ofJson part = .ok b := by
  cases parts with
  | nil => exact .inl ⟨rfl, h⟩
  | cons part others =>
    cases others with
    | nil => exact .inr ⟨part, rfl, h⟩
    | cons _ _ => cases h

/-- A field that has to be there has one part. -/
theorem Presence.exists_of_reads_required {β : Type} {shape : Shape β} {b : β} {parts : List Json}
    (h : Presence.required.Reads shape b parts) :
    ∃ part, parts = [part] ∧ shape.ofJson part = .ok b := by
  rcases h.cases with ⟨-, habsent⟩ | hpart
  · cases habsent
  · exact hpart

theorem Presence.Reads.of_mem {β : Type} {presence : Presence β} {shape : Shape β} {b : β}
    {parts : List Json} (h : presence.Reads shape b parts) {part : Json} (hpart : part ∈ parts) :
    parts = [part] ∧ shape.ofJson part = .ok b := by
  rcases h.cases with ⟨rfl, -⟩ | ⟨part', rfl, h⟩
  · cases hpart
  · cases List.mem_singleton.mp hpart
    exact ⟨rfl, h⟩

theorem Presence.reads_of_value? {β : Type} {presence : Presence β} {shape : Shape β} {b : β}
    {members : List (String × Json)} (h : presence.value? shape members = some b) :
    presence.Reads shape b (members.map (·.2)) := by
  match members with
  | [] => exact h
  | [(_, value)] => exact Except.toOption_eq_some_iff.mp h
  | _ :: _ :: _ => cases h

theorem Presence.value?_of_reads {β : Type} {presence : Presence β} {shape : Shape β} {b : β}
    {members : List (String × Json)} (h : presence.Reads shape b (members.map (·.2))) :
    presence.value? shape members = some b := by
  match members with
  | [] => exact h
  | [(_, value)] => exact Except.toOption_eq_some_iff.mpr h
  | _ :: _ :: _ => cases h

namespace Fields

/-- Every field has the value of its part, the first being number `index` of the record. -/
def Reads (value : Json) : {σ γ : Type} → Fields σ γ → Nat → γ → Prop
  | _, _, nil, _, () => True
  | _, _, cons name presence shape rest, index, (b, bs) =>
    presence.Reads shape b (value.parts name index) ∧ rest.Reads value (index + 1) bs

/-- Fields that are looked up among members read the members of their names. -/
theorem reads_of_gather? {members : List (String × Json)} : {σ γ : Type} → (fields : Fields σ γ) →
    fields.names.Nodup → (index : Nat) → {others : List (String × Json)} →
    (∀ n ∈ fields.names, named n others = named n members) → {g : γ} →
    fields.gather? others = some g → fields.Reads (.object members) index g
  | _, _, nil, _, _, _, _, (), _ => trivial
  | _, _, cons name presence shape rest, hnodup, index, others, hothers, (b, bs), h => by
    obtain ⟨hname, hnodup⟩ := List.nodup_cons.mp hnodup
    obtain ⟨hfirst, hrest⟩ := List.forall_mem_cons.mp hothers
    obtain ⟨b', hb, h⟩ := Option.bind_eq_some_iff.mp h
    obtain ⟨bs', hbs, h⟩ := Option.bind_eq_some_iff.mp h
    cases h
    refine ⟨?_, reads_of_gather? rest hnodup (index + 1) ?_ hbs⟩
    · rw [Json.parts, ← hfirst]
      exact Presence.reads_of_value? hb
    · intro n hn
      -- The members that have been taken out are those of a field before, whose name is another.
      have hne : n ≠ name := fun h => hname (h ▸ hn)
      rw [named_unnamed, if_neg hne, hrest n hn]

/-- Where every field reads its part the fields are gathered. -/
theorem gather?_of_reads {members : List (String × Json)} : {σ γ : Type} → (fields : Fields σ γ) →
    fields.names.Nodup → (index : Nat) → {others : List (String × Json)} →
    (∀ n ∈ fields.names, named n others = named n members) → {g : γ} →
    fields.Reads (.object members) index g → fields.gather? others = some g
  | _, _, nil, _, _, _, _, (), _ => rfl
  | _, _, cons name presence shape rest, hnodup, index, others, hothers, (b, bs), h => by
    obtain ⟨hname, hnodup⟩ := List.nodup_cons.mp hnodup
    obtain ⟨hfirst, hrest⟩ := List.forall_mem_cons.mp hothers
    obtain ⟨hb, hbs⟩ := h
    rw [Json.parts, ← hfirst] at hb
    have hunnamed : ∀ n ∈ rest.names, named n (unnamed name others) = named n members := by
      intro n hn
      have hne : n ≠ name := fun h => hname (h ▸ hn)
      rw [named_unnamed, if_neg hne, hrest n hn]
    rw [gather?, Presence.value?_of_reads hb, gather?_of_reads rest hnodup (index + 1) hunnamed hbs]
    rfl

theorem reads_of_defaults {items : List Json} {expected : String} : {σ γ : Type} →
    (fields : Fields σ γ) → {index : Nat} → items.length ≤ index → {g : γ} →
    fields.defaults expected index = .ok g → fields.Reads (.array items) index g
  | _, _, nil, _, _, (), _ => trivial
  | _, _, cons name presence shape rest, index, hlen, (b, bs), h => by
    rw [defaults] at h
    split at h
    · cases h
    · next b' hb =>
      obtain ⟨bs', hbs, h⟩ := Except.bind_eq_ok.mp h
      cases h
      refine ⟨?_, reads_of_defaults rest (Nat.le_succ_of_le hlen) hbs⟩
      rw [Json.parts, List.getElem?_eq_none hlen]
      exact hb

theorem defaults_of_reads {items : List Json} (expected : String) : {σ γ : Type} →
    (fields : Fields σ γ) → {index : Nat} → items.length ≤ index → {g : γ} →
    fields.Reads (.array items) index g → fields.defaults expected index = .ok g
  | _, _, nil, _, _, (), _ => rfl
  | _, _, cons name presence shape rest, index, hlen, (b, bs), h => by
    obtain ⟨hb, hbs⟩ := h
    rw [Json.parts, List.getElem?_eq_none hlen] at hb
    have hb : presence.absent? = some b := hb
    rw [defaults, hb, defaults_of_reads expected rest (Nat.le_succ_of_le hlen) hbs]
    rfl

/-- Fields that are taken from the items one after the other read the items at their places. -/
theorem reads_of_ofItems {items : List Json} {expected : String} : {σ γ : Type} →
    (fields : Fields σ γ) → (index : Nat) → {left : List Json} → {g : γ} →
    fields.ofItems expected index (items.drop index) = .ok (g, left) →
    fields.Reads (.array items) index g
  | _, _, nil, _, _, (), _ => trivial
  | _, _, cons name presence shape rest, index, left, (b, bs), h => by
    cases hdrop : items.drop index with
    | nil =>
      rw [hdrop, ofItems] at h
      obtain ⟨g, hg, h⟩ := Except.bind_eq_ok.mp h
      cases h
      exact reads_of_defaults _ (List.drop_eq_nil_iff.mp hdrop) hg
    | cons x xs =>
      rw [hdrop, ofItems] at h
      obtain ⟨b', hb, h⟩ := Except.bind_eq_ok.mp h
      obtain ⟨⟨bs', left'⟩, hbs, h⟩ := Except.bind_eq_ok.mp h
      cases h
      -- The first of the items that are left stands at the place of the field.
      have hx : items[index]? = some x := by
        rw [← List.head?_drop, hdrop]
        rfl
      have hxs : xs = items.drop (index + 1) := by
        rw [← List.tail_drop, hdrop]
        rfl
      rw [hxs] at hbs
      refine ⟨?_, reads_of_ofItems rest (index + 1) hbs⟩
      rw [Json.parts, hx]
      exact hb

theorem length_le_of_ofItems {expected : String} : {σ γ : Type} → {fields : Fields σ γ} →
    {index : Nat} → {items : List Json} → {g : γ} →
    fields.ofItems expected index items = .ok (g, []) →
    items.length ≤ fields.names.length
  | _, _, nil, _, _, _, h => by
    cases h
    exact Nat.le_refl 0
  | _, _, cons _ _ _ _, _, [], _, _ => Nat.zero_le _
  | _, _, cons _ _ _ rest, index, x :: xs, _, h => by
    rw [ofItems] at h
    obtain ⟨b, -, h⟩ := Except.bind_eq_ok.mp h
    obtain ⟨⟨bs, left⟩, hbs, h⟩ := Except.bind_eq_ok.mp h
    cases h
    exact Nat.succ_le_succ (length_le_of_ofItems hbs)

/-- Where every field reads its item and no items are left, the fields are taken from them. -/
theorem ofItems_of_reads {items : List Json} (expected : String) : {σ γ : Type} →
    (fields : Fields σ γ) → (index : Nat) → items.length ≤ index + fields.names.length → {g : γ} →
    fields.Reads (.array items) index g →
    fields.ofItems expected index (items.drop index) = .ok (g, [])
  | _, _, nil, index, hlen, (), _ => by
    have hlen : items.length ≤ index := hlen
    rw [List.drop_eq_nil_of_le hlen, ofItems]
  | _, _, cons name presence shape rest, index, hlen, (b, bs), h => by
    cases hdrop : items.drop index with
    | nil =>
      rw [ofItems, defaults_of_reads expected _ (List.drop_eq_nil_iff.mp hdrop) h]
      rfl
    | cons x xs =>
      obtain ⟨hb, hbs⟩ := h
      have hx : items[index]? = some x := by
        rw [← List.head?_drop, hdrop]
        rfl
      have hxs : xs = items.drop (index + 1) := by
        rw [← List.tail_drop, hdrop]
        rfl
      rw [Json.parts, hx] at hb
      have hb : shape.ofJson x = .ok b := hb
      rw [names, List.length_cons] at hlen
      rw [ofItems, hb, hxs, Except.ok_bind,
        ofItems_of_reads expected rest (index + 1) (by omega) hbs]
      rfl

end Fields

namespace Shape

variable {α σ γ : Type} {name : String} {fields : Fields σ γ} {as : Assembly γ α} {a : α}

theorem ofJson_array_eq_ok_iff {items : List Json} :
    (record name fields as).ofJson (.array items) = .ok a ↔
      items.length ≤ fields.names.length ∧ fields.Reads (.array items) 0 (as.parts a) := by
  rw [ofJson]
  constructor
  · intro h
    obtain ⟨⟨values, left⟩, hvalues, h⟩ := Except.bind_eq_ok.mp h
    cases left with
    | nil =>
      cases h
      rw [as.parts_build]
      exact ⟨Fields.length_le_of_ofItems hvalues, fields.reads_of_ofItems 0 hvalues⟩
    | cons _ _ => cases h
  · rintro ⟨hlen, hreads⟩
    have h := Fields.ofItems_of_reads (fields.counted name) fields 0 (by rwa [Nat.zero_add]) hreads
    rw [List.drop_zero] at h
    rw [h, Except.ok_bind]
    exact congrArg Except.ok (as.build_parts a)

theorem ofJson_object_eq_ok_iff (hnodup : fields.names.Nodup) {members : List (String × Json)} :
    (record name fields as).ofJson (.object members) = .ok a ↔
      fields.Reads (.object members) 0 (as.parts a) := by
  rw [← Except.toOption_eq_some_iff, toOption_ofJson_record]
  constructor
  · intro h
    obtain ⟨values, hvalues, rfl⟩ := Option.map_eq_some_iff.mp h
    rw [as.parts_build]
    exact fields.reads_of_gather? hnodup 0 (fun _ _ => rfl) hvalues
  · intro h
    rw [fields.gather?_of_reads hnodup 0 (fun _ _ => rfl) h]
    exact congrArg some (as.build_parts a)

/-- A record that is accepted reads each field from its part, however it is written. -/
theorem reads_of_ofJson_record (hnodup : fields.names.Nodup) {value : Json}
    (h : (record name fields as).ofJson value = .ok a) : fields.Reads value 0 (as.parts a) := by
  cases value with
  | scalar _ => cases h
  | array items => exact (ofJson_array_eq_ok_iff.mp h).2
  | object members => exact (ofJson_object_eq_ok_iff hnodup).mp h

end Shape

end Provisioning
