import Provisioning.Proofs.Schema.Parts
import Provisioning.Proofs.Schema.Revising
import Provisioning.Proofs.Schema.Passing

/-!
# Where the parts of a record stand

A document that is accepted as a record is an object or an array, and each of its values begins at
some byte. Its *layout* says at which: the names in it, in order, each with the bytes from the
beginning of its value on (`Json.Layout`). It is found without any shape, by passing over the
values, so it says nothing of them but that they are JSON, whatever their size.

A document is accepted as a record exactly if it has a layout and each field can be read at its only
place, or is absent where that has a meaning (`Shape.decode_record_eq_ok_iff`). So every field of a
record can be discussed by itself, in terms of the bytes that stand there, and what stands at the
places of no field does not come into it.
-/

set_option autoImplicit false

namespace Provisioning

open Ascii Container Json

/-! ## Layouts -/

namespace Json

/-- Where the values of an array or an object begin. -/
inductive Layout where
  | array (places : List Bytes)
  | object (places : List (String × Bytes))
  deriving DecidableEq

/-- Passes over a value and keeps where it begins. -/
def placed : Reader Bytes := fun s => do return (s, ← skip s)

/-- The layout of the value at the front of a document, if that is a container. -/
def layout? (s : Bytes) : Option (Layout × Bytes) :=
  match opening s with
  | .array s => (readItems .decoded placed s).toOption.map fun (places, rest) =>
    (.array places, rest)
  | .object s =>
    (readMembers .decoded Literal.read (fun name => readMember placed name) [] s).toOption.map
      fun (seen, rest) => (.object seen.reverse, rest)
  | .other _ => none

/-- The document is a container with this layout, and nothing behind it. -/
def LaidOut (document : Bytes) (layout : Layout) : Prop :=
  ∃ rest, layout? document = some (layout, rest) ∧ readEnd rest = .ok ()

theorem LaidOut.unique {document : Bytes} {layout layout' : Layout} (h : LaidOut document layout)
    (h' : LaidOut document layout') : layout = layout' := by
  obtain ⟨rest, h, -⟩ := h
  obtain ⟨rest', h', -⟩ := h'
  rw [h] at h'
  cases h'
  rfl

/-- The places where a record has a field: those of the members of the name of the field, or that of
the item at its position. -/
def Layout.places (name : String) (index : Nat) : Layout → List Bytes
  | array places => places[index]?.toList
  | object places => (named name places).map (·.2)

/-- An array has no more items than a record has fields. -/
def Layout.Fits (size : Nat) : Layout → Prop
  | array places => places.length ≤ size
  | object _ => True

theorem placed_eq_ok {s place rest : Bytes} :
    placed s = .ok (place, rest) ↔ skip s = .ok rest ∧ place = s := by
  rw [placed, Except.bind_eq_ok]
  constructor
  · rintro ⟨rest', hskip, h⟩
    cases h
    exact ⟨hskip, rfl⟩
  · rintro ⟨hskip, rfl⟩
    exact ⟨rest, hskip, rfl⟩

theorem placed_advances : Reader.Advances placed := fun h => skip_advances (placed_eq_ok.mp h).1

end Json

/-- The field is read at its only place, or has the value that its absence means. -/
def Presence.ReadsAt {β : Type} (presence : Presence β) (shape : Shape β) (depth : Nat) (b : β) :
    List Bytes → Prop
  | [] => presence.absent? = some b
  | [place] => ∃ rest, shape.read depth place = .ok (b, rest)
  | _ :: _ :: _ => False

/-- Every field is read at its place, the first being number `index` of the record. -/
def Fields.ReadsAt (layout : Layout) (depth : Nat) : {σ γ : Type} → Fields σ γ → Nat → γ → Prop
  | _, _, nil, _, () => True
  | _, _, cons name presence shape rest, index, (b, bs) =>
    presence.ReadsAt shape depth b (layout.places name index) ∧
      rest.ReadsAt layout depth (index + 1) bs

theorem skip_of_layout? {s rest : Bytes} {places : List (String × Bytes)}
    (h : layout? s = some (.object places, rest)) : ∀ p ∈ places, ∃ rest, skip p.2 = .ok rest := by
  rw [layout?] at h
  cases hs : opening s with
  | array t => rw [hs] at h; obtain ⟨_, -, h⟩ := Option.map_eq_some_iff.mp h; cases h
  | other t => rw [hs] at h; cases h
  | object t =>
    rw [hs] at h
    obtain ⟨⟨seen, rest'⟩, hseen, h⟩ := Option.map_eq_some_iff.mp h
    cases h
    obtain ⟨ms, hms, rfl⟩ := members_of_readMember (Except.toOption_eq_some_iff.mp hseen)
    rw [List.append_nil, List.reverse_reverse]
    refine hms.forall_mem (P := fun place => ∃ rest, skip place = .ok rest) ?_
    intro s place rest hplaced
    obtain ⟨hskip, rfl⟩ := placed_eq_ok.mp hplaced
    exact ⟨rest, hskip⟩

theorem exists_memberWise {α β : Type} {R : String → α → β → Prop} {ms : List (String × α)}
    (h : ∀ m ∈ ms, ∃ b, R m.1 m.2 b) : ∃ ns, MemberWise R ms ns := by
  induction ms with
  | nil => exact ⟨[], .nil⟩
  | cons m ms ih =>
    obtain ⟨⟨b, hb⟩, hms⟩ := List.forall_mem_cons.mp h
    obtain ⟨ns, hns⟩ := ih hms
    exact ⟨(m.1, b) :: ns, .cons ⟨rfl, hb⟩ hns⟩

/-! ## What is skimmed at the places -/

/-- What a field reads at its places is what it makes of the values skimmed there. -/
theorem Presence.readsAt_iff {β : Type} {presence : Presence β} {shape : Shape β} {depth : Nat}
    {b : β} {places : List Bytes} {values : List Json}
    (h : List.Forall₂ (fun place value => ∃ rest, shape.skim depth place = .ok (value, rest))
      places values) :
    presence.ReadsAt shape depth b places ↔ presence.Reads shape b values := by
  cases h with
  | nil => exact Iff.rfl
  | @cons place value _ _ hvalue h =>
    cases h with
    | cons _ _ => exact Iff.rfl
    | nil =>
      obtain ⟨rest, hskim⟩ := hvalue
      have hread := shape.skims depth place
      rw [hskim] at hread
      constructor
      · rintro ⟨rest', hb⟩
        rw [hb] at hread
        obtain ⟨b', hb', h⟩ := Option.map_eq_some_iff.mp hread.symm
        cases h
        exact Except.toOption_eq_some_iff.mp hb'
      · intro hb
        have hb : shape.ofJson value = .ok b := hb
        refine ⟨rest, Except.toOption_eq_some_iff.mp ?_⟩
        rw [hread]
        simp [hb]

theorem Presence.exists_skim_of_readsAt {β : Type} {presence : Presence β} {shape : Shape β}
    {depth : Nat} {b : β} {places : List Bytes} (h : presence.ReadsAt shape depth b places)
    {place : Bytes} (hplace : place ∈ places) :
    ∃ value rest, shape.skim depth place = .ok (value, rest) := by
  match places with
  | [_] =>
    obtain rfl := List.mem_singleton.mp hplace
    obtain ⟨rest, hread⟩ := h
    rw [← Except.toOption_eq_some_iff, shape.skims] at hread
    obtain ⟨⟨value, rest'⟩, hskim, -⟩ := Option.bind_eq_some_iff.mp hread
    exact ⟨value, rest', Except.toOption_eq_some_iff.mp hskim⟩
  | _ :: _ :: _ => cases h

namespace Fields

variable {σ γ : Type}

/-- What is skimmed of the members of a record, place by place. -/
abbrev SkimsMembers (fields : Fields σ γ) (depth : Nat) :
    List (String × Bytes) → List (String × Json) → Prop :=
  MemberWise fun name place value =>
    ∃ rest, fields.skimMember passOver depth name place = .ok (value, rest)

/-- What is skimmed of the items of a record, of which there may be fewer than fields. -/
def SkimsItems (depth : Nat) : {σ γ : Type} → Fields σ γ → List Bytes → List Json → Prop
  | _, _, cons _ _ shape rest, place :: places, x :: xs =>
    (∃ tail, shape.skim depth place = .ok (x, tail)) ∧ rest.SkimsItems depth places xs
  | _, _, _, places, xs => places = [] ∧ xs = []

/-- What is skimmed of a record of this layout. -/
def SkimsAt (fields : Fields σ γ) (depth : Nat) : Layout → Json → Prop
  | .array places, value => ∃ xs, value = .array xs ∧ fields.SkimsItems depth places xs
  | .object places, value => ∃ ms, value = .object ms ∧ fields.SkimsMembers depth places ms

/-! ### By name -/

theorem skimMember_advances {fields : Fields σ γ} {depth : Nat} {name : String}
    {s rest : Bytes} {value : Json}
    (h : fields.skimMember passOver depth name s = .ok (value, rest)) :
    skip s = .ok rest :=
  fields.skippable.member skip_of_passOver h

/-- Keeping the places first and skimming them afterwards skims the members. -/
theorem toOption_foldlM_skimMember {fields : Fields σ γ} {depth : Nat}
    {places : List (String × Bytes)} {seen seen' : List (String × Json)} :
    places.foldlM (fun seen p => (fields.skimMember passOver depth p.1 p.2).toOption.map
        fun r => (p.1, r.1) :: seen) seen = some seen' ↔
      ∃ ms, fields.SkimsMembers depth places ms ∧ seen' = ms.reverse ++ seen := by
  induction places generalizing seen with
  | nil =>
    constructor
    · intro h
      cases h
      exact ⟨[], .nil, rfl⟩
    · rintro ⟨ms, hms, rfl⟩
      cases hms
      rfl
  | cons p places ih =>
    obtain ⟨name, place⟩ := p
    rw [List.foldlM_cons, Option.bind_eq_bind, Option.bind_eq_some_iff]
    constructor
    · rintro ⟨seen₁, hfirst, hrest⟩
      obtain ⟨⟨value, rest⟩, hvalue, rfl⟩ := Option.map_eq_some_iff.mp hfirst
      obtain ⟨ms, hms, rfl⟩ := ih.mp hrest
      exact ⟨(name, value) :: ms, .cons ⟨rfl, rest, Except.toOption_eq_some_iff.mp hvalue⟩ hms,
        by simp⟩
    · rintro ⟨ms, hms, rfl⟩
      cases hms with
      | @cons _ m _ ms hm hms =>
        obtain ⟨n, value⟩ := m
        obtain ⟨rfl, rest, hvalue⟩ := hm
        exact ⟨(n, value) :: seen, by simp [hvalue], ih.mpr ⟨ms, hms, by simp⟩⟩

/-- A member is skimmed where it stands, and its place is where passing over it begins. -/
theorem toOption_readMember_skimMember (fields : Fields σ γ) (depth : Nat) (name : String)
    (seen : List (String × Json)) (s : Bytes) :
    (readMember (fun s => fields.skimMember passOver depth name s) name seen s).toOption =
      (readColon s).toOption.bind fun s₁ => (placed s₁).toOption.bind fun (place, rest) =>
        ((fields.skimMember passOver depth name place).toOption.map
          fun r => (name, r.1) :: seen).map (·, rest) := by
  simp only [readMember, Except.toOption_bind]
  refine Option.bind_congr fun s₁ _ => ?_
  cases hvalue : fields.skimMember passOver depth name s₁ with
  | error fault =>
    cases hplaced : placed s₁ with
    | error fault => simp
    | ok r =>
      obtain ⟨place, rest⟩ := r
      obtain ⟨-, rfl⟩ := placed_eq_ok.mp hplaced
      simp [hvalue]
  | ok r =>
    obtain ⟨value, rest⟩ := r
    have hplaced := placed_eq_ok.mpr ⟨skimMember_advances hvalue, rfl⟩
    simp [hplaced, hvalue]

theorem skimMembers_eq_ok_iff {fields : Fields σ γ} {depth : Nat} {s rest : Bytes}
    {ms : List (String × Json)} :
    (∃ seen, readMembers .decoded Literal.read
        (fun name => readMember (fun s => fields.skimMember passOver depth name s) name) [] s =
        .ok (seen, rest) ∧ ms = seen.reverse) ↔
      ∃ seen, readMembers .decoded Literal.read (fun name => readMember placed name) [] s =
        .ok (seen, rest) ∧ fields.SkimsMembers depth seen.reverse ms := by
  have hskim := @toOption_readMembers_of_skim _ _ Literal.read (fun _ => placed) _
    (fun seen p => (fields.skimMember passOver depth p.1 p.2).toOption.map
      fun r => (p.1, r.1) :: seen) (fields.toOption_readMember_skimMember depth) .decoded [] s
  constructor
  · rintro ⟨seen, hseen, rfl⟩
    rw [← Except.toOption_eq_some_iff, hskim] at hseen
    obtain ⟨⟨places, rest'⟩, hplaces, h⟩ := Option.bind_eq_some_iff.mp hseen
    obtain ⟨seen', hseen', h⟩ := Option.map_eq_some_iff.mp h
    cases h
    obtain ⟨ms, hms, rfl⟩ := toOption_foldlM_skimMember.mp hseen'
    exact ⟨places, Except.toOption_eq_some_iff.mp hplaces, by simpa using hms⟩
  · rintro ⟨places, hplaces, hms⟩
    have hseen := toOption_foldlM_skimMember.mpr ⟨ms, hms, (List.append_nil _).symm⟩
    refine ⟨ms.reverse, ?_, (List.reverse_reverse ms).symm⟩
    rw [← Except.toOption_eq_some_iff, hskim, hplaces]
    simp only [Except.toOption_ok, Option.bind_some, hseen, Option.map_some]

/-! ### By position -/

theorem skimsItems_nil (depth : Nat) (fields : Fields σ γ) : fields.SkimsItems depth [] [] := by
  cases fields <;> exact ⟨rfl, rfl⟩

theorem length_of_skimsItems {depth : Nat} : {σ γ : Type} → {fields : Fields σ γ} →
    {places : List Bytes} → {xs : List Json} → fields.SkimsItems depth places xs →
    places.length ≤ fields.names.length
  | _, _, nil, _, _, h => by
    rw [h.1]
    exact Nat.zero_le _
  | _, _, cons _ _ _ _, [], _, _ => Nat.zero_le _
  | _, _, cons _ _ _ _, _ :: _, [], h => nomatch h.1
  | _, _, cons _ _ _ _, _ :: _, _ :: _, h => Nat.succ_le_succ (length_of_skimsItems h.2)

theorem length_eq_of_skimsItems {depth : Nat} : {σ γ : Type} → {fields : Fields σ γ} →
    {places : List Bytes} → {xs : List Json} → fields.SkimsItems depth places xs →
    places.length = xs.length
  | _, _, nil, _, _, h => by
    rw [h.1, h.2]
    rfl
  | _, _, cons _ _ _ _, [], _, h => by
    rw [h.2]
    rfl
  | _, _, cons _ _ _ _, _ :: _, [], h => nomatch h.1
  | _, _, cons _ _ _ _, _ :: _, _ :: _, h => congrArg Nat.succ (length_eq_of_skimsItems h.2)

theorem skimItems_eq_ok_iff {depth : Nat} : {σ γ : Type} → (fields : Fields σ γ) →
    {first : Bool} → {s rest : Bytes} → {xs : List Json} →
    (fields.skimItems depth first s = .ok (xs, rest) ↔
      ∃ places, Items (Reader.Gives placed) first s places rest ∧
        fields.SkimsItems depth places xs)
  | _, _, nil, first, s, rest, xs => by
    rw [skimItems]
    constructor
    · intro h
      obtain ⟨rest', hbracket, h⟩ := Except.bind_eq_ok.mp h
      cases h
      refine ⟨[], .closed ?_, rfl, rfl⟩
      rw [nextItem, skipBlank_of_readBracket hbracket]
      rfl
    · rintro ⟨places, hplaces, rfl, rfl⟩
      cases hplaces with
      | closed h => rw [readBracket, skipBlank_of_closed_item h]; rfl
  | _, _, cons _ _ shape others, first, s, rest, xs => by
    rw [skimItems]
    constructor
    · intro h
      obtain ⟨step, hstep, h⟩ := Except.bind_eq_ok.mp h
      cases step with
      | closed t =>
        cases h
        exact ⟨[], .closed hstep, rfl, rfl⟩
      | part t =>
        obtain ⟨⟨x, s₁⟩, hx, h⟩ := Except.bind_eq_ok.mp h
        obtain ⟨⟨ys, s₂⟩, hys, h⟩ := Except.bind_eq_ok.mp h
        cases h
        obtain ⟨places, hplaces, hskims⟩ := others.skimItems_eq_ok_iff.mp hys
        have hplaced := placed_eq_ok.mpr ⟨shape.skippable hx, rfl⟩
        exact ⟨t :: places, .part hstep hplaced hplaces, ⟨s₁, hx⟩, hskims⟩
    · rintro ⟨places, hplaces, hskims⟩
      cases hplaces with
      | closed h =>
        obtain ⟨-, rfl⟩ := hskims
        rw [h]
        rfl
      | @part _ _ s₁ s₂ _ place places h hplaced hplaces =>
        cases xs with
        | nil => cases hskims.1
        | cons x xs =>
          obtain ⟨⟨tail, hx⟩, hskims⟩ := hskims
          obtain ⟨hskip, rfl⟩ := placed_eq_ok.mp hplaced
          -- Skimming the value and passing over it end at the same byte.
          have htail := shape.skippable hx
          rw [hskip] at htail
          cases htail
          have hxs := others.skimItems_eq_ok_iff.mpr ⟨places, hplaces, hskims⟩
          rw [h]
          simp only [Except.ok_bind, hx, hxs]
          rfl

/-! ### In either form -/

theorem readsAt_array_iff {depth : Nat} {places : List Bytes} {xs : List Json} : {σ γ : Type} →
    (fields : Fields σ γ) → (index : Nat) →
    fields.SkimsItems depth (places.drop index) (xs.drop index) → {g : γ} →
    (fields.ReadsAt (.array places) depth index g ↔ fields.Reads (.array xs) index g)
  | _, _, nil, _, _, () => Iff.rfl
  | _, _, cons _ _ shape rest, index, h, (b, bs) => by
    have hfield : List.Forall₂
        (fun place value => ∃ tail, shape.skim depth place = .ok (value, tail))
        places[index]?.toList xs[index]?.toList ∧
        rest.SkimsItems depth (places.drop (index + 1)) (xs.drop (index + 1)) := by
      rw [← List.head?_drop, ← List.head?_drop, ← List.tail_drop, ← List.tail_drop]
      cases hplaces : places.drop index with
      | nil =>
        rw [hplaces] at h
        rw [h.2]
        exact ⟨.nil, skimsItems_nil depth rest⟩
      | cons place places' =>
        rw [hplaces] at h
        cases hxs : xs.drop index with
        | nil =>
          rw [hxs] at h
          cases h.1
        | cons x xs' =>
          rw [hxs] at h
          exact ⟨.cons h.1 .nil, h.2⟩
    exact and_congr (Presence.readsAt_iff hfield.1) (rest.readsAt_array_iff (index + 1) hfield.2)

/-- Only the members of the names of the fields have to be skimmed as the fields say. -/
theorem readsAt_object_iff {depth : Nat} {places : List (String × Bytes)}
    {ms : List (String × Json)} {R : String → Bytes → Json → Prop} (h : MemberWise R places ms) :
    {σ γ : Type} → (fields : Fields σ γ) → fields.names.Nodup → (index : Nat) →
    (∀ n ∈ fields.names, ∀ place value, R n place value →
      ∃ rest, fields.skimMember passOver depth n place = .ok (value, rest)) → {g : γ} →
    (fields.ReadsAt (.object places) depth index g ↔ fields.Reads (.object ms) index g)
  | _, _, nil, _, _, _, () => Iff.rfl
  | _, _, cons name _ shape rest, hnodup, index, hskims, (b, bs) => by
    obtain ⟨hname, hnodup⟩ := List.nodup_cons.mp hnodup
    obtain ⟨hfirst, hrest⟩ := List.forall_mem_cons.mp hskims
    have hfield : List.Forall₂
        (fun place value => ∃ tail, shape.skim depth place = .ok (value, tail))
        ((named name places).map (·.2)) ((named name ms).map (·.2)) := by
      rw [List.forall₂_map_left_iff, List.forall₂_map_right_iff]
      have hnamed := h.filter (S := fun n place value => n = name ∧ R name place value)
        (fun n => n = name) (by rintro n place value hn hR; simp at hn; subst hn; exact ⟨rfl, hR⟩)
      refine hnamed.imp ?_
      rintro p m ⟨-, -, hR⟩
      simpa [skimMember] using hfirst _ _ hR
    have hothers : ∀ n ∈ rest.names, ∀ place value, R n place value →
        ∃ tail, rest.skimMember passOver depth n place = .ok (value, tail) := by
      intro n hn place value hR
      have hne : n ≠ name := fun h => hname (h ▸ hn)
      simpa [skimMember, hne] using hrest n hn place value hR
    exact and_congr (Presence.readsAt_iff hfield)
      (readsAt_object_iff h rest hnodup (index + 1) hothers)

/-! ### What can be read can be skimmed -/

theorem exists_skimsItems {depth : Nat} {places : List Bytes} : {σ γ : Type} →
    (fields : Fields σ γ) → (index : Nat) → places.length ≤ index + fields.names.length → {g : γ} →
    fields.ReadsAt (.array places) depth index g →
    ∃ xs, fields.SkimsItems depth (places.drop index) xs
  | _, _, nil, index, hlen, (), _ => by
    have hlen : places.length ≤ index := hlen
    exact ⟨[], List.drop_eq_nil_of_le hlen, rfl⟩
  | _, _, cons _ _ shape rest, index, hlen, (b, bs), h => by
    obtain ⟨hb, hbs⟩ := h
    rw [names, List.length_cons] at hlen
    obtain ⟨xs, hxs⟩ := exists_skimsItems rest (index + 1) (by omega) hbs
    cases hdrop : places.drop index with
    | nil => exact ⟨[], rfl, rfl⟩
    | cons place others =>
      have hplace : place ∈ Layout.places "" index (.array places) := by
        rw [Layout.places, ← List.head?_drop, hdrop]
        exact List.mem_singleton_self place
      obtain ⟨x, tail, hx⟩ := Presence.exists_skim_of_readsAt hb hplace
      rw [← List.tail_drop, hdrop] at hxs
      exact ⟨x :: xs, ⟨tail, hx⟩, hxs⟩

theorem exists_skimMember {depth : Nat} {places : List (String × Bytes)} {n : String}
    {place : Bytes} (hplace : (n, place) ∈ places) : {σ γ : Type} → (fields : Fields σ γ) →
    (index : Nat) → {g : γ} → fields.ReadsAt (.object places) depth index g → n ∈ fields.names →
    ∃ value rest, fields.skimMember passOver depth n place = .ok (value, rest)
  | _, _, cons name _ shape rest, index, (b, bs), h, hn => by
    rw [skimMember]
    by_cases hname : n = name
    · rw [if_pos hname]
      refine Presence.exists_skim_of_readsAt h.1 ?_
      exact List.mem_map.mpr ⟨(n, place), List.mem_filter.mpr ⟨hplace, by simpa using hname⟩, rfl⟩
    · rw [if_neg hname]
      refine exists_skimMember hplace rest (index + 1) h.2 ?_
      exact (List.mem_cons.mp hn).resolve_left hname

theorem exists_skimsMembers {fields : Fields σ γ} {depth index : Nat}
    {places : List (String × Bytes)} (hskip : ∀ p ∈ places, ∃ rest, skip p.2 = .ok rest) {g : γ}
    (h : fields.ReadsAt (.object places) depth index g) :
    ∃ ms, fields.SkimsMembers depth places ms := by
  refine exists_memberWise fun p hp => ?_
  by_cases hn : p.1 ∈ fields.names
  · exact fields.exists_skimMember hp index h hn
  · obtain ⟨rest, hrest⟩ := hskip p hp
    refine ⟨.null, rest, ?_⟩
    rw [skimMember_of_not_mem hn, passOver, hrest]
    rfl

end Fields

/-! ## Records -/

namespace Shape

variable {α σ γ : Type} {name : String} {fields : Fields σ γ} {as : Assembly γ α}

/-- A record is skimmed where it is laid out. -/
theorem skim_record_eq_ok_iff {depth : Nat} {s rest : Bytes} {value : Json} :
    (record name fields as).skim (depth + 1) s = .ok (value, rest) ↔
      ∃ layout, layout? s = some (layout, rest) ∧ fields.SkimsAt depth layout value := by
  rw [skim, layout?]
  cases opening s with
  | other t =>
    constructor
    · intro h
      cases h
    · rintro ⟨layout, h, -⟩
      cases h
  | array t =>
    dsimp only
    constructor
    · intro h
      obtain ⟨depth', hdepth, h⟩ := Except.bind_eq_ok.mp h
      cases hdepth
      obtain ⟨⟨xs, rest'⟩, hxs, h⟩ := Except.bind_eq_ok.mp h
      cases h
      obtain ⟨places, hplaces, hskims⟩ := fields.skimItems_eq_ok_iff.mp hxs
      exact ⟨.array places, by rw [hplaces.readItems_eq placed_advances]; rfl, xs, rfl, hskims⟩
    · rintro ⟨layout, hlayout, hskims⟩
      obtain ⟨⟨places, rest'⟩, hplaces, h⟩ := Option.map_eq_some_iff.mp hlayout
      cases h
      obtain ⟨xs, rfl, hskims⟩ := hskims
      obtain ⟨places', hitems, hsome⟩ := items_of_loop (Reader.Gives placed) some
        (fun h => ⟨_, h, rfl⟩) (Except.toOption_eq_some_iff.mp hplaces)
      rw [mapM_some] at hsome
      cases hsome
      simp [enter, fields.skimItems_eq_ok_iff.mpr ⟨places, hitems, hskims⟩]
  | object t =>
    dsimp only
    constructor
    · intro h
      obtain ⟨depth', hdepth, h⟩ := Except.bind_eq_ok.mp h
      cases hdepth
      obtain ⟨⟨seen, rest'⟩, hseen, h⟩ := Except.bind_eq_ok.mp h
      cases h
      obtain ⟨places, hplaces, hskims⟩ := Fields.skimMembers_eq_ok_iff.mp ⟨seen, hseen, rfl⟩
      exact ⟨.object places.reverse, by rw [hplaces]; rfl, seen.reverse, rfl, hskims⟩
    · rintro ⟨layout, hlayout, hskims⟩
      obtain ⟨⟨places, rest'⟩, hplaces, h⟩ := Option.map_eq_some_iff.mp hlayout
      cases h
      obtain ⟨ms, rfl, hskims⟩ := hskims
      obtain ⟨seen, hseen, rfl⟩ := Fields.skimMembers_eq_ok_iff.mpr
        ⟨places, Except.toOption_eq_some_iff.mp hplaces, hskims⟩
      simp [enter, hseen]

theorem shows_record_iff {document : Bytes} {value : Json} :
    (record name fields as).Shows document value ↔
      ∃ layout, LaidOut document layout ∧ fields.SkimsAt (maxDepth - 1) layout value := by
  constructor
  · rintro ⟨rest, hskim, hend⟩
    obtain ⟨layout, hlayout, hskims⟩ := skim_record_eq_ok_iff.mp hskim
    exact ⟨layout, ⟨rest, hlayout, hend⟩, hskims⟩
  · rintro ⟨layout, ⟨rest, hlayout, hend⟩, hskims⟩
    exact ⟨rest, skim_record_eq_ok_iff.mpr ⟨layout, hlayout, hskims⟩, hend⟩

/-- A document is accepted as a record if it is laid out as one and every field can be read at its
place, and then it says what the fields say. -/
theorem decode_record_eq_ok_iff (hnodup : fields.names.Nodup) {document : Bytes} {a : α} :
    (record name fields as).decode document = .ok a ↔
      ∃ layout, LaidOut document layout ∧ layout.Fits fields.names.length ∧
        fields.ReadsAt layout (maxDepth - 1) 0 (as.parts a) := by
  rw [decode_eq_ok_iff_shows]
  constructor
  · rintro ⟨value, hshows, hvalue⟩
    obtain ⟨layout, hlaid, hskims⟩ := shows_record_iff.mp hshows
    refine ⟨layout, hlaid, ?_⟩
    cases layout with
    | array places =>
      obtain ⟨xs, rfl, hskims⟩ := hskims
      refine ⟨Fields.length_of_skimsItems hskims, (fields.readsAt_array_iff 0 hskims).mpr ?_⟩
      exact (ofJson_array_eq_ok_iff.mp hvalue).2
    | object places =>
      obtain ⟨ms, rfl, hskims⟩ := hskims
      refine ⟨trivial, (Fields.readsAt_object_iff hskims fields hnodup 0 ?_).mpr ?_⟩
      · exact fun _ _ _ _ h => h
      · exact (ofJson_object_eq_ok_iff hnodup).mp hvalue
  · rintro ⟨layout, hlaid, hfits, hreads⟩
    cases layout with
    | array places =>
      have hfits : places.length ≤ fields.names.length := hfits
      obtain ⟨xs, hskims⟩ := fields.exists_skimsItems 0 (by omega) hreads
      rw [List.drop_zero] at hskims
      refine ⟨.array xs, shows_record_iff.mpr ⟨_, hlaid, xs, rfl, hskims⟩, ?_⟩
      refine ofJson_array_eq_ok_iff.mpr ⟨?_, (fields.readsAt_array_iff 0 hskims).mp hreads⟩
      rwa [← Fields.length_eq_of_skimsItems hskims]
    | object places =>
      have hskip : ∀ p ∈ places, ∃ rest, skip p.2 = .ok rest := by
        obtain ⟨rest, hlayout, -⟩ := hlaid
        exact skip_of_layout? hlayout
      obtain ⟨ms, hskims⟩ := Fields.exists_skimsMembers hskip hreads
      refine ⟨.object ms, shows_record_iff.mpr ⟨_, hlaid, ms, rfl, hskims⟩, ?_⟩
      refine (ofJson_object_eq_ok_iff hnodup).mpr ?_
      exact (Fields.readsAt_object_iff hskims fields hnodup 0 fun _ _ _ _ h => h).mp hreads

end Shape

end Provisioning
