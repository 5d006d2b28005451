import Provisioning.Proofs.Json.Survey
import Provisioning.Proofs.Schema.Streaming

/-!
# What an accepted document says

A reader that accepts a document has passed over what it did not need, and the document need not
list a value at all. It always has a survey, and the survey means what the reader has answered
(`Shape.exists_survey_of_decode`): the parts that a survey cannot tell are parts that no reader has
looked at. So what is known of the meaning of a value (`Shape.ofJson`) holds of every accepted
document, whatever else is in it.

The converse fails, and should: an optional member that holds a number too large is refused, though
its survey is a text.
-/

set_option autoImplicit false

namespace Provisioning

open Ascii Container Json

/-! ## Shapes with one part -/

theorem opening_of_after {s t : Bytes} (h : after? lowerN (skipBlank s) = some t) :
    opening s = .other (lowerN :: t) := by
  unfold opening
  cases hs : skipBlank s with
  | nil => rw [hs] at h; cases h
  | cons b u =>
    rw [hs, after?] at h
    split at h
    · next hb =>
      subst hb
      cases h
      rfl
    · cases h

theorem after_of_surveyed_null {s rest : Bytes} (h : Surveyed s .null rest) :
    ∃ t, after? lowerN (skipBlank s) = some t := by
  cases h with
  | @scalar _ t _ _ hs hx =>
    have hread := Scalar.survey_null hx
    rw [skipBlank_of_other hs]
    cases t with
    | nil => cases hread
    | cons b t =>
      rcases Scalar.read_cases hread with
        ⟨rfl, -⟩ | ⟨-, h, -⟩ | ⟨-, h, -⟩ | ⟨-, _, h, -⟩ | ⟨-, h, -⟩
      · exact ⟨t, rfl⟩
      · cases h
      · cases h
      · cases h
      · rcases h with ⟨_, h⟩ | ⟨_, h⟩ <;> cases h

/-- An object with one member, as it stands in a document. -/
theorem readListed_single {depth : Nat} {s t u s₁ s₂ s₃ rest : Bytes} {name : String} {value : Json}
    (hs : opening s = .object t) (ht : skipBlank t = quote :: u)
    (hname : Literal.read u = .ok (name, s₁)) (hcolon : readColon s₁ = .ok s₂)
    (hvalue : readListed depth s₂ = .ok (value, s₃)) (hclosed : skipBlank s₃ = rightBrace :: rest) :
    readListed (depth + 1) s = .ok (.object [(name, value)], rest) := by
  have hfirst : nextMember .decoded true t = .ok (.part u) := by
    rw [nextMember, ht]
    rfl
  have hlast : nextMember .decoded false s₃ = .ok (.closed rest) := by
    rw [nextMember, hclosed]
    rfl
  exact readListed_of_listed (.object hs (.part hfirst hname hcolon hvalue (.closed hlast)))

/-- No container begins like a value without parts. -/
theorem opening_of_read {s rest : Bytes} {x : Scalar}
    (h : Scalar.read (skipBlank s) = .ok (x, rest)) : opening s = .other (skipBlank s) := by
  unfold opening
  cases hs : skipBlank s with
  | nil => rfl
  | cons b t =>
    rw [hs] at h
    have hbracket : b ≠ leftBracket := by
      rintro rfl
      cases h
    have hbrace : b ≠ leftBrace := by
      rintro rfl
      cases h
    simp [hbracket, hbrace]

/-- A leaf is read where a value without parts is, after any blanks, and is accepted. -/
theorem Leaf.read_eq_ok_iff {α : Type} {leaf : Leaf α} {s rest : Bytes} {a : α} :
    leaf.read s = .ok (a, rest) ↔
      ∃ x, Scalar.read (skipBlank s) = .ok (x, rest) ∧ leaf.accept (.scalar x) = .ok a := by
  constructor
  · intro h
    obtain ⟨⟨found, rest'⟩, hfound, h⟩ := Except.bind_eq_ok.mp h
    obtain ⟨haccept, rfl⟩ := Fault.check_eq_ok.mp h
    unfold Found.read at hfound
    split at hfound
    · cases hfound
      exact absurd haccept (leaf.refuses_sequence a)
    · cases hfound
      exact absurd haccept (leaf.refuses_map a)
    · next hs =>
      obtain ⟨⟨x, rest'⟩, hx, hfound⟩ := Except.bind_eq_ok.mp hfound
      cases hfound
      rw [skipBlank_of_other hs]
      exact ⟨x, hx, haccept⟩
  · rintro ⟨x, hx, haccept⟩
    simp [Leaf.read, Found.read, opening_of_read hx, hx, haccept, Fault.check]

/-- What a leaf accepts could have been kept, whatever the depth. -/
theorem Leaf.exists_listed_of_read {α : Type} (leaf : Leaf α) (depth : Nat) {s rest : Bytes} {a : α}
    (h : leaf.read s = .ok (a, rest)) :
    ∃ value, readListed depth s = .ok (value, rest) ∧ leaf.accept value.found = .ok a := by
  obtain ⟨x, hx, haccept⟩ := Leaf.read_eq_ok_iff.mp h
  exact ⟨.scalar x, readListed_of_listed (.scalar (opening_of_read hx) hx), haccept⟩

theorem eq_succ_of_enter {rest : Bytes} {depth depth' : Nat} (h : enter rest depth = .ok depth') :
    depth = depth' + 1 := by
  cases depth with
  | zero => cases h
  | succ depth =>
    cases h
    rfl

/-- A name out of a list stands in the document as a text, or as the only name of an object. -/
theorem Naming.exists_listed_of_read {α : Type} (naming : Naming α) {depth : Nat} {s rest : Bytes}
    {a : α} (h : naming.read depth s = .ok (a, rest)) :
    ∃ value, readListed depth s = .ok (value, rest) ∧
      (Shape.choice naming).ofJson value = .ok a := by
  rw [Naming.read] at h
  split at h
  · cases h
  · next b t hs =>
    split at h
    · next hb =>
      subst hb
      obtain ⟨⟨name, rest'⟩, hname, h⟩ := Except.bind_eq_ok.mp h
      obtain ⟨haccept, rfl⟩ := Fault.check_eq_ok.mp h
      have hopening : opening s = .other (quote :: t) := by rw [opening, hs]; rfl
      have hread : Scalar.read (quote :: t) = .ok (.string name, rest') := by
        rw [Scalar.read_quote, hname]
        rfl
      exact ⟨.string name, readListed_of_listed (.scalar hopening hread),
        by rw [Shape.ofJson, haccept]⟩
    · split at h
      · next hb =>
        subst hb
        have hopening : opening s = .object t := by rw [opening, hs]; rfl
        obtain ⟨depth', hdepth, htail⟩ := Except.bind_eq_ok.mp h
        clear h
        obtain rfl := eq_succ_of_enter hdepth
        split at htail
        · cases htail
        · next c u ht =>
          split at htail
          · next hc =>
            subst hc
            obtain ⟨⟨name, s₁⟩, hname, h⟩ := Except.bind_eq_ok.mp htail
            obtain ⟨⟨a', s₂⟩, hcheck, h⟩ := Except.bind_eq_ok.mp h
            obtain ⟨haccept, rfl⟩ := Fault.check_eq_ok.mp hcheck
            obtain ⟨s₃, hcolon, h⟩ := Except.bind_eq_ok.mp h
            obtain ⟨⟨⟨⟩, s₄⟩, hunit, h⟩ := Except.bind_eq_ok.mp h
            obtain ⟨value, hvalue, hmeans⟩ := Leaf.unit.exists_listed_of_read depth' hunit
            dsimp only at h
            split at h
            · cases h
            · next d v hs₄ =>
              split at h
              · next hd =>
                subst hd
                cases h
                refine ⟨_, readListed_single hopening ht hname hcolon hvalue hs₄, ?_⟩
                rw [Shape.ofJson, haccept, Except.ok_bind, hmeans]
                rfl
              · cases h
          · split at htail <;> cases htail
      · cases h

namespace Shape

variable {α : Type}

/-- What the reader accepts has a survey, which means the same. -/
def Surveyable (shape : Shape α) : Prop :=
  ∀ {depth s a rest}, shape.read depth s = .ok (a, rest) →
    ∃ value, Surveyed s value rest ∧ shape.ofJson value = .ok a

theorem surveyable_leaf (leaf : Leaf α) : (Shape.leaf leaf).Surveyable := by
  intro depth s a rest h
  rw [Shape.read] at h
  obtain ⟨value, hvalue, haccept⟩ := leaf.exists_listed_of_read depth h
  exact ⟨value, surveyed_of_readListed hvalue, by rw [ofJson, haccept]⟩

theorem surveyable_tree : Shape.tree.Surveyable := by
  intro depth s a rest h
  rw [Shape.read] at h
  obtain ⟨⟨value, rest'⟩, hvalue, h⟩ := Except.bind_eq_ok.mp h
  cases h
  exact ⟨value, surveyed_of_readListed hvalue, by rw [ofJson]⟩

theorem surveyable_optional {inner : Shape α} (ih : inner.Surveyable) :
    inner.optional.Surveyable := by
  intro depth s a rest h
  rw [Shape.read] at h
  split at h
  · next t ht =>
    obtain ⟨rest', hword, h⟩ := Except.bind_eq_ok.mp h
    cases h
    have hread : Scalar.read (lowerN :: t) = .ok (.null, rest) := by
      simp [Scalar.read, hword]
    exact ⟨.null, .scalar (opening_of_after ht) (Scalar.survey_of_read hread), by rw [ofJson]⟩
  · next ht =>
    obtain ⟨⟨b, rest'⟩, hb, h⟩ := Except.bind_eq_ok.mp h
    cases h
    obtain ⟨value, hvalue, hmeans⟩ := ih hb
    -- The letter of `null` is not there, so the survey is no `null` either.
    have hnull : value ≠ .null := by
      rintro rfl
      obtain ⟨t, ht'⟩ := after_of_surveyed_null hvalue
      rw [ht] at ht'
      cases ht'
    refine ⟨value, hvalue, ?_⟩
    rw [ofJson_optional hnull, hmeans]
    rfl

theorem surveyable_list {inner : Shape α} (ih : inner.Surveyable) : inner.list.Surveyable := by
  intro depth s a rest h
  rw [Shape.read] at h
  split at h
  · next t hs =>
    obtain ⟨depth', -, h⟩ := Except.bind_eq_ok.mp h
    obtain ⟨xs, hxs, hmeans⟩ := items_of_loop Surveyed (fun x => (inner.ofJson x).toOption)
      (fun {s b rest} hb => by
        obtain ⟨x, hx, hmeans⟩ := ih hb
        exact ⟨x, hx, Except.toOption_eq_some_iff.mpr hmeans⟩) h
    rw [← toOption_mapM, Except.toOption_eq_some_iff] at hmeans
    exact ⟨.array xs, .array hs hxs, by rw [ofJson]; exact hmeans⟩
  · cases h

theorem surveyable_table {inner : Shape α} (ih : inner.Surveyable) : inner.table.Surveyable := by
  intro depth s t rest h
  rw [Shape.read] at h
  split at h
  · next u hs =>
    obtain ⟨depth', -, h⟩ := Except.bind_eq_ok.mp h
    obtain ⟨ms, hms, hmeans⟩ := members_of_loop Literal.survey id
      (fun h => ⟨_, Literal.survey_of_read h, rfl⟩) Surveyed
      (fun t m => (inner.ofJson m.2).toOption.map (t.insert m.1))
      (fun {name t s t' rest} hm => by
        obtain ⟨s₁, hcolon, hm⟩ := Except.bind_eq_ok.mp hm
        obtain ⟨⟨b, rest'⟩, hb, hm⟩ := Except.bind_eq_ok.mp hm
        cases hm
        obtain ⟨x, hx, hmeans⟩ := ih hb
        exact ⟨s₁, x, hcolon, hx, by rw [hmeans]; rfl⟩) h
    refine ⟨.object ms, .object hs hms, ?_⟩
    rw [← Except.toOption_eq_some_iff, ofJson, toOption_foldlM]
    simpa using hmeans
  · cases h

theorem surveyable_choice (naming : Naming α) : (Shape.choice naming).Surveyable := by
  intro depth s a rest h
  rw [Shape.read] at h
  obtain ⟨value, hvalue, hmeans⟩ := naming.exists_listed_of_read h
  exact ⟨value, surveyed_of_readListed hvalue, hmeans⟩

end Shape

/-! ## Fields -/

namespace Fields

variable {β σ γ : Type}

theorem skipBlank_of_readBracket {s rest : Bytes} (h : readBracket s = .ok rest) :
    skipBlank s = rightBracket :: rest := by
  unfold readBracket at h
  split at h
  · cases h
  · next b t hs =>
    split at h
    · next hb =>
      cases h
      rw [hs, hb]
    · split at h
      · split at h
        · cases h
        · split at h <;> cases h
      · cases h

/-- Both readings of the fields, by name and by position, have a survey that means the same. -/
structure Surveyable (fields : Fields σ γ) : Prop where
  member : ∀ {name slots depth s slots' rest},
    fields.readMember? name slots depth s = some (.ok (slots', rest)) →
      ∃ s₁ value, readColon s = .ok s₁ ∧ Surveyed s₁ value rest ∧
        fields.put name value slots = .ok slots'
  items : ∀ {expected depth index s g rest},
    fields.readItems expected depth index s = .ok (g, rest) →
      ∃ xs, Items Surveyed (decide (index = 0)) s xs rest ∧
        fields.ofItems expected index xs = .ok (g, [])

theorem surveyable_nil : nil.Surveyable where
  member h := nomatch h
  items {expected depth index s g rest} h := by
    rw [readItems] at h
    obtain ⟨rest', hbracket, h⟩ := Except.bind_eq_ok.mp h
    cases h
    refine ⟨[], .closed ?_, by rw [ofItems]⟩
    rw [nextItem, skipBlank_of_readBracket hbracket]
    rfl

theorem surveyable_cons {name : String} {presence : Presence β} {shape : Shape β}
    {rest : Fields σ γ} (hshape : shape.Surveyable) (hrest : rest.Surveyable) :
    (cons name presence shape rest).Surveyable where
  member {n slots depth s slots' tail} h := by
    obtain ⟨slot, slots⟩ := slots
    rw [readMember?] at h
    split at h
    · next hn =>
      split at h
      · cases h
      · next hslot =>
        obtain ⟨s₁, hcolon, h⟩ := Except.bind_eq_ok.mp (Option.some.inj h)
        obtain ⟨⟨b, s₂⟩, hb, h⟩ := Except.bind_eq_ok.mp h
        cases h
        obtain ⟨value, hvalue, hmeans⟩ := hshape hb
        exact ⟨s₁, value, hcolon, hvalue, by rw [put, if_pos hn, if_neg hslot, hmeans]; rfl⟩
    · next hn =>
      obtain ⟨result, hresult, h⟩ := Option.map_eq_some_iff.mp h
      obtain ⟨⟨slots'', s₂⟩, rfl, h⟩ := Except.map_eq_ok.mp h
      cases h
      obtain ⟨s₁, value, hcolon, hvalue, hput⟩ := hrest.member hresult
      exact ⟨s₁, value, hcolon, hvalue, by rw [put, if_neg hn, hput]; rfl⟩
  items {expected depth index s g tail} h := by
    rw [readItems] at h
    obtain ⟨step, hstep, h⟩ := Except.bind_eq_ok.mp h
    cases step with
    | closed t =>
      obtain ⟨hdefaults, rfl⟩ := Fault.check_eq_ok.mp h
      exact ⟨[], .closed hstep, by rw [ofItems, hdefaults]; rfl⟩
    | part t =>
      obtain ⟨⟨b, s₁⟩, hb, h⟩ := Except.bind_eq_ok.mp h
      obtain ⟨⟨bs, s₂⟩, hbs, h⟩ := Except.bind_eq_ok.mp h
      cases h
      obtain ⟨x, hx, hmeans⟩ := hshape hb
      obtain ⟨xs, hxs, hmeans'⟩ := hrest.items hbs
      refine ⟨x :: xs, .part hstep hx (by simpa using hxs), ?_⟩
      rw [ofItems, hmeans, Except.ok_bind, hmeans']
      rfl

/-- A member that no field reads is passed over, and means nothing. -/
theorem Surveyable.member_or_skip {fields : Fields σ γ} (h : fields.Surveyable) {name : String}
    {slots slots' : σ} {depth : Nat} {s rest : Bytes}
    (hread : ((fields.readMember? name slots depth s).getD do
      return (slots, ← Json.skip (← readColon s))) = .ok (slots', rest)) :
    ∃ s₁ value, readColon s = .ok s₁ ∧ Surveyed s₁ value rest ∧
      fields.put name value slots = .ok slots' := by
  cases hr : fields.readMember? name slots depth s with
  | none =>
    rw [hr] at hread
    obtain ⟨s₁, hcolon, hread⟩ := Except.bind_eq_ok.mp hread
    obtain ⟨rest', hskip, hread⟩ := Except.bind_eq_ok.mp hread
    cases hread
    obtain ⟨value, hvalue⟩ := surveyed_of_skip hskip
    exact ⟨s₁, value, hcolon, hvalue, put_of_not_mem (readMember?_eq_none_iff.mp hr) value slots⟩
  | some result =>
    rw [hr] at hread
    exact h.member (hr.trans (congrArg some hread))

end Fields

/-! ## Records -/

namespace Shape

variable {σ γ τ δ α : Type}

theorem surveyable_record {fields : Fields σ γ} (ih : fields.Surveyable) (name : String)
    (as : Assembly γ α) : (Shape.record name fields as).Surveyable := by
  intro depth s a rest h
  rw [Shape.read] at h
  split at h
  · next t hs =>
    obtain ⟨depth', -, h⟩ := Except.bind_eq_ok.mp h
    obtain ⟨⟨values, rest'⟩, hvalues, h⟩ := Except.bind_eq_ok.mp h
    cases h
    obtain ⟨xs, hxs, hmeans⟩ := ih.items hvalues
    exact ⟨.array xs, .array hs hxs, by rw [ofJson, hmeans]; rfl⟩
  · next t hs =>
    obtain ⟨depth', -, h⟩ := Except.bind_eq_ok.mp h
    obtain ⟨⟨slots, rest'⟩, hloop, h⟩ := Except.bind_eq_ok.mp h
    obtain ⟨⟨values, rest''⟩, hcheck, h⟩ := Except.bind_eq_ok.mp h
    obtain ⟨hcollect, rfl⟩ := Fault.check_eq_ok.mp hcheck
    cases h
    obtain ⟨ms, hms, hmeans⟩ := members_of_loop Literal.survey id
      (fun h => ⟨_, Literal.survey_of_read h, rfl⟩) Surveyed
      (fun slots m => (fields.put m.1 m.2 slots).toOption)
      (fun {name slots s slots' rest} hm => by
        obtain ⟨s₁, x, hcolon, hx, hput⟩ := ih.member_or_skip hm
        exact ⟨s₁, x, hcolon, hx, Except.toOption_eq_some_iff.mpr hput⟩) hloop
    rw [← toOption_foldlM, Except.toOption_eq_some_iff] at hmeans
    exact ⟨.object ms, .object hs hms, by rw [ofJson, hmeans, Except.ok_bind, hcollect]; rfl⟩
  · cases h

theorem surveyable_tagged {tag : Fields σ γ} {own : Fields τ δ} (ih : own.Surveyable)
    (name : String) (as : Assembly (γ × δ) α) : (Shape.tagged name tag own as).Surveyable := by
  intro depth s a rest h
  rw [Shape.read] at h
  split at h
  · next t hs =>
    obtain ⟨depth', -, h⟩ := Except.bind_eq_ok.mp h
    obtain ⟨⟨seen, rest'⟩, hloop, h⟩ := Except.bind_eq_ok.mp h
    obtain ⟨hcheck, rfl⟩ := Fault.check_eq_ok.mp h
    obtain ⟨ms, hms, hmeans⟩ := members_of_loop Literal.survey id
      (fun h => ⟨_, Literal.survey_of_read h, rfl⟩) Surveyed (putOrKeep own)
      (fun {name seen s seen' rest} hm => by
        dsimp only [id] at hm
        split at hm
        · next result hr =>
          obtain ⟨⟨slots, rest'⟩, rfl, hm⟩ := Except.map_eq_ok.mp hm
          cases hm
          obtain ⟨s₁, x, hcolon, hx, hput⟩ := ih.member hr
          have hn := Fields.mem_names_of_readMember? hr
          exact ⟨s₁, x, hcolon, hx, by rw [putOrKeep, if_pos hn, hput]; rfl⟩
        · next hr =>
          obtain ⟨⟨others, rest'⟩, hother, hseen⟩ := Except.map_eq_ok.mp hm
          cases hseen
          obtain ⟨s₁, hcolon, hother⟩ := Except.bind_eq_ok.mp hother
          obtain ⟨⟨x, rest''⟩, hx, hother⟩ := Except.bind_eq_ok.mp hother
          cases hother
          have hn := Fields.readMember?_eq_none_iff.mp hr
          exact ⟨s₁, x, hcolon, surveyed_of_readListed hx, by rw [putOrKeep, if_neg hn]⟩) hloop
    refine ⟨.object ms, .object hs hms, ?_⟩
    rw [foldlM_putOrKeep, ← toOption_foldlM] at hmeans
    obtain ⟨slots, hslots, rfl⟩ := Option.map_eq_some_iff.mp hmeans
    rw [List.append_nil, List.reverse_reverse] at hcheck
    rw [ofJson, Except.toOption_eq_some_iff.mp hslots]
    exact hcheck
  · cases h

end Shape

/-! ## All shapes -/

mutual

theorem Shape.surveyable : {α : Type} → (shape : Shape α) → shape.Surveyable
  | _, .leaf leaf => Shape.surveyable_leaf leaf
  | _, .tree => Shape.surveyable_tree
  | _, .optional inner => Shape.surveyable_optional inner.surveyable
  | _, .list inner => Shape.surveyable_list inner.surveyable
  | _, .table inner => Shape.surveyable_table inner.surveyable
  | _, .choice naming => Shape.surveyable_choice naming
  | _, .record name fields as => Shape.surveyable_record fields.surveyable name as
  | _, .tagged name _ own as => Shape.surveyable_tagged own.surveyable name as

theorem Fields.surveyable : {σ γ : Type} → (fields : Fields σ γ) → fields.Surveyable
  | _, _, .nil => Fields.surveyable_nil
  | _, _, .cons _ _ shape rest => Fields.surveyable_cons shape.surveyable rest.surveyable

end

/-- A document is a value and nothing behind it. -/
theorem Shape.decode_eq_ok_iff_readEnd {α : Type} {shape : Shape α} {document : Bytes} {a : α} :
    shape.decode document = .ok a ↔
      ∃ rest, shape.read maxDepth document = .ok (a, rest) ∧ readEnd rest = .ok () := by
  rw [decode, Except.mapError_eq_ok]
  constructor
  · intro h
    obtain ⟨⟨a', rest⟩, hread, h⟩ := Except.bind_eq_ok.mp h
    obtain ⟨⟨⟩, hend, h⟩ := Except.bind_eq_ok.mp h
    cases h
    exact ⟨rest, hread, hend⟩
  · rintro ⟨rest, hread, hend⟩
    simp [readDocument, hread, hend]

/-- A document that holds no value of the shape is refused for that. -/
theorem Shape.exists_decode_error {α : Type} {shape : Shape α} {document : Bytes}
    (h : ∀ a, shape.decode document ≠ .ok a) :
    ∃ detail, shape.decode document = .error (.deserialization detail) := by
  rw [Shape.decode] at h ⊢
  cases hread : shape.readDocument document with
  | ok a => exact absurd (by rw [hread]; rfl) (h a)
  | error fault => exact ⟨fault.report document, rfl⟩

/-- An accepted document has a survey, and that means what the document is decoded as. -/
theorem Shape.exists_survey_of_decode {α : Type} (shape : Shape α) {document : Bytes} {a : α}
    (h : shape.decode document = .ok a) :
    ∃ value, Surveys document value ∧ shape.ofJson value = .ok a := by
  obtain ⟨rest, hread, hend⟩ := Shape.decode_eq_ok_iff_readEnd.mp h
  obtain ⟨value, hvalue, hmeans⟩ := shape.surveyable hread
  exact ⟨value, ⟨rest, hvalue, hend⟩, hmeans⟩

/-- What is said of an accepted document by its survey. -/
theorem Shape.ofJson_of_survey {α : Type} (shape : Shape α) {document : Bytes} {a : α}
    {value : Json} (h : shape.decode document = .ok a) (hvalue : Surveys document value) :
    shape.ofJson value = .ok a := by
  obtain ⟨value', hvalue', hmeans⟩ := shape.exists_survey_of_decode h
  rwa [hvalue.unique hvalue']

end Provisioning
