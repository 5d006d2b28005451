import Provisioning.Proofs.Json.Listing
import Provisioning.Proofs.Json.Spelling
import Provisioning.Proofs.Json.Values

/-!
# Values are read back

The compact text of a value, read as a document, lists the same value with the same members in the
same order (`Json.lists_text`), as long as the value has no floating-point number and is not nested
more deeply than a reader goes. The induction is over the value, and inside it over the parts of a
container. What has to be known of the bytes that follow a part is that they do not continue a
number; and a comma or a closing bracket does not.
-/

set_option autoImplicit false

namespace Provisioning

open Ascii Container Utf8

/-! ## Where a value begins and ends -/

theorem Numeral.ends_nil : Ends [] := nofun

theorem Numeral.ends_comma (s : Bytes) : Ends (comma :: s) := by
  rintro b ⟨⟩
  decide

theorem Numeral.ends_bracket (s : Bytes) : Ends (rightBracket :: s) := by
  rintro b ⟨⟩
  decide

theorem Numeral.ends_brace (s : Bytes) : Ends (rightBrace :: s) := by
  rintro b ⟨⟩
  decide

/-- No blank is in front, and no bracket that closes an array. -/
def Begins (s : Bytes) : Prop := skipBlank s = s ∧ ∃ b t, s = b :: t ∧ b ≠ rightBracket

theorem begins_cons {b : UInt8} (h : ¬(b = space ∨ b = lineFeed ∨ b = tab ∨ b = carriageReturn))
    (hb : b ≠ rightBracket) (s : Bytes) : Begins (b :: s) :=
  ⟨by rw [skipBlank, if_neg h], b, s, rfl, hb⟩

theorem Begins.nextItem_first {s : Bytes} (h : Begins s) (care : Care) :
    nextItem care true s = .ok (.part s) := by
  obtain ⟨hblank, b, t, rfl, hb⟩ := h
  rw [nextItem, hblank]
  simp [hb]

theorem Begins.nextItem_comma {s : Bytes} (h : Begins s) (care : Care) :
    nextItem care false (comma :: s) = .ok (.part s) := by
  obtain ⟨hblank, b, t, rfl, hb⟩ := h
  have hcomma : skipBlank (comma :: b :: t) = comma :: b :: t := rfl
  rw [nextItem, hcomma]
  simp [hblank, hb, (by decide : comma ≠ rightBracket)]

/-- A leaf begins where a value may begin, and with no bracket. -/
theorem begins_of_read {s rest : Bytes} {value : Scalar} (h : Scalar.read s = .ok (value, rest)) :
    Begins s ∧ opening s = .other s := by
  cases s with
  | nil => cases h
  | cons b s =>
    have hb : ¬(b = space ∨ b = lineFeed ∨ b = tab ∨ b = carriageReturn) ∧ b ≠ rightBracket ∧
        b ≠ leftBracket ∧ b ≠ leftBrace := by
      rcases Scalar.read_cases h with
        ⟨rfl, -⟩ | ⟨rfl, -⟩ | ⟨rfl, -⟩ | ⟨rfl, -⟩ | ⟨hb, -⟩
      · decide
      · decide
      · decide
      · decide
      · -- A number begins with a digit or a minus, and all of these are other bytes.
        refine ⟨?_, ?_, ?_, ?_⟩
        · rintro (rfl | rfl | rfl | rfl) <;> revert hb <;> decide
        · rintro rfl; revert hb; decide
        · rintro rfl; revert hb; decide
        · rintro rfl; revert hb; decide
    have hbegins := begins_cons hb.1 hb.2.1 s
    exact ⟨hbegins, by rw [opening, hbegins.1]; simp [hb.2.2]⟩

/-! ## The induction -/

namespace Json

/-- The value is read back from its text, whatever follows. -/
def ReadsBack (depth : Nat) (value : Json) : Prop :=
  ∀ {rest : Bytes}, Numeral.Ends rest →
    Begins (encodeAll value.chars ++ rest) ∧
      readListed depth (encodeAll value.chars ++ rest) = .ok (value, rest)

theorem ends_moreItems (items : List Json) (rest : Bytes) :
    Numeral.Ends (encodeAll (moreItems items) ++ rest) := by
  cases items with
  | nil => exact Numeral.ends_bracket rest
  | cons item items => exact Numeral.ends_comma _

theorem ends_moreMembers (members : List (String × Json)) (rest : Bytes) :
    Numeral.Ends (encodeAll (moreMembers members) ++ rest) := by
  cases members with
  | nil => exact Numeral.ends_brace rest
  | cons m members => exact Numeral.ends_comma _

/-- What follows the first item of an array. -/
theorem items_moreItems {depth : Nat} {items : List Json}
    (h : ∀ item ∈ items, item.ReadsBack depth) (rest : Bytes) :
    Items (Reader.Gives (readListed depth)) false (encodeAll (moreItems items) ++ rest) items
      rest := by
  induction items with
  | nil => exact .closed rfl
  | cons item items ih =>
    obtain ⟨hitem, hitems⟩ := List.forall_mem_cons.mp h
    obtain ⟨hbegins, hread⟩ := hitem (ends_moreItems items rest)
    rw [moreItems, List.cons_append, encodeAll_cons, encodeAll_append, List.append_assoc,
      List.append_assoc]
    exact .part (hbegins.nextItem_comma _) hread (ih hitems)

theorem readsBack_scalar {depth : Nat} {value : Scalar} (h : NoFloat (scalar value)) :
    (scalar value).ReadsBack depth := by
  intro rest hrest
  have hfloat : ∀ x, value ≠ .float x := by
    rintro x rfl
    exact h
  have hread := Scalar.read_chars hfloat hrest
  obtain ⟨hbegins, hopening⟩ := begins_of_read hread
  rw [chars]
  exact ⟨hbegins, readListed_of_listed (.scalar hopening hread)⟩

theorem readsBack_array {depth : Nat} {items : List Json}
    (h : ∀ item ∈ items, item.ReadsBack depth) : (array items).ReadsBack (depth + 1) := by
  intro rest hrest
  cases items with
  | nil =>
    exact ⟨begins_cons (by decide) (by decide) _, readListed_of_listed (.array rfl (.closed rfl))⟩
  | cons item items =>
    obtain ⟨hitem, hitems⟩ := List.forall_mem_cons.mp h
    obtain ⟨hbegins, hread⟩ := hitem (ends_moreItems items rest)
    rw [chars, List.cons_append, encodeAll_cons, encodeAll_append, List.append_assoc,
      List.append_assoc]
    refine ⟨begins_cons (by decide) (by decide) _, readListed_of_listed (.array rfl ?_)⟩
    exact .part (hbegins.nextItem_first _) hread (items_moreItems hitems rest)

/-- A member and those after it, from the quote that opens its name. -/
theorem members_cons {depth : Nat} {first : Bool} {s rest : Bytes} {name : String} {value : Json}
    {members : List (String × Json)}
    (hnext : nextMember .decoded first s =
      .ok (.part (encodeAll (name.toList.flatMap escapeChar) ++
        quote :: colon :: (encodeAll value.chars ++ (encodeAll (moreMembers members) ++ rest)))))
    (hvalue : value.ReadsBack depth)
    (hmembers : Members Literal.read (Reader.Gives (readListed depth)) false
      (encodeAll (moreMembers members) ++ rest) members rest) :
    Members Literal.read (Reader.Gives (readListed depth)) first s ((name, value) :: members)
      rest :=
  .part hnext (Literal.read_escape name _) rfl (hvalue (ends_moreMembers members rest)).2 hmembers

/-- What follows the first member of an object. -/
theorem members_moreMembers {depth : Nat} {members : List (String × Json)}
    (h : ∀ m ∈ members, m.2.ReadsBack depth) (rest : Bytes) :
    Members Literal.read (Reader.Gives (readListed depth)) false
      (encodeAll (moreMembers members) ++ rest) members rest := by
  induction members with
  | nil => exact .closed rfl
  | cons m members ih =>
    obtain ⟨name, value⟩ := m
    obtain ⟨hvalue, hmembers⟩ := List.forall_mem_cons.mp h
    refine members_cons ?_ hvalue (ih hmembers)
    -- The comma and the quote are taken by the step; the name begins behind them.
    rw [moreMembers, encodeAll_append, encodeAll_append, encodeAll_cons, List.append_assoc,
      List.append_assoc, List.append_assoc, encodeAll_stringChars]
    rfl

theorem readsBack_object {depth : Nat} {members : List (String × Json)}
    (h : ∀ m ∈ members, m.2.ReadsBack depth) : (object members).ReadsBack (depth + 1) := by
  intro rest hrest
  cases members with
  | nil =>
    exact ⟨begins_cons (by decide) (by decide) _, readListed_of_listed (.object rfl (.closed rfl))⟩
  | cons m members =>
    obtain ⟨name, value⟩ := m
    obtain ⟨hvalue, hmembers⟩ := List.forall_mem_cons.mp h
    rw [chars, encodeAll_append, encodeAll_append, encodeAll_cons, List.append_assoc,
      List.append_assoc, List.append_assoc, encodeAll_stringChars]
    refine ⟨begins_cons (by decide) (by decide) _, readListed_of_listed (.object rfl ?_)⟩
    exact members_cons rfl hvalue (members_moreMembers hmembers rest)

/-- A leaf that is read back, or a container. -/
def LeafReadsBack : Json → Prop
  | scalar value => ∀ depth, (scalar value).ReadsBack depth
  | _ => True

theorem leafReadsBack_of_noFloat {value : Json} (h : value.NoFloat) : value.LeafReadsBack := by
  cases value with
  | scalar value => exact fun _ => readsBack_scalar h
  | array _ => trivial
  | object _ => trivial

/-- A value is read back by a reader that goes as deep, if its leaves are. -/
theorem readsBack {value : Json} (h : value.Everywhere LeafReadsBack) {depth : Nat}
    (hdepth : value.depth ≤ depth) : value.ReadsBack depth := by
  induction value generalizing depth with
  | scalar value => exact everywhere_scalar.mp h depth
  | array items ih =>
    obtain ⟨n, rfl, hitems⟩ := exists_of_depth_array_le hdepth
    refine readsBack_array fun item hitem => ih item hitem ?_ (hitems item hitem)
    exact (everywhere_array.mp h).2 item hitem
  | object members ih =>
    obtain ⟨n, rfl, hmembers⟩ := exists_of_depth_object_le hdepth
    refine readsBack_object fun m hm => ih m hm ?_ (hmembers m hm)
    exact (everywhere_object.mp h).2 m hm

theorem lists_text_of_leaves {value : Json} (h : value.Everywhere LeafReadsBack)
    (hdepth : value.depth ≤ maxDepth) : Lists (encode value.text) value := by
  have hread := (readsBack h hdepth Numeral.ends_nil).2
  rw [List.append_nil] at hread
  exact ⟨[], by rw [text, encode_ofList, hread], rfl⟩

/-- The text of a value without floating-point numbers lists the value. -/
theorem lists_text {value : Json} (hexact : value.Exact) (hdepth : value.depth ≤ maxDepth) :
    Lists (encode value.text) value :=
  lists_text_of_leaves (hexact.imp fun _ => leafReadsBack_of_noFloat) hdepth

end Json

end Provisioning
