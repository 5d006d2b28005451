import Provisioning.Proofs.Json.Survey
import Provisioning.Proofs.Json.Written
import Provisioning.Proofs.Members

/-!
# The one text of a value

The text of a tree is the only one among the many that say the same which a writer would choose
(`Json.Canonical`). It is compact: read from the left, with an eye on whether a string is open, it
shows no blank outside of strings (`Json.Leads`). Its names ascend in the order of their UTF-8
bytes, because the entries of a table ascend in the order of characters and the encoding keeps that
order (`Utf8.encode_lt_encode`). And it lists the value, so it is the text of no other
(`Json.Canonical.unique`).
-/

set_option autoImplicit false

namespace Provisioning

open Utf8

/-! ## The order of bytes -/

namespace Utf8

/-- The first byte decides, unless it is the same. -/
theorem ofNat_cons_lt {a b : Nat} {s t : Bytes} (h : a ≤ b) (hb : b < 256)
    (hrest : a = b → s < t) : UInt8.ofNat a :: s < UInt8.ofNat b :: t := by
  refine List.cons_lt_cons_iff.mpr ?_
  rcases Nat.lt_or_eq_of_le h with hlt | rfl
  · refine .inl (UInt8.lt_iff_toNat_lt.mpr ?_)
    rwa [toNat_ofNat hb, toNat_ofNat (Nat.lt_trans hlt hb)]
  · exact .inr ⟨rfl, hrest rfl⟩

theorem tail_cons_lt {m n : Nat} {s t : Bytes} (h : m % 64 ≤ n % 64)
    (hrest : m % 64 = n % 64 → s < t) : tail m :: s < tail n :: t :=
  ofNat_cons_lt (by omega) (by omega) fun h => hrest (by omega)

/-- A longer sequence has the larger first byte, and of two sequences of one length the larger code
point has the larger digit where they differ first. -/
theorem encodePoint_append_lt {m n : Nat} (h : m < n) (hn : n < 0x110000) (s t : Bytes) :
    encodePoint m ++ s < encodePoint n ++ t := by
  unfold encodePoint
  -- The sequence of `m` has one to four bytes, and that of `n` has as many or more.
  split
  · repeat' split
    all_goals exact ofNat_cons_lt (by omega) (by omega) fun _ => by omega
  split
  · rw [if_neg (by omega)]
    split
    · refine ofNat_cons_lt (by omega) (by omega) fun _ => ?_
      exact tail_cons_lt (by omega) fun _ => by omega
    · split
      all_goals exact ofNat_cons_lt (by omega) (by omega) fun _ => by omega
  split
  · rw [if_neg (by omega), if_neg (by omega)]
    split
    · refine ofNat_cons_lt (by omega) (by omega) fun _ => ?_
      refine tail_cons_lt (by omega) fun _ => ?_
      exact tail_cons_lt (by omega) fun _ => by omega
    · exact ofNat_cons_lt (by omega) (by omega) fun _ => by omega
  · rw [if_neg (by omega), if_neg (by omega), if_neg (by omega)]
    refine ofNat_cons_lt (by omega) (by omega) fun _ => ?_
    refine tail_cons_lt (by omega) fun _ => ?_
    refine tail_cons_lt (by omega) fun _ => ?_
    exact tail_cons_lt (by omega) fun _ => by omega

theorem encodePoint_ne_nil (n : Nat) : encodePoint n ≠ [] := by
  grind [encodePoint]

theorem encodeAll_lt_encodeAll {xs ys : List Char} (h : xs < ys) : encodeAll xs < encodeAll ys := by
  induction xs generalizing ys with
  | nil =>
    cases ys with
    | nil => cases h
    | cons y ys =>
      obtain ⟨b, s, hb⟩ := List.exists_cons_of_ne_nil (encodePoint_ne_nil y.toNat)
      rw [encodeAll_cons, encodeChar, hb]
      exact List.nil_lt_cons _ _
  | cons x xs ih =>
    cases ys with
    | nil => cases h
    | cons y ys =>
      rcases List.cons_lt_cons_iff.mp h with hxy | ⟨rfl, hxs⟩
      · exact encodePoint_append_lt hxy (toNat_lt y) _ _
      · exact List.append_left_lt (ih hxs)

/-- Texts are ordered as their bytes are. -/
theorem encode_lt_encode {s t : String} (h : s < t) : encode s < encode t :=
  encodeAll_lt_encodeAll (String.lt_iff.mp h)

end Utf8

namespace Json

/-! ## Order -/

/-- An object whose names ascend in the order of their bytes, or no object. -/
def NamesAscend : Json → Prop
  | object members => members.Pairwise fun m n => encode m.1 < encode n.1
  | _ => True

/-- The names of every object in the value ascend. -/
def Ordered (value : Json) : Prop := value.Everywhere NamesAscend

theorem namesAscend_ofTable (t : Table Json) : (ofTable t).NamesAscend :=
  t.ordered.imp encode_lt_encode

theorem ordered_tree (value : Json) : value.tree.Ordered := by
  induction value with
  | scalar value =>
    rw [tree]
    exact everywhere_scalar.mpr trivial
  | array items ih =>
    rw [tree, treeItems_eq_map]
    exact everywhere_array.mpr ⟨trivial, List.forall_mem_map.mpr ih⟩
  | object members ih =>
    rw [tree, treeMembers_eq_map]
    refine everywhere_object.mpr ⟨namesAscend_ofTable _, ?_⟩
    rintro ⟨name, value⟩ hm
    rw [Table.mem_entries_iff, Table.get?_ofList] at hm
    obtain ⟨m, hmem, he⟩ := List.mem_map.mp (mem_of_last? hm)
    cases he
    exact ih m hmem

/-! ## Compactness -/

/-- Where a character of a text stands: outside of strings, in a string, or in a string just after a
backslash. -/
inductive Place where
  | outside
  | inside
  | escaped

/-- The place after a character. -/
def Place.next : Place → Char → Place
  | outside, c => if c = '"' then inside else outside
  | inside, c => if c = '"' then outside else if c = '\\' then escaped else inside
  | escaped, _ => inside

/-- The characters that may stand between the parts of a document without a meaning. -/
def Blank (c : Char) : Prop := c = ' ' ∨ c = '\n' ∨ c = '\t' ∨ c = '\r'

instance (c : Char) : Decidable (Blank c) :=
  inferInstanceAs (Decidable (c = ' ' ∨ c = '\n' ∨ c = '\t' ∨ c = '\r'))

/-- The text leads from one place to another and has no blank outside of strings. -/
inductive Leads : Place → List Char → Place → Prop where
  | nil (place : Place) : Leads place [] place
  | cons {place place' : Place} {c : Char} {cs : List Char} (hc : place = .outside → ¬Blank c)
      (h : Leads (place.next c) cs place') : Leads place (c :: cs) place'

/-- No blank stands outside of the strings of a text, and each of them is closed. -/
def Compact (text : String) : Prop := Leads .outside text.toList .outside

namespace Leads

variable {place place' place'' : Place} {c : Char} {cs ds : List Char}

/-- What leads on from one place to the next may be put together. -/
theorem append (h : Leads place cs place') (h' : Leads place' ds place'') :
    Leads place (cs ++ ds) place'' := by
  induction h with
  | nil _ => exact h'
  | cons hc _ ih => exact .cons hc (ih h')

/-- Neither a blank nor the beginning of a string. -/
def Mark (c : Char) : Prop := ¬Blank c ∧ c ≠ '"'

instance (c : Char) : Decidable (Mark c) := inferInstanceAs (Decidable (¬Blank c ∧ c ≠ '"'))

theorem mark (hc : Mark c) (h : Leads .outside cs place) : Leads .outside (c :: cs) place := by
  refine .cons (fun _ => hc.1) ?_
  rwa [Place.next, if_neg hc.2]

/-- A text without strings and blanks stays outside. -/
theorem marks (h : cs.all (Mark ·)) : Leads .outside cs .outside := by
  induction cs with
  | nil => exact .nil _
  | cons c cs ih =>
    rw [List.all_cons, Bool.and_eq_true, decide_eq_true_eq] at h
    exact mark h.1 (ih h.2)

/-- Inside a string only the quote and the backslash count. -/
theorem kept (h : ∀ c ∈ cs, c ≠ '"' ∧ c ≠ '\\') : Leads .inside cs .inside := by
  induction cs with
  | nil => exact .nil _
  | cons c cs ih =>
    obtain ⟨hc, hcs⟩ := List.forall_mem_cons.mp h
    refine .cons nofun ?_
    rw [Place.next, if_neg hc.1, if_neg hc.2]
    exact ih hcs

theorem escape (c : Char) : Leads .inside ['\\', c] .inside :=
  .cons nofun (.cons nofun (.nil _))

theorem escapeChar (c : Char) : Leads .inside (Json.escapeChar c) .inside := by
  unfold Json.escapeChar
  split
  · exact escape _
  split
  · exact escape _
  split
  · next hquote hbackslash _ => exact kept (by simp [hquote, hbackslash])
  iterate 5
    split
    · exact escape _
  have hdigit : ∀ n < 16, n.digitChar ≠ '"' ∧ n.digitChar ≠ '\\' := by decide
  refine (escape 'u').append (kept ?_)
  simp [hdigit (c.toNat / 16) (by omega), hdigit (c.toNat % 16) (by omega)]

theorem stringChars (text : String) : Leads .outside (Json.stringChars text) .outside := by
  have hbody (cs : List Char) : Leads .inside (cs.flatMap Json.escapeChar) .inside := by
    induction cs with
    | nil => exact .nil _
    | cons c cs ih => exact (escapeChar c).append ih
  refine .cons (fun _ => by decide) ((hbody text.toList).append ?_)
  exact .cons nofun (.nil _)

theorem integerChars (n : Integer) : Leads .outside n.chars .outside := by
  have hdigits (k : Nat) : (Nat.toDigits 10 k).all (Mark ·) := by
    refine List.all_eq_true.mpr fun c hc => decide_eq_true ?_
    have hdigit : c.isDigit := Nat.isDigit_of_mem_toDigits (by decide) (by decide) hc
    refine ⟨?_, ?_⟩
    · rintro (rfl | rfl | rfl | rfl) <;> revert hdigit <;> decide
    · rintro rfl
      revert hdigit
      decide
  unfold Integer.chars
  split
  · exact marks (hdigits _)
  · exact mark (by decide) (marks (hdigits _))

theorem scalarChars {value : Scalar} (h : NoFloat (scalar value)) :
    Leads .outside value.chars .outside := by
  cases value with
  | null => exact marks (by decide)
  | bool b => cases b <;> exact marks (by decide)
  | integer n => exact integerChars n
  | float _ => exact h.elim
  | string text => exact stringChars text

theorem moreItems {items : List Json} (h : ∀ item ∈ items, Leads .outside item.chars .outside) :
    Leads .outside (Json.moreItems items) .outside := by
  induction items with
  | nil => exact marks (by decide)
  | cons item items ih =>
    obtain ⟨hitem, hitems⟩ := List.forall_mem_cons.mp h
    exact mark (by decide) (hitem.append (ih hitems))

theorem member {name : String} {value : Json} (h : Leads .outside value.chars .outside) :
    Leads .outside (Json.stringChars name ++ ':' :: value.chars) .outside :=
  (stringChars name).append (mark (by decide) h)

theorem moreMembers {members : List (String × Json)}
    (h : ∀ m ∈ members, Leads .outside m.2.chars .outside) :
    Leads .outside (Json.moreMembers members) .outside := by
  induction members with
  | nil => exact marks (by decide)
  | cons m members ih =>
    obtain ⟨hm, hmembers⟩ := List.forall_mem_cons.mp h
    exact mark (by decide) ((member hm).append (ih hmembers))

theorem chars {value : Json} (h : value.Exact) : Leads .outside value.chars .outside := by
  induction value with
  | scalar value =>
    rw [Json.chars]
    exact scalarChars (everywhere_scalar.mp h)
  | array items ih =>
    have hitems : ∀ item ∈ items, Leads .outside item.chars .outside := fun item hitem =>
      ih item hitem ((everywhere_array.mp h).2 item hitem)
    cases items with
    | nil => exact marks (by decide)
    | cons item items =>
      obtain ⟨hitem, hitems⟩ := List.forall_mem_cons.mp hitems
      exact mark (by decide) (hitem.append (moreItems hitems))
  | object members ih =>
    have hmembers : ∀ m ∈ members, Leads .outside m.2.chars .outside := fun m hm =>
      ih m hm ((everywhere_object.mp h).2 m hm)
    cases members with
    | nil => exact marks (by decide)
    | cons m members =>
      obtain ⟨hm, hmembers⟩ := List.forall_mem_cons.mp hmembers
      exact mark (by decide) ((member hm).append (moreMembers hmembers))

end Leads

theorem compact_text {value : Json} (h : value.Exact) : Compact value.text := by
  rw [Compact, text, String.toList_ofList]
  exact .chars h

/-! ## One value, one text -/

/-- A compact text that lists the members of every object in the order of their names. -/
structure Canonical (value : Json) (text : String) : Prop where
  compact : Compact text
  ordered : value.Ordered
  lists : Lists (encode text) value

/-- The text of a tree is canonical. -/
theorem canonical_text {value : Json} (hexact : value.Exact) (hdepth : value.depth ≤ maxDepth)
    (htree : value.tree = value) : value.Canonical value.text where
  compact := compact_text hexact
  ordered := htree ▸ ordered_tree value
  lists := lists_text hexact hdepth

theorem Canonical.unique {value value' : Json} {text : String} (h : value.Canonical text)
    (h' : value'.Canonical text) : value = value' :=
  h.lists.surveys.unique h'.lists.surveys

end Json

end Provisioning
