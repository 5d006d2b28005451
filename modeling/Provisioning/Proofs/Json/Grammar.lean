import Provisioning.Proofs.Decimal.Notation
import Provisioning.Proofs.Json.Written

/-!
# What a compact text looks like

A grammar of the compact texts of a value (`Json.WrittenAs`), which says part by part what stands
there and not how it is put there: literals, the digits of a whole number, the shortest spelling of
a floating-point one, escapes where a string needs them and nowhere else, commas and colons without
blanks. The text of a value is one of its compact texts (`Json.writtenAs_chars`), floating-point
numbers included, of which `Json.Canonical` has nothing to say because they are not always read
back.
-/

set_option autoImplicit false

namespace Provisioning

/-! ## Leaves -/

namespace Json

/-- The characters that are escaped by a letter. -/
def escapeLetters : List (Char × Char) :=
  [('"', '"'), ('\\', '\\'), ('\x08', 'b'), ('\t', 't'), ('\n', 'n'), ('\x0c', 'f'), ('\r', 'r')]

/-- A character as it stands in a string: as itself unless it has to be escaped, and then by its
letter if it has one. -/
inductive EscapedAs (c : Char) : List Char → Prop where
  | plain (hc : ' ' ≤ c) (hquote : c ≠ '"') (hbackslash : c ≠ '\\') : EscapedAs c [c]
  | letter {l : Char} (hl : (c, l) ∈ escapeLetters) : EscapedAs c ['\\', l]
  | code (hc : c < ' ') (hl : ∀ l, (c, l) ∉ escapeLetters) :
      EscapedAs c (['\\', 'u', '0', '0'] ++ [Nat.digitChar (c.toNat / 16),
        Nat.digitChar (c.toNat % 16)])

/-- A string is its characters between quotes. -/
def StringWrittenAs (s : String) (text : List Char) : Prop :=
  ∃ parts, List.Forall₂ EscapedAs s.toList parts ∧ text = ['"'] ++ parts.flatten ++ ['"']

/-- A floating-point number is spelled in the fewest digits, and is `null` if it is infinite or not
a number. -/
def FloatWrittenAs (x : Float) (text : List Char) : Prop :=
  match Decimal.Dyadic.ofBits? x.toBits with
  | some value => floatNotation.Writes value (decide (Decimal.HasMinus x)) text
  | none => text = "null".toList

end Json

def Scalar.WrittenAs : Scalar → List Char → Prop
  | null, text => text = "null".toList
  | bool b, text => text = (toString b).toList
  | integer n, text => text = (toString n.val).toList
  | float x, text => Json.FloatWrittenAs x text
  | string s, text => Json.StringWrittenAs s text

namespace Json

theorem EscapedAs.of_toNat {c l : Char} {n : Nat} (hc : c.toNat = n)
    (hl : (Char.ofNat n, l) ∈ escapeLetters) : EscapedAs c ['\\', l] := by
  subst hc
  rw [Char.ofNat_toNat] at hl
  exact .letter hl

theorem escapedAs_escapeChar (c : Char) : EscapedAs c (escapeChar c) := by
  unfold escapeChar
  split
  · next h => exact .of_toNat (congrArg Char.toNat h) (by decide)
  split
  · next h => exact .of_toNat (congrArg Char.toNat h) (by decide)
  split
  · next hquote hbackslash hc => exact .plain hc hquote hbackslash
  iterate 5
    split
    · next h => exact .of_toNat h (by decide)
  next hquote hbackslash hc h₁ h₂ h₃ h₄ h₅ =>
  refine .code (Nat.lt_of_not_le hc) ?_
  intro l hl
  have hletters : ∀ e ∈ escapeLetters, e.1 ∈ ['"', '\\', '\x08', '\t', '\n', '\x0c', '\r'] := by
    decide
  have hmem := hletters _ hl
  simp only [List.mem_cons, List.not_mem_nil, or_false] at hmem
  rcases hmem with rfl | rfl | rfl | rfl | rfl | rfl | rfl <;> contradiction

theorem stringWrittenAs_stringChars (s : String) : StringWrittenAs s (stringChars s) := by
  refine ⟨s.toList.map escapeChar, ?_, ?_⟩
  · exact List.forall₂_map_right_iff.mpr (List.forall₂_same.mpr fun c _ => escapedAs_escapeChar c)
  · rw [stringChars, List.flatMap_def]
    rfl

theorem floatWrittenAs_floatChars (x : Float) : FloatWrittenAs x (floatChars x) := by
  unfold FloatWrittenAs floatChars
  split
  · next value h =>
    obtain ⟨text, htext, hwrites⟩ := floatNotation.exists_write?_eq_some h
    rwa [htext]
  · next h =>
    rw [Decimal.Notation.write?_eq_none h]
    rfl

end Json

theorem Integer.chars_eq_toString (n : Integer) : n.chars = (toString n.val).toList := by
  have hnat (k : Nat) : (toString k).toList = Nat.toDigits 10 k := String.toList_ofList
  unfold chars
  split
  · next k h =>
    rw [h]
    exact (hnat k).symm
  · next k h =>
    have hminus : toString (Int.negSucc k) = "-" ++ toString (k + 1) := rfl
    rw [h, hminus, String.toList_append, hnat]
    rfl

theorem Scalar.writtenAs_chars (value : Scalar) : value.WrittenAs value.chars := by
  cases value with
  | null => rfl
  | bool b => cases b <;> rfl
  | integer n => exact n.chars_eq_toString
  | float x => exact Json.floatWrittenAs_floatChars x
  | string s => exact Json.stringWrittenAs_stringChars s

/-! ## Values -/

namespace Json

mutual

/-- A container is its parts between brackets, with commas between them. -/
inductive WrittenAs : Json → List Char → Prop where
  | scalar {value : Scalar} {text : List Char} (h : value.WrittenAs text) :
      WrittenAs (.scalar value) text
  | array {items : List Json} {parts : List (List Char)} (h : List.Forall₂ WrittenAs items parts) :
      WrittenAs (.array items) (['['] ++ [','].intercalate parts ++ [']'])
  | object {members : List (String × Json)} {parts : List (List Char)}
      (h : List.Forall₂ MemberWrittenAs members parts) :
      WrittenAs (.object members) (['\x7b'] ++ [','].intercalate parts ++ ['\x7d'])

/-- A member is its name and its value, with a colon between them. -/
inductive MemberWrittenAs : String × Json → List Char → Prop where
  | mk {name : String} {value : Json} {front back : List Char} (hname : StringWrittenAs name front)
      (hvalue : WrittenAs value back) : MemberWrittenAs (name, value) (front ++ [':'] ++ back)

end

/-- A comma before each part but the first. -/
theorem intercalate_cons (part : List Char) (parts : List (List Char)) :
    [','].intercalate (part :: parts) = part ++ parts.flatMap fun part => ',' :: part := by
  induction parts generalizing part with
  | nil => simp [List.intercalate]
  | cons next parts ih =>
    rw [List.intercalate_cons_cons, ih, List.flatMap_cons, List.append_assoc]
    rfl

theorem moreItems_eq (items : List Json) :
    moreItems items = (items.flatMap fun item => ',' :: item.chars) ++ [']'] := by
  induction items with
  | nil => rfl
  | cons item items ih => simp [moreItems, ih]

/-- The text of a member of an object. -/
def memberChars (m : String × Json) : List Char := stringChars m.1 ++ [':'] ++ m.2.chars

theorem moreMembers_eq (members : List (String × Json)) :
    moreMembers members = (members.flatMap fun m => ',' :: memberChars m) ++ ['\x7d'] := by
  induction members with
  | nil => rfl
  | cons m members ih => simp [moreMembers, memberChars, ih]

theorem chars_array (items : List Json) :
    (array items).chars = ['['] ++ [','].intercalate (items.map chars) ++ [']'] := by
  cases items with
  | nil => rfl
  | cons item items =>
    rw [chars, moreItems_eq, List.map_cons, intercalate_cons, List.flatMap_map]
    simp

theorem chars_object (members : List (String × Json)) :
    (object members).chars =
      ['\x7b'] ++ [','].intercalate (members.map memberChars) ++ ['\x7d'] := by
  cases members with
  | nil => rfl
  | cons m members =>
    rw [chars, moreMembers_eq, List.map_cons, intercalate_cons, List.flatMap_map]
    simp [memberChars]

/-- The text of a value is compact. -/
theorem writtenAs_chars (value : Json) : value.WrittenAs value.chars := by
  induction value with
  | scalar value => exact .scalar value.writtenAs_chars
  | array items ih =>
    rw [chars_array]
    exact .array (List.forall₂_map_right_iff.mpr (List.forall₂_same.mpr ih))
  | object members ih =>
    rw [chars_object]
    refine .object (List.forall₂_map_right_iff.mpr (List.forall₂_same.mpr fun m hm => ?_))
    exact .mk (stringWrittenAs_stringChars m.1) (ih m hm)

/-! ## Floating-point numbers that are read back -/

/-- A floating-point number is read back if that is what its numeral means. -/
theorem leafReadsBack_float {x : Float} {numeral : Numeral} (hregular : numeral.Regular)
    (hchars : floatChars x = numeral.chars) (hvalue : numeral.value = .ok (.float x)) :
    (Json.scalar (.float x)).LeafReadsBack := by
  intro depth rest hrest
  have hread := Scalar.readNumber_of_read (Numeral.read_chars hregular hrest) hvalue
  obtain ⟨b, s, hb, hbytes⟩ := Numeral.exists_chars_cons hregular rest
  rw [hbytes, ← Scalar.read_eq_readNumber hb, ← hbytes] at hread
  obtain ⟨hbegins, hopening⟩ := begins_of_read hread
  rw [chars, Scalar.chars, hchars]
  exact ⟨hbegins, readListed_of_listed (.scalar hopening hread)⟩

end Json

end Provisioning
