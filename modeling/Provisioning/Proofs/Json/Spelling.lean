import Provisioning.Proofs.Json.Progress

/-!
# Leaves are read back

The text of a leaf, followed by anything that does not continue it, is read back as the leaf
(`Scalar.read_chars`). A string is read back character by character: each is written as one or more
pieces of a literal whose bytes are the bytes of the character. A whole number is read back digit by
digit, where the one fact about its digits is how those of `n` come from those of `n / 10`
(`Numeral.decimal`). Floating-point numbers are left out: their shortest digits are read back
nearly and not always exactly.
-/

set_option autoImplicit false

namespace Provisioning

open Ascii

/-! ## Characters -/

namespace Utf8

/-- The bytes of a list of characters. -/
def encodeAll (chars : List Char) : Bytes := chars.flatMap encodeChar

@[simp] theorem encodeAll_nil : encodeAll [] = [] := rfl

@[simp] theorem encodeAll_cons (c : Char) (chars : List Char) :
    encodeAll (c :: chars) = encodeChar c ++ encodeAll chars := rfl

@[simp] theorem encodeAll_append (xs ys : List Char) :
    encodeAll (xs ++ ys) = encodeAll xs ++ encodeAll ys :=
  List.flatMap_append

theorem encodeChar_of_lt {c : Char} (h : c.toNat < 0x80) :
    encodeChar c = [UInt8.ofNat c.toNat] := by
  rw [encodeChar, encodePoint, if_pos h]

theorem encode_ofList (chars : List Char) : encode (String.ofList chars) = encodeAll chars := by
  rw [encode, String.toList_ofList, encodeAll]

end Utf8

open Utf8

/-! ## Strings -/

namespace Literal

theorem plain_of_le {b : UInt8} (h : 0x80 ≤ b.toNat) : Plain b where
  ne_quote := by rintro rfl; exact absurd h (by decide)
  not_control hlt := by
    have : b.toNat < 0x20 := UInt8.lt_iff_toNat_lt.mp hlt
    omega
  ne_backslash := by rintro rfl; exact absurd h (by decide)

theorem plain_ofNat {n : Nat} (h : 0x80 ≤ n) (hn : n < 0x100) : Plain (UInt8.ofNat n) :=
  plain_of_le (by rwa [toNat_ofNat hn])

/-- A character that needs no escape is written in bytes that stand for themselves. -/
theorem plain_of_mem_encodeChar {c : Char} (hc : 0x20 ≤ c.toNat) (hquote : c ≠ '"')
    (hbackslash : c ≠ '\\') {b : UInt8} (hb : b ∈ encodeChar c) : Plain b := by
  have hlt := toNat_lt c
  have htail : ∀ n, Plain (tail n) := fun n => plain_ofNat (by omega) (by omega)
  unfold encodeChar encodePoint at hb
  split at hb
  -- One byte is the character itself; each of several is too large for a quote or a control.
  · next h₁ =>
    rw [List.mem_singleton] at hb
    have hb' : b.toNat = c.toNat := by rw [hb, toNat_ofNat (by omega)]
    refine ⟨?_, ?_, ?_⟩
    · rintro rfl
      exact hquote (Char.toNat_inj.mp hb'.symm)
    · intro hcontrol
      have : b.toNat < 0x20 := UInt8.lt_iff_toNat_lt.mp hcontrol
      omega
    · rintro rfl
      exact hbackslash (Char.toNat_inj.mp hb'.symm)
  · split at hb
    · simp only [List.mem_cons, List.not_mem_nil, or_false] at hb
      rcases hb with rfl | rfl
      · exact plain_ofNat (by omega) (by omega)
      · exact htail _
    · split at hb
      · simp only [List.mem_cons, List.not_mem_nil, or_false] at hb
        rcases hb with rfl | rfl | rfl
        · exact plain_ofNat (by omega) (by omega)
        · exact htail _
        · exact htail _
      · simp only [List.mem_cons, List.not_mem_nil, or_false] at hb
        rcases hb with rfl | rfl | rfl | rfl
        · exact plain_ofNat (by omega) (by omega)
        · exact htail _
        · exact htail _
        · exact htail _

theorem Body.plain {front s bytes rest : Bytes} (hfront : ∀ b ∈ front, Plain b)
    (h : Body s bytes rest) : Body (front ++ s) (front ++ bytes) rest := by
  induction front with
  | nil => exact h
  | cons b front ih =>
    obtain ⟨hb, hfront⟩ := List.forall_mem_cons.mp hfront
    show Body ([b] ++ (front ++ s)) ([b] ++ (front ++ bytes)) rest
    exact .piece (.plain hb) (ih hfront)

/-- The escape of a control character that has no letter. -/
theorem codeUnit_control : ∀ n < 0x20, ∃ a b,
    encodeAll ['\\', 'u', '0', '0', Nat.digitChar (n / 16), Nat.digitChar (n % 16)] =
      [backslash, lowerU, 0x30, 0x30, a, b] ∧ codeUnit? 0x30 0x30 a b = some n := by
  intro n hn
  refine ⟨UInt8.ofNat (Nat.digitChar (n / 16)).toNat,
    UInt8.ofNat (Nat.digitChar (n % 16)).toNat, ?_⟩
  revert n
  decide

/-- A control character is written as an escape, by its letter if it has one. -/
theorem piece_control {c : Char} (hc : c.toNat < 0x20) :
    Piece (encodeAll (Json.escapeChar c)) (encodeChar c) := by
  have hquote : c ≠ '"' := by rintro rfl; exact absurd hc (by decide)
  have hbackslash : c ≠ '\\' := by rintro rfl; exact absurd hc (by decide)
  have hletter : ∀ {letter : UInt8} {n : Nat}, c.toNat = n → letter ≠ lowerU →
      shortEscape? letter = some (UInt8.ofNat n) → Piece [backslash, letter] (encodeChar c) := by
    rintro letter n rfl hu h
    rw [encodeChar_of_lt (by omega)]
    exact .short hu h
  rw [Json.escapeChar, if_neg hquote, if_neg hbackslash, if_neg (by omega)]
  split
  · next h => exact hletter h (by decide : lowerB ≠ lowerU) (by decide)
  · split
    · next h => exact hletter h (by decide : lowerT ≠ lowerU) (by decide)
    · split
      · next h => exact hletter h (by decide : lowerN ≠ lowerU) (by decide)
      · split
        · next h => exact hletter h (by decide : lowerF ≠ lowerU) (by decide)
        · split
          · next h => exact hletter h (by decide : lowerR ≠ lowerU) (by decide)
          · obtain ⟨a, b, hbytes, hunit⟩ := codeUnit_control c.toNat hc
            have hpiece :=
              Piece.unit hunit (by simp [closesPair]; omega) (by simp [opensPair]; omega)
            rw [Char.ofNat_toNat] at hpiece
            rw [hbytes]
            exact hpiece

/-- A character, written as it stands inside a string, spells its own bytes. -/
theorem Body.escapeChar (c : Char) {s bytes rest : Bytes} (h : Body s bytes rest) :
    Body (encodeAll (Json.escapeChar c) ++ s) (encodeChar c ++ bytes) rest := by
  by_cases hcontrol : c.toNat < 0x20
  · exact .piece (piece_control hcontrol) h
  · unfold Json.escapeChar
    split
    · next hc =>
      subst hc
      exact .piece (.short (by decide) (by decide : shortEscape? quote = some quote)) h
    · split
      · next hc =>
        subst hc
        exact .piece (.short (by decide) (by decide : shortEscape? backslash = some backslash)) h
      · next hquote hbackslash =>
        have hc : 0x20 ≤ c.toNat := by omega
        simpa [hc] using h.plain fun b hb => plain_of_mem_encodeChar hc hquote hbackslash hb

theorem body_escape (chars : List Char) (rest : Bytes) :
    Body (encodeAll (chars.flatMap Json.escapeChar) ++ quote :: rest) (encodeAll chars) rest := by
  induction chars with
  | nil => exact .closed
  | cons c chars ih => simpa using ih.escapeChar c

/-- The text between the quotes of a string is read back as the string. -/
theorem read_escape (text : String) (rest : Bytes) :
    read (encodeAll (text.toList.flatMap Json.escapeChar) ++ quote :: rest) = .ok (text, rest) :=
  read_eq_ok_iff.mpr ⟨encode text, body_escape text.toList rest, decode_encode text⟩

end Literal

theorem Json.encodeAll_stringChars (text : String) (rest : Bytes) :
    encodeAll (stringChars text) ++ rest =
      quote :: (encodeAll (text.toList.flatMap escapeChar) ++ quote :: rest) := by
  rw [stringChars, encodeAll_append, List.append_assoc]
  rfl

/-! ## Whole numbers -/

namespace Numeral

/-- The digits of a number, the highest first. -/
def decimal (n : Nat) : List Nat :=
  if n < 10 then [n] else decimal (n / 10) ++ [n % 10]

/-- The byte of a digit. -/
def digitByte (d : Nat) : UInt8 := UInt8.ofNat (0x30 + d)

/-- What follows a number does not continue it. -/
def Ends (rest : Bytes) : Prop :=
  ∀ b ∈ rest.head?, digit? b = none ∧ b ≠ point ∧ b ≠ lowerE ∧ b ≠ upperE

theorem encodeChar_digitChar : ∀ d < 10, encodeChar (Nat.digitChar d) = [digitByte d] := by
  decide

theorem digit?_digitByte : ∀ d < 10, digit? (digitByte d) = some d := by
  decide

theorem digitByte_ne_minus : ∀ d < 10, digitByte d ≠ minus := by
  decide

theorem decimal_lt (n : Nat) : ∀ d ∈ decimal n, d < 10 := by
  fun_induction decimal n with
  | case1 n h => simpa using h
  | case2 n h ih =>
    intro d hd
    rcases List.mem_append.mp hd with hd | hd
    · exact ih d hd
    · rw [List.mem_singleton.mp hd]
      omega

/-- The first digit is zero only if it is the only one. -/
theorem decimal_eq_cons (n : Nat) :
    ∃ d ds, decimal n = d :: ds ∧ d < 10 ∧ (d = 0 → ds = []) := by
  -- Only for a positive number does the claim about the first digit go through the induction.
  have hpos : ∀ n, 0 < n → ∃ d ds, decimal n = d :: ds ∧ d ≠ 0 := by
    intro n hn
    fun_induction decimal n with
    | case1 n h => exact ⟨n, [], rfl, by omega⟩
    | case2 n h ih =>
      obtain ⟨d, ds, hds, hd⟩ := ih (by omega)
      exact ⟨d, ds ++ [n % 10], by rw [hds]; rfl, hd⟩
  rcases Nat.eq_zero_or_pos n with rfl | hn
  · exact ⟨0, [], by rw [decimal]; rfl, by decide, fun _ => rfl⟩
  · obtain ⟨d, ds, hds, hd⟩ := hpos n hn
    exact ⟨d, ds, hds, decimal_lt n d (by simp [hds]), fun h => absurd h hd⟩

theorem encodeAll_toDigits (n : Nat) :
    encodeAll (Nat.toDigits 10 n) = (decimal n).map digitByte := by
  fun_induction decimal n with
  | case1 n h =>
    rw [Nat.toDigits_of_lt_base h]
    simp [encodeChar_digitChar n h]
  | case2 n h ih =>
    rw [Nat.toDigits_of_base_le (by decide) (by omega), encodeAll_append, ih, List.map_append]
    simp [encodeChar_digitChar (n % 10) (Nat.mod_lt _ (by decide))]

theorem digits_map_digitByte {ds : List Nat} (hds : ∀ d ∈ ds, d < 10) {rest : Bytes}
    (h : ∀ b ∈ rest.head?, digit? b = none) : digits (ds.map digitByte ++ rest) = (ds, rest) := by
  induction ds with
  | nil =>
    cases rest with
    | nil => rfl
    | cons b rest => rw [List.map_nil, List.nil_append, digits, h b rfl]
  | cons d ds ih =>
    obtain ⟨hd, hds⟩ := List.forall_mem_cons.mp hds
    rw [List.map_cons, List.cons_append, digits, digit?_digitByte d hd, ih hds]

theorem encodeAll_map_digitChar {ds : List Nat} (h : ∀ d ∈ ds, d < 10) :
    encodeAll (ds.map Nat.digitChar) = ds.map digitByte := by
  induction ds with
  | nil => rfl
  | cons d ds ih =>
    obtain ⟨hd, hds⟩ := List.forall_mem_cons.mp h
    rw [List.map_cons, encodeAll_cons, encodeChar_digitChar d hd, ih hds]
    rfl

/-- Digits are read to their end if the first is zero only where it is the only one. -/
theorem readWhole_digits (cut : Malformed) {d : Nat} {ds : List Nat} (hds : ∀ d' ∈ d :: ds, d' < 10)
    (hzero : d = 0 → ds = []) {rest : Bytes} (h : ∀ b ∈ rest.head?, digit? b = none) :
    readWhole cut ((d :: ds).map digitByte ++ rest) = .ok (d :: ds, rest) := by
  obtain ⟨hd, hds⟩ := List.forall_mem_cons.mp hds
  rw [List.map_cons, List.cons_append, readWhole, digit?_digitByte d hd, digits_map_digitByte hds h]
  split
  · next heq => cases heq
  · next heq heq' =>
    cases heq
    rw [hzero rfl] at heq'
    cases heq'
  · next heq heq' =>
    cases heq
    cases heq'
    rfl

theorem readWhole_decimal (cut : Malformed) (n : Nat) {rest : Bytes} (h : Ends rest) :
    readWhole cut ((decimal n).map digitByte ++ rest) = .ok (decimal n, rest) := by
  have hlt := decimal_lt n
  obtain ⟨d, ds, hn, -, hzero⟩ := decimal_eq_cons n
  rw [hn] at hlt ⊢
  exact readWhole_digits cut hlt hzero fun b hb => (h b hb).1

theorem readFraction_of_ends (cut : Malformed) {rest : Bytes} (h : Ends rest) :
    readFraction cut rest = .ok ([], rest) := by
  cases rest with
  | nil => rfl
  | cons b rest => rw [readFraction, after?, if_neg (h b rfl).2.1]

theorem readExponent_of_ends (cut : Malformed) {rest : Bytes} (h : Ends rest) :
    readExponent cut rest = .ok (none, rest) := by
  cases rest with
  | nil => rfl
  | cons b rest =>
    have hb := h b rfl
    rw [readExponent, if_neg (by simp [hb.2.2.1, hb.2.2.2])]

theorem readMinus_decimal (n : Nat) (rest : Bytes) :
    readMinus ((decimal n).map digitByte ++ rest) =
      (false, (decimal n).map digitByte ++ rest) := by
  obtain ⟨d, ds, hn, hd, -⟩ := decimal_eq_cons n
  rw [hn, List.map_cons, List.cons_append, readMinus, after?, if_neg (digitByte_ne_minus d hd)]

/-- A number that is written in digits is read as these digits. -/
theorem read_decimal (cut : Malformed) (n : Nat) {rest : Bytes} (h : Ends rest) :
    read cut ((decimal n).map digitByte ++ rest) = .ok (⟨false, decimal n, [], none⟩, rest) := by
  rw [read, readMinus_decimal]
  simp [readWhole_decimal cut n h, readFraction_of_ends cut h, readExponent_of_ends cut h]

theorem read_minus_decimal (cut : Malformed) (n : Nat) {rest : Bytes} (h : Ends rest) :
    read cut (minus :: ((decimal n).map digitByte ++ rest)) =
      .ok (⟨true, decimal n, [], none⟩, rest) := by
  simp [read, readMinus, after?, readWhole_decimal cut n h, readFraction_of_ends cut h,
    readExponent_of_ends cut h]

theorem absorb_append {limit m k : Nat} {ds : List Nat} (h : absorb limit m ds = (k, []))
    (es : List Nat) : absorb limit m (ds ++ es) = absorb limit k es := by
  induction ds generalizing m with
  | nil => cases h; rfl
  | cons d ds ih =>
    rw [absorb] at h
    rw [List.cons_append, absorb]
    split at h
    · next hle =>
      rw [if_pos hle]
      exact ih h
    · cases h

/-- A number within the limit is put together from all of its digits. -/
theorem absorb_decimal {limit : Nat} (n : Nat) (h : n ≤ limit) :
    absorb limit 0 (decimal n) = (n, []) := by
  fun_induction decimal n with
  | case1 n hn => simp [absorb, h]
  | case2 n hn ih =>
    rw [absorb_append (ih (by omega)), absorb, if_pos (by omega), absorb]
    congr 1
    omega

/-- The value of the digits of a whole number that has a 64-bit word. -/
theorem value_decimal {negative : Bool} {n : Nat} {m : Integer}
    (hm : Integer.ofInt? (if negative then -(n : Int) else n) = some m)
    (hn : n ≤ maxSignificand) (hzero : ¬(negative ∧ n = 0)) :
    (Numeral.mk negative (decimal n) [] none).value = .ok (.integer m) := by
  simp [value, absorb_decimal n hn, hm, hzero]

end Numeral

theorem Integer.ofInt?_val (n : Integer) : Integer.ofInt? n.val = some n := by
  rw [Integer.ofInt?, dif_pos ⟨n.le_val, n.val_lt⟩]

namespace Scalar

theorem readNumber_of_read {s rest : Bytes} {numeral : Numeral} {value : Scalar}
    (h : Numeral.read .eofValue s = .ok (numeral, rest)) (hvalue : numeral.value = .ok value) :
    readNumber s = .ok (value, rest) := by
  simp [readNumber, h, hvalue]

/-- A value that begins like a number is read as one. -/
theorem read_eq_readNumber {b : UInt8} (hb : b = minus ∨ (digit? b).isSome) (s : Bytes) :
    read (b :: s) = readNumber (b :: s) := by
  obtain ⟨h₁, h₂, h₃, h₄⟩ := ne_of_begins_number hb
  simp only [read, h₁, h₂, h₃, h₄, hb, if_false, if_true]

/-- A whole number is read back from its text. -/
theorem read_integer (n : Integer) {rest : Bytes} (h : Numeral.Ends rest) :
    read (encodeAll n.chars ++ rest) = .ok (.integer n, rest) := by
  have hle := n.le_val
  have hlt := n.val_lt
  have hself := n.ofInt?_val
  rw [Integer.chars]
  cases hval : n.val with
  | ofNat k =>
    rw [hval] at hlt hself
    have hk : k ≤ Numeral.maxSignificand := by
      simp only [Numeral.maxSignificand]
      simp only [Int.ofNat_eq_natCast] at hlt
      omega
    have hread := readNumber_of_read (Numeral.read_decimal .eofValue k h)
      (Numeral.value_decimal hself hk (by simp))
    obtain ⟨d, ds, hds, hd, -⟩ := Numeral.decimal_eq_cons k
    rw [Numeral.encodeAll_toDigits]
    rw [hds] at hread ⊢
    exact (read_eq_readNumber (.inr (by rw [Numeral.digit?_digitByte d hd]; rfl)) _).trans hread
  | negSucc k =>
    rw [hval] at hle hself
    have hk : k + 1 ≤ Numeral.maxSignificand := by
      simp only [Numeral.maxSignificand]
      omega
    have hread := readNumber_of_read (Numeral.read_minus_decimal .eofValue (k + 1) h)
      (Numeral.value_decimal hself hk (by simp))
    rw [encodeAll_cons, Numeral.encodeAll_toDigits]
    exact (read_eq_readNumber (.inl rfl) _).trans hread

/-- A leaf that is no floating-point number is read back from its text. -/
theorem read_chars {value : Scalar} (hfloat : ∀ x, value ≠ .float x) {rest : Bytes}
    (h : Numeral.Ends rest) : read (encodeAll value.chars ++ rest) = .ok (value, rest) := by
  cases value with
  | null => rfl
  | bool value => cases value <;> rfl
  | integer n => exact read_integer n h
  | float x => exact absurd rfl (hfloat x)
  | string text =>
    rw [chars, Json.encodeAll_stringChars, read_quote, Literal.read_escape]
    rfl

end Scalar

end Provisioning
