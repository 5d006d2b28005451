/-!
# Bytes and UTF-8

A document arrives as **bytes**, and nothing promises that they are text: only the string literals
inside it have to be, and a reader that finds one that is not says how far it is. So `Utf8.decode`
never fails. It answers the characters of the longest prefix that is UTF-8 and the bytes that are
left, and a text is one of which nothing is left.

The sequence of a character is decided by its code point alone (`encodePoint`); reading back accepts
that sequence and no longer spelling of the same code point, which is what the least code point of
each length is for (`point?`).
-/

set_option autoImplicit false

namespace Provisioning

/-- A document, or a part of one, as it arrives. -/
abbrev Bytes := List UInt8

namespace Utf8

/-! ## Writing -/

/-- A continuation byte, with the low six bits of `n`. -/
def tail (n : Nat) : UInt8 := UInt8.ofNat (0x80 + n % 64)

/-- The one to four bytes of a code point. -/
def encodePoint (n : Nat) : Bytes :=
  if n < 0x80 then [UInt8.ofNat n]
  else if n < 0x800 then [UInt8.ofNat (0xC0 + n / 64), tail n]
  else if n < 0x10000 then [UInt8.ofNat (0xE0 + n / 4096), tail (n / 64), tail n]
  else [UInt8.ofNat (0xF0 + n / 262144), tail (n / 4096), tail (n / 64), tail n]

def encodeChar (c : Char) : Bytes := encodePoint c.toNat

/-- The bytes of a text. -/
def encode (text : String) : Bytes := text.toList.flatMap encodeChar

/-! ## Reading -/

/-- The six bits of a continuation byte. -/
def bits? (b : UInt8) : Option Nat :=
  if 0x80 ≤ b.toNat ∧ b.toNat < 0xC0 then some (b.toNat - 0x80) else none

/-- The character at a code point that is not below the least one of its length. -/
def point? (least n : Nat) : Option Char :=
  if least ≤ n ∧ n.isValidChar then some (Char.ofNat n) else none

def one? (a : UInt8) : Option Char :=
  if a.toNat < 0x80 then some (Char.ofNat a.toNat) else none

def two? (a b : UInt8) : Option Char :=
  if 0xC0 ≤ a.toNat ∧ a.toNat < 0xE0 then do
    point? 0x80 ((a.toNat - 0xC0) * 64 + (← bits? b))
  else none

def three? (a b c : UInt8) : Option Char :=
  if 0xE0 ≤ a.toNat ∧ a.toNat < 0xF0 then do
    point? 0x800 (((a.toNat - 0xE0) * 64 + (← bits? b)) * 64 + (← bits? c))
  else none

def four? (a b c d : UInt8) : Option Char :=
  if 0xF0 ≤ a.toNat ∧ a.toNat < 0xF8 then do
    point? 0x10000 ((((a.toNat - 0xF0) * 64 + (← bits? b)) * 64 + (← bits? c)) * 64 + (← bits? d))
  else none

/-- The characters of the longest prefix that is UTF-8, and the bytes after it. -/
def decode : Bytes → List Char × Bytes
  | [] => ([], [])
  | a :: s =>
    match one? a with
    | some x => let (xs, left) := decode s; (x :: xs, left)
    | none =>
      match s with
      | [] => ([], [a])
      | b :: s =>
        match two? a b with
        | some x => let (xs, left) := decode s; (x :: xs, left)
        | none =>
          match s with
          | [] => ([], [a, b])
          | c :: s =>
            match three? a b c with
            | some x => let (xs, left) := decode s; (x :: xs, left)
            | none =>
              match s with
              | [] => ([], [a, b, c])
              | d :: s =>
                match four? a b c d with
                | some x => let (xs, left) := decode s; (x :: xs, left)
                | none => ([], a :: b :: c :: d :: s)

/-! ## What is written is read -/

theorem toNat_ofNat {n : Nat} (h : n < 256) : (UInt8.ofNat n).toNat = n := by
  simp [Nat.mod_eq_of_lt h]

theorem toNat_lt (c : Char) : c.toNat < 0x110000 := by
  rcases c.valid with h | ⟨_, h⟩
  · exact Nat.lt_trans h (by decide)
  · exact h

theorem point?_toNat {least : Nat} {c : Char} (h : least ≤ c.toNat) :
    point? least c.toNat = some c := by
  have hv : c.toNat.isValidChar := c.valid
  simp [point?, h, hv, Char.ofNat_toNat]

theorem bits?_tail (n : Nat) : bits? (tail n) = some (n % 64) := by
  have h : (tail n).toNat = 0x80 + n % 64 := toNat_ofNat (by omega)
  simp only [bits?, h]
  rw [if_pos (by omega), Nat.add_sub_cancel_left]

theorem decode_one {a : UInt8} {x : Char} (s : Bytes) (h : one? a = some x) :
    decode (a :: s) = (x :: (decode s).1, (decode s).2) := by
  rw [decode.eq_def]
  simp [h]

theorem decode_two {a b : UInt8} {x : Char} (s : Bytes) (h₁ : one? a = none)
    (h₂ : two? a b = some x) : decode (a :: b :: s) = (x :: (decode s).1, (decode s).2) := by
  rw [decode.eq_def]
  simp [h₁, h₂]

theorem decode_three {a b c : UInt8} {x : Char} (s : Bytes) (h₁ : one? a = none)
    (h₂ : two? a b = none) (h₃ : three? a b c = some x) :
    decode (a :: b :: c :: s) = (x :: (decode s).1, (decode s).2) := by
  rw [decode.eq_def]
  simp [h₁, h₂, h₃]

theorem decode_four {a b c d : UInt8} {x : Char} (s : Bytes) (h₁ : one? a = none)
    (h₂ : two? a b = none) (h₃ : three? a b c = none) (h₄ : four? a b c d = some x) :
    decode (a :: b :: c :: d :: s) = (x :: (decode s).1, (decode s).2) := by
  rw [decode.eq_def]
  simp [h₁, h₂, h₃, h₄]

/-- A character in front of any bytes is the first that is read. -/
theorem decode_encodeChar_append (c : Char) (s : Bytes) :
    decode (encodeChar c ++ s) = (c :: (decode s).1, (decode s).2) := by
  have hlt := toNat_lt c
  unfold encodeChar encodePoint
  split
  · next h₁ =>
    refine decode_one s ?_
    simp only [one?, toNat_ofNat (show c.toNat < 256 by omega)]
    rw [if_pos h₁, Char.ofNat_toNat]
  · split
    · next h₁ h₂ =>
      have ha : (UInt8.ofNat (0xC0 + c.toNat / 64)).toNat = 0xC0 + c.toNat / 64 :=
        toNat_ofNat (by omega)
      refine decode_two s ?_ ?_
      · simp only [one?, ha]
        rw [if_neg (by omega)]
      · simp only [two?, ha, bits?_tail]
        rw [if_pos (by omega)]
        show point? 0x80 _ = _
        rw [show (0xC0 + c.toNat / 64 - 0xC0) * 64 + c.toNat % 64 = c.toNat by omega]
        exact point?_toNat (by omega)
    · split
      · next h₁ h₂ h₃ =>
        have ha : (UInt8.ofNat (0xE0 + c.toNat / 4096)).toNat = 0xE0 + c.toNat / 4096 :=
          toNat_ofNat (by omega)
        refine decode_three s ?_ ?_ ?_
        · simp only [one?, ha]
          rw [if_neg (by omega)]
        · simp only [two?, ha]
          rw [if_neg (by omega)]
        · simp only [three?, ha, bits?_tail]
          rw [if_pos (by omega)]
          show point? 0x800 _ = _
          rw [show ((0xE0 + c.toNat / 4096 - 0xE0) * 64 + c.toNat / 64 % 64) * 64 + c.toNat % 64 =
            c.toNat by omega]
          exact point?_toNat (by omega)
      · next h₁ h₂ h₃ =>
        have ha : (UInt8.ofNat (0xF0 + c.toNat / 262144)).toNat = 0xF0 + c.toNat / 262144 :=
          toNat_ofNat (by omega)
        refine decode_four s ?_ ?_ ?_ ?_
        · simp only [one?, ha]
          rw [if_neg (by omega)]
        · simp only [two?, ha]
          rw [if_neg (by omega)]
        · simp only [three?, ha]
          rw [if_neg (by omega)]
        · simp only [four?, ha, bits?_tail]
          rw [if_pos (by omega)]
          show point? 0x10000 _ = _
          rw [show (((0xF0 + c.toNat / 262144 - 0xF0) * 64 + c.toNat / 4096 % 64) * 64 +
            c.toNat / 64 % 64) * 64 + c.toNat % 64 = c.toNat by omega]
          exact point?_toNat (by omega)

/-- Every text is read back from its bytes, with nothing left. -/
theorem decode_encode (text : String) : decode (encode text) = (text.toList, []) := by
  unfold encode
  induction text.toList with
  | nil => rfl
  | cons c cs ih => rw [List.flatMap_cons, decode_encodeChar_append, ih]

/-! ## The bytes a text has anyway -/

theorem encodeChar_eq_utf8EncodeChar (c : Char) : encodeChar c = String.utf8EncodeChar c := by
  have hlt := toNat_lt c
  have htail (n : Nat) : tail n = UInt8.ofNat (n % 64 + 0x80) := by rw [tail, Nat.add_comm]
  rw [encodeChar, encodePoint, String.utf8EncodeChar]
  simp only [htail, show c.val.toNat = c.toNat from rfl, Nat.lt_succ_iff.symm, Nat.reduceSucc]
  split
  · rfl
  · split
    · rw [Nat.mod_eq_of_lt (show c.toNat / 64 < 32 by omega), Nat.add_comm]
    · split
      · rw [Nat.mod_eq_of_lt (show c.toNat / 4096 < 16 by omega), Nat.add_comm]
      · rw [Nat.mod_eq_of_lt (show c.toNat / 262144 < 8 by omega), Nat.add_comm]

/-- The bytes of a text are those that a `String` keeps. -/
theorem encode_eq_toUTF8 (text : String) : encode text = text.toUTF8.data.toList := by
  rw [encode, funext encodeChar_eq_utf8EncodeChar, String.toUTF8_eq_toByteArray]
  conv => rhs; rw [← String.ofList_toList (s := text), String.toByteArray_ofList, List.utf8Encode]
  rw [List.data_toByteArray, List.toList_toArray]

end Utf8

end Provisioning
