import Provisioning.Json.Literal
import Provisioning.Json.Text
import Provisioning.Proofs.Outcome

/-!
# What a string literal spells

The reader of a literal is one long case distinction. What it accepts is short: a run of pieces,
each a byte that stands for itself or one escape, and then the closing quote (`Literal.Body`). The
reader accepts exactly that (`unescape_eq_ok_iff`), and everything else about literals is an
induction over the pieces.
-/

set_option autoImplicit false

namespace Provisioning.Literal

open Ascii

/-! ## Pieces -/

/-- A byte that stands for itself inside a literal. -/
structure Plain (b : UInt8) : Prop where
  ne_quote : b ≠ quote
  not_control : ¬b < 0x20
  ne_backslash : b ≠ backslash

/-- One byte or one escape of a literal, and the bytes it stands for. -/
inductive Piece : Bytes → Bytes → Prop where
  | plain {b : UInt8} (hb : Plain b) : Piece [b] [b]
  | short {letter byte : UInt8} (hu : letter ≠ lowerU) (h : shortEscape? letter = some byte) :
      Piece [backslash, letter] [byte]
  | unit {a b c d : UInt8} {unit : Nat} (h : codeUnit? a b c d = some unit)
      (hc : ¬closesPair unit) (ho : ¬opensPair unit) :
      Piece [backslash, lowerU, a, b, c, d] (Utf8.encodeChar (Char.ofNat unit))
  | pair {a b c d a' b' c' d' : UInt8} {first second : Nat} (h : codeUnit? a b c d = some first)
      (hc : ¬closesPair first) (ho : opensPair first) (h' : codeUnit? a' b' c' d' = some second)
      (hc' : closesPair second) :
      Piece [backslash, lowerU, a, b, c, d, backslash, lowerU, a', b', c', d']
        (pairBytes first second)

/-- What follows the opening quote: pieces up to the closing quote, the bytes they stand for, and
what comes after. -/
inductive Body : Bytes → Bytes → Bytes → Prop where
  | closed {rest : Bytes} : Body (quote :: rest) [] rest
  | piece {front meaning s bytes rest : Bytes} (hp : Piece front meaning)
      (hs : Body s bytes rest) : Body (front ++ s) (meaning ++ bytes) rest

theorem prepend_eq_ok {front bytes rest : Bytes} {result : Except Fault (Bytes × Bytes)}
    (h : prepend front result = .ok (bytes, rest)) :
    ∃ more, result = .ok (more, rest) ∧ front ++ more = bytes := by
  obtain ⟨⟨more, rest'⟩, hr, he⟩ := Except.map_eq_ok.mp h
  cases he
  exact ⟨more, hr, rfl⟩

theorem backslash_ne_quote : backslash ≠ quote := by decide

theorem backslash_not_control : ¬backslash < 0x20 := by decide

theorem unescape_piece {front meaning : Bytes} (hp : Piece front meaning) (s : Bytes) :
    unescape (front ++ s) = prepend meaning (unescape s) := by
  cases hp with
  | plain hb =>
    obtain ⟨hq, hc, hs⟩ := hb
    rw [List.singleton_append, unescape.eq_def]
    simp [hq, hc, hs]
  | short hu h =>
    rw [List.cons_append, unescape.eq_def]
    simp [backslash_ne_quote, backslash_not_control, hu, h]
  | unit h hc ho =>
    rw [List.cons_append, unescape.eq_def]
    simp [backslash_ne_quote, backslash_not_control, h, hc, ho]
  | pair h hc ho h' hc' =>
    rw [List.cons_append, unescape.eq_def]
    simp [backslash_ne_quote, backslash_not_control, h, hc, ho, h', hc']

theorem body_of_unescape {s bytes rest : Bytes} (h : unescape s = .ok (bytes, rest)) :
    Body s bytes rest := by
  -- The named cases are the ways to accept; each of the others is a fault.
  fun_induction unescape s generalizing bytes with
  | case2 => cases h; exact .closed
  | case4 b s hq hc hb ih =>
    obtain ⟨more, hr, rfl⟩ := prepend_eq_ok h
    exact .piece (.plain ⟨hq, hc, hb⟩) (ih hr)
  | case13 b _ _ hb a' b' c' d' first h₁ hc ho mark hm letter hl a b c d s second h₂ hc' ih =>
    obtain ⟨more, hr, rfl⟩ := prepend_eq_ok h
    obtain rfl := Decidable.not_not.mp hb
    obtain rfl := Decidable.not_not.mp hm
    obtain rfl := Decidable.not_not.mp hl
    exact .piece (.pair h₁ hc ho h₂ hc') (ih hr)
  | case16 b _ _ hb a' b' c' d' s unit h₁ hc ho ih =>
    obtain ⟨more, hr, rfl⟩ := prepend_eq_ok h
    obtain rfl := Decidable.not_not.mp hb
    exact .piece (.unit h₁ hc ho) (ih hr)
  | case18 b _ _ hb letter s hu byte hs ih =>
    obtain ⟨more, hr, rfl⟩ := prepend_eq_ok h
    obtain rfl := Decidable.not_not.mp hb
    exact .piece (.short hu hs) (ih hr)
  | _ => cases h

theorem unescape_of_body {s bytes rest : Bytes} (h : Body s bytes rest) :
    unescape s = .ok (bytes, rest) := by
  induction h with
  | closed => rw [unescape.eq_def]; exact if_pos rfl
  | piece hp _ ih => rw [unescape_piece hp, ih]; rfl

/-- The reader accepts a run of pieces that a quote closes, and nothing else. -/
theorem unescape_eq_ok_iff {s bytes rest : Bytes} :
    unescape s = .ok (bytes, rest) ↔ Body s bytes rest :=
  ⟨body_of_unescape, unescape_of_body⟩

/-- A literal that is read is a body whose bytes are a text. -/
theorem read_eq_ok_iff {s rest : Bytes} {text : String} :
    read s = .ok (text, rest) ↔
      ∃ bytes, Body s bytes rest ∧ Utf8.decode bytes = (text.toList, []) := by
  simp only [read, Except.bind_eq_ok, Prod.exists, unescape_eq_ok_iff]
  constructor
  · rintro ⟨bytes, rest', hb, h⟩
    split at h
    · next chars hd =>
      cases h
      exact ⟨bytes, hb, by simpa using hd⟩
    · cases h
  · rintro ⟨bytes, hb, hd⟩
    exact ⟨bytes, rest, hb, by simp [hd]⟩

/-! ## Progress, and passing over -/

theorem Body.length_lt {s bytes rest : Bytes} (h : Body s bytes rest) :
    rest.length < s.length := by
  induction h with
  | closed => exact Nat.lt_succ_self _
  | piece _ _ ih => exact Nat.lt_of_lt_of_le ih (by simp)

theorem skip_piece {front meaning : Bytes} (hp : Piece front meaning) (s : Bytes) :
    skip (front ++ s) = skip s := by
  cases hp with
  | plain hb =>
    obtain ⟨hq, hc, hs⟩ := hb
    rw [List.singleton_append, skip.eq_def]
    simp [hq, hc, hs]
  | short hu h =>
    rw [List.cons_append, skip.eq_def]
    simp [backslash_ne_quote, backslash_not_control, hu, h]
  | unit h hc ho =>
    rw [List.cons_append, skip.eq_def]
    simp [backslash_ne_quote, backslash_not_control, h]
  | pair h hc ho h' hc' =>
    -- Passing over does not pair surrogates: it sees two escapes.
    rw [List.cons_append, skip.eq_def]
    simp only [List.cons_append, backslash_ne_quote, backslash_not_control, h, ne_eq,
      not_true_eq_false, if_false, if_true]
    rw [skip.eq_def]
    simp [backslash_ne_quote, backslash_not_control, h']

/-- A literal that can be read can be passed over. -/
theorem Body.skip_eq {s bytes rest : Bytes} (h : Body s bytes rest) : skip s = .ok rest := by
  induction h with
  | closed => rw [skip.eq_def]; exact if_pos rfl
  | piece hp _ ih => rw [skip_piece hp, ih]

end Provisioning.Literal
