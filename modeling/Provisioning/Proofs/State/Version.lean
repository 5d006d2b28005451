import Provisioning.Proofs.Json.Word
import Provisioning.Proofs.Json.Written
import Provisioning.Proofs.Schema.Layout
import Provisioning.Proofs.State.Selection

/-!
# The version of a state, as it is written

Which format a state document has depends on one number in it, and a number can be written in many
ways. Here the bytes of the document are left as they are and only the place of the version is
looked at (`StateFile.VersionAt`): the document is a state exactly if a word is read there, and so
exactly if the digits of a word stand there and nothing that continues them. No other numeral is
taken for a known version, be it equal to one in value, or equal to one but for a multiple of
`2^64`.
-/

set_option autoImplicit false

namespace Provisioning

open Ascii Json

namespace StateFile

/-- All sections of the document are sound but for the version, of which it is only said that its
value begins at this place. -/
def VersionAt (document place : Bytes) : Prop :=
  ∃ layout, LaidOut document layout ∧ layout.Fits 3 ∧ layout.places "version" 0 = [place] ∧
    (∃ outputs, (Presence.orElse .empty).ReadsAt (.table Output.shape) (maxDepth - 1) outputs
      (layout.places "outputs" 1)) ∧
    ∃ modules, (Presence.orElse []).ReadsAt (.list Module.shape) (maxDepth - 1) modules
      (layout.places "modules" 2)

variable {document place : Bytes} {version : UInt64}

theorem decode_eq_ok_iff {file : StateFile} :
    shape.decode document = .ok file ↔
      ∃ layout, LaidOut document layout ∧ layout.Fits 3 ∧
        Presence.required.ReadsAt (.leaf .word) (maxDepth - 1) file.version
          (layout.places "version" 0) ∧
        (Presence.orElse .empty).ReadsAt (.table Output.shape) (maxDepth - 1) file.outputs
          (layout.places "outputs" 1) ∧
        (Presence.orElse []).ReadsAt (.list Module.shape) (maxDepth - 1) file.modules
          (layout.places "modules" 2) := by
  rw [shape, Shape.decode_record_eq_ok_iff (by simp [Fields.names])]
  simp only [Fields.ReadsAt, and_true]
  rfl

/-- A word at the place of the version is the version. -/
theorem exists_decode_iff (h : VersionAt document place) :
    (∃ file, shape.decode document = .ok file ∧ file.version = version) ↔
      ∃ rest, Leaf.word.read place = .ok (version, rest) := by
  obtain ⟨layout, hlaid, hfits, hplace, ⟨outputs, houtputs⟩, modules, hmodules⟩ := h
  constructor
  · rintro ⟨file, hfile, rfl⟩
    obtain ⟨layout', hlaid', -, hversion, -⟩ := decode_eq_ok_iff.mp hfile
    rw [hlaid'.unique hlaid, hplace] at hversion
    obtain ⟨rest, hread⟩ := hversion
    rw [Shape.read] at hread
    exact ⟨rest, hread⟩
  · rintro ⟨rest, hread⟩
    refine ⟨⟨version, outputs, modules⟩, decode_eq_ok_iff.mpr ?_, rfl⟩
    refine ⟨layout, hlaid, hfits, ?_, houtputs, hmodules⟩
    rw [hplace]
    exact ⟨rest, by rw [Shape.read]; exact hread⟩

/-- A decoded state has a version at some place. -/
theorem exists_versionAt {file : StateFile} (h : shape.decode document = .ok file) :
    ∃ place, VersionAt document place := by
  obtain ⟨layout, hlaid, hfits, hversion, houtputs, hmodules⟩ := decode_eq_ok_iff.mp h
  match hplaces : layout.places "version" 0 with
  | [] =>
    rw [hplaces] at hversion
    cases hversion
  | [place] => exact ⟨place, layout, hlaid, hfits, hplaces, ⟨_, houtputs⟩, _, hmodules⟩
  | _ :: _ :: _ =>
    rw [hplaces] at hversion
    cases hversion

end StateFile

namespace StateDocument

variable {document place back : Bytes} {state : StateDocument} {n : Nat}

theorem ofDocument_of_no_word (h : StateFile.VersionAt document place)
    (hno : ∀ r, Leaf.word.read place ≠ .ok r) :
    ∃ detail, ofDocument document = .error (.deserialization detail) := by
  refine ofDocument_of_not_decoded fun file hfile => ?_
  obtain ⟨rest, hread⟩ := (StateFile.exists_decode_iff h).mp ⟨file, hfile, rfl⟩
  exact hno _ hread

theorem exists_decode_of_ofDocument (h : ofDocument document = .ok state) :
    ∃ file, StateFile.shape.decode document = .ok file ∧ file.version = state.version := by
  obtain ⟨file, outputs, hfile, -, rfl⟩ := ofDocument_eq_ok_iff.mp h
  exact ⟨file, hfile, rfl⟩

/-! ## Digits in the place of the version -/

/-- The digits of a number, and nothing that continues them, stand at a place. -/
def DigitsAt (n : Nat) (place : Bytes) : Prop :=
  ∃ back, skipBlank place = Utf8.encode (String.ofList (Nat.toDigits 10 n)) ++ back ∧
    Numeral.Ends back

/-- A number is a word at its digits exactly if it is not too large. -/
theorem DigitsAt.exists_read_iff (h : DigitsAt n place) {w : UInt64} :
    (∃ rest, Leaf.word.read place = .ok (w, rest)) ↔ w.toNat = n := by
  obtain ⟨back, hplace, hback⟩ := h
  rw [Utf8.encode_ofList, Numeral.encodeAll_toDigits] at hplace
  exact Leaf.exists_read_word_iff hplace hback

theorem digitsAt_of_read {w : UInt64} {rest : Bytes}
    (h : Leaf.word.read place = .ok (w, rest)) : DigitsAt w.toNat place := by
  obtain ⟨hplace, hrest⟩ := Leaf.read_word_eq_ok_iff.mp h
  refine ⟨rest, ?_, hrest⟩
  rw [hplace, Utf8.encode_ofList, Numeral.encodeAll_toDigits]

theorem exists_decode_iff_toNat (h : StateFile.VersionAt document place) (hn : DigitsAt n place)
    {version : UInt64} :
    (∃ file, StateFile.shape.decode document = .ok file ∧ file.version = version) ↔
      version.toNat = n :=
  (StateFile.exists_decode_iff h).trans hn.exists_read_iff

theorem known_iff_toNat {version : UInt64} :
    StateFile.Known version ↔ version.toNat = 3 ∨ version.toNat = 4 := by
  simp only [StateFile.Known, ← UInt64.toNat_inj]
  rfl

theorem toNat_of_ofDocument (h : StateFile.VersionAt document place) (hn : DigitsAt n place)
    (hstate : ofDocument document = .ok state) : state.version.toNat = n :=
  (exists_decode_iff_toNat h hn).mp (exists_decode_of_ofDocument hstate)

theorem exists_ofDocument_iff_digits (h : StateFile.VersionAt document place)
    (hn : DigitsAt n place) : (∃ state, ofDocument document = .ok state) ↔ n = 3 ∨ n = 4 := by
  constructor
  · rintro ⟨state, hstate⟩
    rw [← toNat_of_ofDocument h hn hstate, ← known_iff_toNat]
    exact known_of_ofDocument hstate
  · intro hknown
    have hword : (UInt64.ofNat n).toNat = n := by
      rcases hknown with rfl | rfl <;> rfl
    obtain ⟨file, hfile, hversion⟩ := (exists_decode_iff_toNat h hn).mpr hword
    refine exists_ofDocument_iff.mpr ⟨file, hfile, ?_⟩
    rwa [known_iff_toNat, hversion, hword]

theorem message_unsupportedVersion {version : UInt64} (h : version.toNat = n) :
    (Error.unsupportedVersion version).message =
      "Unsupported terraform state version: " ++ String.ofList (Nat.toDigits 10 n) := by
  rw [← h]
  rfl

/-- A word that is no known version is named in the error, digit by digit as it is written. -/
theorem exists_unsupportedVersion (h : StateFile.VersionAt document place) (hn : DigitsAt n place)
    (hunknown : ¬(n = 3 ∨ n = 4)) (hlt : n < 2 ^ 64) :
    ∃ version, ofDocument document = .error (.unsupportedVersion version) ∧ version.toNat = n ∧
      (Error.unsupportedVersion version).message =
        "Unsupported terraform state version: " ++ String.ofList (Nat.toDigits 10 n) := by
  have hword : (UInt64.ofNat n).toNat = n := UInt64.toNat_ofNat_of_lt' hlt
  obtain ⟨file, hfile, hversion⟩ := (exists_decode_iff_toNat h hn).mpr hword
  refine ⟨UInt64.ofNat n, eq_unsupportedVersion_iff.mpr ⟨file, hfile, hversion, ?_⟩, hword, ?_⟩
  · rwa [known_iff_toNat, hword]
  · exact message_unsupportedVersion hword

theorem exists_deserialization_of_le (h : StateFile.VersionAt document place)
    (hn : DigitsAt n place) (hle : 2 ^ 64 ≤ n) :
    ∃ detail, ofDocument document = .error (.deserialization detail) := by
  refine ofDocument_of_no_word h ?_
  rintro ⟨w, rest⟩ hread
  have hw : w.toNat = n := hn.exists_read_iff.mp ⟨rest, hread⟩
  have hlt := w.toNat_lt
  omega

/-- **The version is the number that is written, and only if it is written as one.** If the digits
of a number stand in the place of the version of a state that is otherwise sound, the state is
accepted for 3 and 4 and has that version; any other word is named in the error, and so in its
message; and no number of `2^64` or more is taken for anything. A sign, a point or an exponent in
that place is refused whatever number is meant. So only the digit 3 or 4 is ever read as a known
version. -/
theorem ofDocument_version_as_written (document : Bytes) :
    (∀ place, StateFile.VersionAt document place →
      (∀ n, DigitsAt n place →
        ((∃ state, ofDocument document = .ok state) ↔ n = 3 ∨ n = 4) ∧
        (∀ state, ofDocument document = .ok state → state.version.toNat = n) ∧
        (¬(n = 3 ∨ n = 4) → n < 2 ^ 64 →
          ∃ version, ofDocument document = .error (.unsupportedVersion version) ∧
            version.toNat = n ∧
            (Error.unsupportedVersion version).message =
              "Unsupported terraform state version: " ++ String.ofList (Nat.toDigits 10 n)) ∧
        (2 ^ 64 ≤ n → ∃ detail, ofDocument document = .error (.deserialization detail))) ∧
      (∀ back, skipBlank place = minus :: back →
        ∃ detail, ofDocument document = .error (.deserialization detail)) ∧
      (∀ (digits : List Nat) mark back, (∀ d ∈ digits, d < 10) →
        (mark = point ∨ mark = lowerE ∨ mark = upperE) →
        skipBlank place = digits.map Numeral.digitByte ++ mark :: back →
        ∃ detail, ofDocument document = .error (.deserialization detail))) ∧
    ∀ state, ofDocument document = .ok state →
      ∃ place n, StateFile.VersionAt document place ∧ DigitsAt n place ∧ (n = 3 ∨ n = 4) ∧
        state.version.toNat = n := by
  refine ⟨?_, ?_⟩
  · intro place hplace
    refine ⟨?_, ?_, ?_⟩
    · intro n hn
      refine ⟨exists_ofDocument_iff_digits hplace hn, ?_, ?_, ?_⟩
      · intro state hstate
        exact toNat_of_ofDocument hplace hn hstate
      · exact exists_unsupportedVersion hplace hn
      · exact exists_deserialization_of_le hplace hn
    · intro back hminus
      exact ofDocument_of_no_word hplace (Leaf.read_word_ne_of_minus hminus)
    · intro digits mark back hdigits hmark hback
      exact ofDocument_of_no_word hplace (Leaf.read_word_ne_of_continued hdigits hmark hback)
  · intro state hstate
    obtain ⟨file, hfile, hversion⟩ := exists_decode_of_ofDocument hstate
    obtain ⟨place, hplace⟩ := StateFile.exists_versionAt hfile
    obtain ⟨rest, hread⟩ := (StateFile.exists_decode_iff hplace).mp ⟨file, hfile, hversion⟩
    exact ⟨place, state.version.toNat, hplace, digitsAt_of_read hread,
      known_iff_toNat.mp (known_of_ofDocument hstate), rfl⟩

/-- A state of which only the version is written, in these words. -/
def versionOnly (numeral : String) : Bytes := Utf8.encode ("\x7b\"version\":" ++ numeral ++ "\x7d")

theorem versionAt_versionOnly {numeral : String}
    (h : LaidOut (versionOnly numeral) (.object [("version", Utf8.encode (numeral ++ "\x7d"))])) :
    StateFile.VersionAt (versionOnly numeral) (Utf8.encode (numeral ++ "\x7d")) :=
  ⟨_, h, trivial, rfl, ⟨.empty, rfl⟩, [], rfl⟩

/-- A number that is 4 but for a multiple of `2^64`, one that is 4 in value, and 4 itself. -/
theorem ofDocument_version_as_written_four :
    (∃ detail, ofDocument (versionOnly "18446744073709551620") =
      .error (.deserialization detail)) ∧
    (∃ detail, ofDocument (versionOnly "4.0") = .error (.deserialization detail)) ∧
    ∃ state, ofDocument (versionOnly "4") = .ok state ∧ state.version.toNat = 4 := by
  have hwrapped : StateFile.VersionAt (versionOnly "18446744073709551620") _ :=
    versionAt_versionOnly ⟨[], by decide +kernel, by decide +kernel⟩
  have hpoint : StateFile.VersionAt (versionOnly "4.0") _ :=
    versionAt_versionOnly ⟨[], by decide +kernel, by decide +kernel⟩
  have hfour : StateFile.VersionAt (versionOnly "4") _ :=
    versionAt_versionOnly ⟨[], by decide +kernel, by decide +kernel⟩
  refine ⟨?_, ?_, ?_⟩
  · obtain ⟨hdigits, -⟩ := (ofDocument_version_as_written _).1 _ hwrapped
    obtain ⟨-, -, -, hlarge⟩ :=
      hdigits 18446744073709551620 ⟨[rightBrace], by decide +kernel, Numeral.ends_brace []⟩
    exact hlarge (by decide)
  · obtain ⟨-, -, hmark⟩ := (ofDocument_version_as_written _).1 _ hpoint
    exact hmark [4] point (Utf8.encode "0\x7d") (by decide) (.inl rfl) (by decide +kernel)
  · obtain ⟨hdigits, -⟩ := (ofDocument_version_as_written _).1 _ hfour
    obtain ⟨haccepted, hversion, -⟩ :=
      hdigits 4 ⟨[rightBrace], by decide +kernel, Numeral.ends_brace []⟩
    obtain ⟨state, hstate⟩ := haccepted.mpr (.inr rfl)
    exact ⟨state, hstate, hversion state hstate⟩

end StateDocument

end Provisioning
