import Provisioning.Text.Quoted

/-!
# Texts that are quoted as they are

Most characters stand for themselves between quotes. A text of nothing else (`Text.Plain`) is quoted
by putting a quote on either side of it, so a list of such texts can be read off its line.
-/

set_option autoImplicit false

namespace Provisioning.Text

/-- A character of ASCII that is shown, and neither a quote nor a backslash. -/
def PlainChar (c : Char) : Prop := 0x20 ≤ c.toNat ∧ c.toNat < 0x7F ∧ c ≠ '"' ∧ c ≠ '\\'

instance (c : Char) : Decidable (PlainChar c) :=
  inferInstanceAs (Decidable (0x20 ≤ c.toNat ∧ c.toNat < 0x7F ∧ c ≠ '"' ∧ c ≠ '\\'))

def Plain (text : String) : Prop := ∀ c ∈ text.toList, PlainChar c

instance (text : String) : Decidable (Plain text) := List.decidableBAll PlainChar text.toList

theorem quoteChar_of_plain {c : Char} (h : PlainChar c) : quoteChar c = [c] := by
  obtain ⟨hle, hlt, hquote, hbackslash⟩ := h
  have hprintable : isPrintable c = true := by simp [isPrintable, hle, hlt]
  -- The characters that have a letter of their own are controls.
  have hcontrol {d : Char} (hd : d.toNat < 0x20) : c ≠ d := by
    rintro rfl
    omega
  rw [quoteChar, if_neg hquote, if_neg hbackslash, if_neg (hcontrol (by decide)),
    if_neg (hcontrol (by decide)), if_neg (hcontrol (by decide)), if_neg (by omega),
    if_pos hprintable]

theorem flatMap_quoteChar {cs : List Char} (h : ∀ c ∈ cs, PlainChar c) :
    cs.flatMap quoteChar = cs := by
  induction cs with
  | nil => rfl
  | cons c cs ih =>
    obtain ⟨hc, hcs⟩ := List.forall_mem_cons.mp h
    rw [List.flatMap_cons, quoteChar_of_plain hc, ih hcs]
    rfl

theorem quote_of_plain {text : String} (h : Plain text) : quote text = "\"" ++ text ++ "\"" := by
  rw [quote, flatMap_quoteChar h]
  refine String.toList_inj.mp ?_
  simp

/-- Plain texts are listed as they are, each between quotes. -/
theorem quoteAll_of_plain {texts : List String} (h : ∀ text ∈ texts, Plain text) :
    quoteAll texts =
      "[" ++ ", ".intercalate (texts.map fun text => "\"" ++ text ++ "\"") ++ "]" := by
  rw [quoteAll, List.map_congr_left fun text htext => quote_of_plain (h text htext)]

end Provisioning.Text
