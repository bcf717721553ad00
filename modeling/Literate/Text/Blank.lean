import Literate.Text.Basic

/-!
# Blanks

A blank is a character with the Unicode property White_Space. Trimming drops blanks from the ends
of a text and keeps those inside.
-/

namespace Literate.Text

/-- A character with the Unicode property White_Space. -/
def isBlank (c : Char) : Bool :=
  (0x09 ≤ c.toNat && c.toNat ≤ 0x0D) || c.toNat = 0x20 || c.toNat = 0x85 || c.toNat = 0xA0 ||
    c.toNat = 0x1680 || (0x2000 ≤ c.toNat && c.toNat ≤ 0x200A) || c.toNat = 0x2028 ||
    c.toNat = 0x2029 || c.toNat = 0x202F || c.toNat = 0x205F || c.toNat = 0x3000

/-- Drops the blanks at the beginning. -/
def trimStart (t : Text) : Text :=
  t.dropWhile isBlank

/-- Drops the blanks at the end. -/
def trimEnd (t : Text) : Text :=
  t.dropEndWhile isBlank

/-- Drops the blanks at both ends. -/
def trim (t : Text) : Text :=
  t.trimStart.trimEnd

/-- A space or a tab: the blanks that indent code. -/
def isIndent (c : Char) : Bool :=
  c = ' ' || c = '\t'

/-- What indents is blank. -/
theorem isBlank_of_isIndent {c : Char} (h : isIndent c = true) : isBlank c = true := by
  simp only [isIndent, Bool.or_eq_true, decide_eq_true_eq] at h
  rcases h with h | h <;> subst h <;> decide

/-- An indentation holds nothing but spaces and tabs. -/
theorem notMem_of_isIndent {t : Text} (ht : ∀ c ∈ t, isIndent c = true) {c : Char}
    (hc : isIndent c = false) : c ∉ t := fun hmem => by
  simp [ht c hmem] at hc

end Literate.Text
