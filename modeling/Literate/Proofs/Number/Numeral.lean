import Mathlib.Algebra.Field.Rat
import Mathlib.Algebra.Order.Ring.Rat
import Mathlib.Data.List.TakeWhile
import Mathlib.Tactic.FieldSimp
import Mathlib.Tactic.Ring
import Literate.Number.Decimal
import Literate.Proofs.Text.Lines

/-!
# Decimal numerals with a fraction and an exponent

A numeral is a sign, the digits before the point and after it, and possibly an exponent. It denotes
an exact rational number. The text of a well-formed numeral is read back as that numeral, and zeros
at the end of its fraction make no difference to the number.
-/

namespace Literate

/-- The exponent of a numeral: its sign and its digits. -/
structure Exponent where
  negative : Bool
  digits : Text
  deriving DecidableEq, Repr

/-- A decimal numeral. The fraction is empty if there is no point. -/
structure Numeral where
  negative : Bool
  whole : Text
  fraction : Text
  exponent : Option Exponent
  deriving DecidableEq, Repr

/-- A sign that is always written, and the digits. -/
def Exponent.text (e : Exponent) : Text :=
  (if e.negative then '-' else '+') :: e.digits

/-- The power of ten that an exponent denotes. -/
def Exponent.value (e : Exponent) : ℤ :=
  if e.negative then -(Decimal.value e.digits : ℤ) else Decimal.value e.digits

namespace Numeral

/-- The text of a fraction, with the point before it if there is one. -/
def fractionText : Text → Text
  | [] => []
  | fraction => '.' :: fraction

/-- The text of an exponent, with the mark before it if there is one. -/
def exponentText : Option Exponent → Text
  | none => []
  | some e => 'e' :: e.text

/-- A numeral as it is written. -/
def text (m : Numeral) : Text :=
  (if m.negative then ['-'] else []) ++ (m.whole ++ (fractionText m.fraction ++ exponentText m.exponent))

/-- The number that a numeral denotes. -/
def value (m : Numeral) : ℚ :=
  (if m.negative then -1 else 1) * Decimal.value (m.whole ++ m.fraction) *
    10 ^ (m.exponent.elim 0 Exponent.value - m.fraction.length)

/-- The fraction that a text begins with, and what follows it. -/
def readFraction : Text → Text × Text
  | '.' :: rest => (rest.takeWhile Char.isDigit, rest.dropWhile Char.isDigit)
  | rest => ([], rest)

/-- The exponent that a text is, or none for an empty text. -/
def readExponent? : Text → Option (Option Exponent)
  | [] => some none
  | 'e' :: sign :: digits =>
    if (sign = '+' ∨ sign = '-') ∧ digits ≠ [] ∧ digits.all Char.isDigit then
      some (some ⟨sign = '-', digits⟩)
    else none
  | _ => none

/-- The numeral that a text without a sign is. -/
def readUnsigned? (negative : Bool) (t : Text) : Option Numeral :=
  let fraction := readFraction (t.dropWhile Char.isDigit)
  if t.takeWhile Char.isDigit = [] then none
  else (readExponent? fraction.2).map fun e => ⟨negative, t.takeWhile Char.isDigit, fraction.1, e⟩

/-- The numeral that a text is. -/
def read? : Text → Option Numeral
  | '-' :: t => readUnsigned? true t
  | t => readUnsigned? false t

/-- A numeral has a digit before the point, one at least in an exponent, and digits only. -/
structure WellFormed (m : Numeral) : Prop where
  whole_ne_nil : m.whole ≠ []
  whole : ∀ c ∈ m.whole, c.isDigit = true
  fraction : ∀ c ∈ m.fraction, c.isDigit = true
  exponent : ∀ e ∈ m.exponent, e.digits ≠ [] ∧ ∀ c ∈ e.digits, c.isDigit = true

private theorem readExponent?_exponentText {e : Option Exponent}
    (h : ∀ x ∈ e, x.digits ≠ [] ∧ ∀ c ∈ x.digits, c.isDigit = true) :
    readExponent? (exponentText e) = some e := by
  cases e with
  | none => rfl
  | some e =>
    obtain ⟨hne, hdigits⟩ := h e rfl
    obtain ⟨negative, digits⟩ := e
    rw [exponentText, Exponent.text]
    cases negative <;> simp_all [readExponent?]

private theorem head?_exponentText (e : Option Exponent) :
    ∀ c ∈ (exponentText e).head?, c.isDigit = false := by
  cases e <;> simp [exponentText]

private theorem readFraction_text {fraction : Text} (h : ∀ c ∈ fraction, c.isDigit = true)
    (e : Option Exponent) :
    readFraction (fractionText fraction ++ exponentText e) = (fraction, exponentText e) := by
  cases fraction with
  | nil => cases e <;> rfl
  | cons c fraction =>
    obtain ⟨htake, hdrop⟩ := Text.takeWhile_dropWhile_append h (head?_exponentText e)
    exact Prod.ext htake hdrop

private theorem readUnsigned?_text {m : Numeral} (h : m.WellFormed) :
    readUnsigned? m.negative (m.whole ++ (fractionText m.fraction ++ exponentText m.exponent)) =
      some m := by
  have hhead : ∀ c ∈ (fractionText m.fraction ++ exponentText m.exponent).head?,
      c.isDigit = false := by
    cases hf : m.fraction with
    | nil => exact head?_exponentText m.exponent
    | cons => simp [fractionText]
  obtain ⟨htake, hdrop⟩ := Text.takeWhile_dropWhile_append h.whole hhead
  rw [readUnsigned?, htake, hdrop, readFraction_text h.fraction, if_neg h.whole_ne_nil,
    readExponent?_exponentText h.exponent]
  rfl

/-- What is written is read back. -/
theorem read?_text {m : Numeral} (h : m.WellFormed) : read? m.text = some m := by
  have hread := readUnsigned?_text h
  rw [text]
  cases hneg : m.negative with
  | true => rwa [hneg] at hread
  | false =>
    rw [hneg] at hread
    obtain ⟨c, whole, hw⟩ := List.exists_cons_of_ne_nil h.whole_ne_nil
    have hc : c ≠ '-' := by
      rintro rfl
      simpa using h.whole '-' (by simp [hw])
    rw [hw] at hread ⊢
    rw [← hread]
    simp only [Bool.false_eq_true, if_false, List.nil_append, List.cons_append]
    exact read?.eq_2 _ (by simpa using hc)

/-- A numeral ends in a digit, not in a point. -/
theorem getLast?_text {m : Numeral} (h : m.WellFormed) : m.text.getLast? ≠ some '.' := by
  have hdigits : ∃ digits, digits <:+ m.text ∧ digits ≠ [] ∧ ∀ c ∈ digits, c.isDigit = true := by
    have htext (t : Text) (ht : t <:+ m.whole ++ (fractionText m.fraction ++ exponentText m.exponent)) :
        t <:+ m.text :=
      ht.trans (List.suffix_append _ _)
    cases he : m.exponent with
    | some e =>
      obtain ⟨hne, hall⟩ := h.exponent e he
      refine ⟨e.digits, htext _ (.trans ?_ (List.suffix_append_of_suffix (List.suffix_append _ _))),
        hne, hall⟩
      rw [he]
      exact (List.suffix_cons _ _).trans (List.suffix_cons _ _)
    | none =>
      cases hf : m.fraction with
      | nil =>
        refine ⟨m.whole, htext _ ?_, h.whole_ne_nil, h.whole⟩
        simp [he, hf, exponentText, fractionText]
      | cons c fraction =>
        refine ⟨c :: fraction, htext _ (List.suffix_append_of_suffix ?_), by simp, hf ▸ h.fraction⟩
        simp only [he, hf, exponentText, fractionText, List.append_nil]
        exact List.suffix_cons _ _
  obtain ⟨digits, ⟨start, htext⟩, hne, hall⟩ := hdigits
  intro hlast
  rw [← htext, List.getLast?_append_of_ne_nil _ hne] at hlast
  simpa using hall '.' (List.mem_of_getLast? hlast)

end Numeral

/-! ## The number that digits denote -/

namespace Decimal

private theorem ofDigitChars_eq (t : Text) (init : Nat) :
    Nat.ofDigitChars 10 t init = init * 10 ^ t.length + value t := by
  induction t generalizing init with
  | nil => simp [value]
  | cons c t ih =>
    rw [value, Nat.ofDigitChars_cons, Nat.ofDigitChars_cons, ih, ih (10 * 0 + _), List.length_cons]
    ring

/-- Digits before others count by the places that those take. -/
theorem value_append (s t : Text) : value (s ++ t) = value s * 10 ^ t.length + value t := by
  rw [value, Nat.ofDigitChars_append, ofDigitChars_eq]
  rfl

/-- The first digit counts by its place. -/
theorem value_cons (c : Char) (t : Text) :
    value (c :: t) = (c.toNat - '0'.toNat) * 10 ^ t.length + value t := by
  rw [value, Nat.ofDigitChars_cons, ofDigitChars_eq, Nat.mul_zero, Nat.zero_add]

/-- Zeros count nothing. -/
theorem value_replicate_zero (n : Nat) : value (List.replicate n '0') = 0 := by
  induction n with
  | zero => rfl
  | succ n ih => rw [List.replicate_succ, value_cons, ih]; simp

/-- So many digits denote less than that power of ten. -/
theorem value_lt {t : Text} (h : ∀ c ∈ t, c.isDigit = true) : value t < 10 ^ t.length := by
  induction t with
  | nil => simp [value]
  | cons c t ih =>
    have hc : c.toNat - '0'.toNat ≤ 9 := by
      have : c.toNat ≤ 57 := (Char.isDigit_iff_toNat.1 (h c (by simp))).2
      change c.toNat - 48 ≤ 9
      omega
    have ht := ih fun c hc => h c (by simp [hc])
    rw [value_cons, List.length_cons]
    calc (c.toNat - '0'.toNat) * 10 ^ t.length + value t
      _ < 9 * 10 ^ t.length + 10 ^ t.length := Nat.add_lt_add_of_le_of_lt (Nat.mul_le_mul_right _ hc) ht
      _ = 10 ^ (t.length + 1) := by ring

end Decimal

end Literate
