import Mathlib.Data.List.DropRight
import Literate.Proofs.Number.Numeral
import Literate.Proofs.Number.Rounding

/-!
# General notation is exact

A finite double denotes a rational number. Its text in general notation, read as a decimal numeral,
denotes that number rounded to the significant digits asked for. The exponent of the rounded number
decides the form: outside the range of the plain form there is one digit before the point, which is
not zero, and that exponent with two digits or more. A fraction does not end in zero.
-/

namespace Literate

/-! ## The number that a double denotes -/

namespace Double

/-- The number that a finite double denotes. An exponent of zero has no leading bit. -/
def toRat (x : Double) : ℚ :=
  let exponent := x.magnitude / Nat.pow 2 52
  let fraction := x.magnitude % Nat.pow 2 52
  let magnitude : ℚ :=
    if exponent = 0 then fraction * 2 ^ (-1074 : ℤ)
    else (2 ^ 52 + fraction) * 2 ^ ((exponent : ℤ) - 1075)
  if x.negative then -magnitude else magnitude

variable {x : Double}

/-- The denominator of the exact quotient is positive. -/
theorem ratio_snd_pos (x : Double) : 0 < x.ratio.2 := by
  rw [ratio]
  split_ifs <;> simp only [Nat.pow_eq] <;> positivity

/-- The numerator is positive, too, unless the number is zero. -/
theorem ratio_fst_pos (h : x.isZero = false) : 0 < x.ratio.1 := by
  have hm : x.magnitude ≠ 0 := by simpa [isZero] using h
  have hsplit := Nat.div_add_mod x.magnitude (Nat.pow 2 52)
  rw [ratio]
  split_ifs with hexp
  · rw [hexp] at hsplit
    omega
  all_goals
    simp only [Nat.pow_eq]
    positivity

/-- The exact quotient is the magnitude of the number. -/
theorem toRat_eq (x : Double) :
    x.toRat = (if x.negative then -1 else 1) * ((x.ratio.1 : ℚ) / x.ratio.2) := by
  have hsign : ∀ a b : ℚ, a = b →
      (if x.negative then -a else a) = (if x.negative then -1 else 1) * b := by
    rintro a - rfl
    split <;> ring
  rw [toRat]
  apply hsign
  rw [ratio]
  generalize x.magnitude / Nat.pow 2 52 = e, x.magnitude % Nat.pow 2 52 = f
  have hpow (k : Nat) : ((Nat.pow 2 k : Nat) : ℚ) = 2 ^ k := Nat.cast_pow 2 k
  have hdiv (a : ℚ) (k : Nat) : a * 2 ^ (-(k : ℤ)) = a / (Nat.pow 2 k : Nat) := by
    rw [hpow, zpow_neg, zpow_natCast, div_eq_mul_inv]
  split_ifs with hzero hlarge <;> dsimp only
  · -- A name for the exponent keeps the power of two from being computed.
    generalize hk : (1074 : Nat) = k
    rw [show (-1074 : ℤ) = -(k : ℤ) by omega, hdiv]
  · rw [show (e : ℤ) - 1075 = ((e - 1075 : Nat) : ℤ) by omega, zpow_natCast, Nat.cast_mul,
      Nat.cast_add, hpow, hpow, Nat.cast_one, div_one]
  · rw [show (e : ℤ) - 1075 = -((1075 - e : Nat) : ℤ) by omega, hdiv, Nat.cast_add, hpow 52]

/-- The magnitude of a number other than zero is positive. -/
theorem ratio_pos (h : x.isZero = false) : (0 : ℚ) < x.ratio.1 / x.ratio.2 :=
  div_pos (by exact_mod_cast ratio_fst_pos h) (by exact_mod_cast ratio_snd_pos x)

/-- A number other than zero is below zero exactly if its sign bit is set. -/
theorem toRat_neg_iff (h : x.isZero = false) : x.toRat < 0 ↔ x.negative = true := by
  have hpos := ratio_pos h
  rw [toRat_eq]
  cases x.negative
  · simpa using hpos.le
  · simpa using hpos

end Double

/-! ## Zeros at the end of a fraction -/

namespace Numeral

/-- A numeral with the zeros at the end of its fraction left out. -/
def trimmed (negative : Bool) (whole fraction : Text) (e : Option Exponent) : Numeral :=
  ⟨negative, whole, fraction.rdropWhile (· = '0'), e⟩

variable {negative : Bool} {whole fraction : Text} {e : Option Exponent}

/-- A fraction is written without the zeros at its end. -/
theorem withFraction_eq (whole fraction : Text) :
    General.withFraction whole fraction =
      whole ++ fractionText (fraction.rdropWhile (· = '0')) := by
  have hkept : fraction.dropEndWhile (· = '0') = fraction.rdropWhile (· = '0') := rfl
  rw [General.withFraction, hkept]
  cases fraction.rdropWhile (· = '0') with
  | nil => exact (List.append_nil whole).symm
  | cons => rfl

private theorem text_trimmed :
    (trimmed negative whole fraction e).text =
      (if negative then ['-'] else []) ++
        (General.withFraction whole fraction ++ exponentText e) := by
  rw [withFraction_eq, text, List.append_assoc]
  rfl

/-- No zero is left at the end of the fraction. -/
theorem fraction_trimmed : (trimmed negative whole fraction e).fraction.getLast? ≠ some '0' := by
  intro h
  have hne : fraction.rdropWhile (· = '0') ≠ [] := by
    rintro hnil
    rw [trimmed, hnil] at h
    cases h
  have hlast := List.rdropWhile_last_not (· = '0') fraction hne
  rw [trimmed, List.getLast?_eq_some_getLast hne] at h
  simp_all

/-- The zeros that are left out do not count. -/
theorem value_trimmed :
    (trimmed negative whole fraction e).value = value ⟨negative, whole, fraction, e⟩ := by
  set kept := fraction.rdropWhile (· = '0') with hkept
  set zeros := fraction.rtakeWhile (· = '0')
  have hsplit : fraction = kept ++ zeros := List.rdropWhile_append_rtakeWhile.symm
  have hzeros : zeros = List.replicate zeros.length '0' :=
    List.eq_replicate_of_mem fun c hc => by simpa using List.mem_rtakeWhile_imp hc
  have hvalue : Decimal.value (whole ++ fraction) =
      Decimal.value (whole ++ kept) * 10 ^ zeros.length := by
    rw [hsplit, ← List.append_assoc, Decimal.value_append, hzeros, Decimal.value_replicate_zero,
      ← hzeros, Nat.add_zero]
  have hlength : (fraction.length : ℤ) = kept.length + zeros.length := by
    exact_mod_cast hsplit ▸ List.length_append
  rw [value, value, trimmed, ← hkept]
  dsimp only
  rw [hvalue, hlength]
  generalize e.elim 0 Exponent.value = exponent
  push_cast
  rw [← sub_sub, zpow_sub₀ (by norm_num) _ (zeros.length : ℤ), zpow_natCast]
  field_simp

/-- A numeral is well formed without the zeros at the end of its fraction. -/
theorem wellFormed_trimmed (h : WellFormed ⟨negative, whole, fraction, e⟩) :
    (trimmed negative whole fraction e).WellFormed where
  whole_ne_nil := h.whole_ne_nil
  whole := h.whole
  fraction c hc := h.fraction c ((List.rdropWhile_prefix _ _).subset hc)
  exponent := h.exponent

end Numeral

/-! ## The digits of both forms -/

/-- The exponent that general notation writes. -/
def Exponent.ofInt (e : ℤ) : Exponent :=
  ⟨e < 0, (General.exponentText e).tail⟩

namespace Exponent

private theorem text_ofInt (e : ℤ) : (ofInt e).text = General.exponentText e := by
  rw [text, ofInt, General.exponentText]
  by_cases he : e < 0 <;> simp [he]

private theorem digits_ofInt (e : ℤ) : ∃ zeros, (ofInt e).digits =
    List.replicate zeros '0' ++ Decimal.ofNat e.natAbs := by
  rw [ofInt, General.exponentText]
  by_cases hlength : (Decimal.ofNat e.natAbs).length < 2
  · exact ⟨1, by simp [hlength]⟩
  · exact ⟨0, by simp [hlength]⟩

/-- An exponent is written in two digits at least. -/
theorem two_le_length_ofInt (e : ℤ) : 2 ≤ (ofInt e).digits.length := by
  have hpos := Decimal.size_pos e.natAbs
  rw [ofInt, General.exponentText]
  by_cases hlength : (Decimal.ofNat e.natAbs).length < 2
  · rw [if_pos hlength, List.tail_cons, List.length_cons]
    exact Nat.succ_le_succ hpos
  · rw [if_neg hlength]
    exact Nat.not_lt.1 hlength

/-- What is written for an exponent denotes it. -/
theorem value_ofInt (e : ℤ) : (ofInt e).value = e := by
  have hdigits : Decimal.value (ofInt e).digits = e.natAbs := by
    obtain ⟨zeros, hzeros⟩ := digits_ofInt e
    rw [hzeros, Decimal.value_append, Decimal.value_replicate_zero, Decimal.value_ofNat]
    simp
  rw [value, hdigits, ofInt]
  by_cases he : e < 0
  · rw [if_pos (decide_eq_true he)]
    omega
  · rw [if_neg (by simpa using he)]
    omega

private theorem isDigit_ofInt {e : ℤ} {c : Char} (hc : c ∈ (ofInt e).digits) :
    c.isDigit = true := by
  obtain ⟨zeros, hzeros⟩ := digits_ofInt e
  rw [hzeros, List.mem_append, List.mem_replicate] at hc
  obtain ⟨-, rfl⟩ | hc := hc
  · decide
  · exact Decimal.isDigit_of_mem_ofNat hc

end Exponent

/-- The first digit of a number is not zero. -/
theorem Decimal.ofNat_eq_cons {n : Nat} (hn : 0 < n) :
    ∃ d rest, ofNat n = d :: rest ∧ d ≠ '0' := by
  obtain ⟨d, rest, hdigits⟩ := List.exists_cons_of_ne_nil (ofNat_ne_nil n)
  refine ⟨d, rest, hdigits, ?_⟩
  rintro rfl
  have hvalue : n = value rest := by
    rw [← value_ofNat n, hdigits, value_cons]
    simp
  have hrest : value rest < 10 ^ rest.length :=
    value_lt fun c hc => isDigit_of_mem_ofNat (n := n) (hdigits ▸ List.mem_cons_of_mem _ hc)
  have hsize : size n = rest.length + 1 := by rw [size, hdigits, List.length_cons]
  rcases Nat.eq_zero_or_pos rest.length with hnil | hmore
  · rw [hnil] at hrest
    omega
  · have := (size_le_iff hmore).2 (hvalue ▸ hrest)
    omega

namespace Rounded

variable {p : Nat} {x : ℚ} {r : Rounded} {negative : Bool}

/-- The numeral of the scientific form. -/
def scientific (negative : Bool) (r : Rounded) : Numeral :=
  .trimmed negative ((Decimal.ofNat r.digits).take 1) ((Decimal.ofNat r.digits).drop 1)
    (some (.ofInt r.exponent))

/-- The digits of the plain form, with a zero before the point if there is no other digit. -/
def padded (decimals : Nat) (r : Rounded) : Text :=
  List.replicate (decimals + 1 - Decimal.size r.digits) '0' ++ Decimal.ofNat r.digits

/-- The numeral of the plain form. -/
def plain (negative : Bool) (decimals : Nat) (r : Rounded) : Numeral :=
  .trimmed negative ((r.padded decimals).take ((r.padded decimals).length - decimals))
    ((r.padded decimals).drop ((r.padded decimals).length - decimals)) none

private theorem lt_length_padded (decimals : Nat) (r : Rounded) :
    decimals < (r.padded decimals).length := by
  have hsize : Decimal.size r.digits = (Decimal.ofNat r.digits).length := rfl
  rw [padded, List.length_append, List.length_replicate]
  omega

/-- The digits of the plain form are decimal digits. -/
theorem isDigit_padded {decimals : Nat} {c : Char} (hc : c ∈ r.padded decimals) :
    c.isDigit = true := by
  rw [padded, List.mem_append, List.mem_replicate] at hc
  obtain ⟨-, rfl⟩ | hc := hc
  · decide
  · exact Decimal.isDigit_of_mem_ofNat hc

/-- A rounded number has as many digits as it is rounded to. -/
theorem Rounds.size_digits (h : Rounds p x r) (hp : 1 ≤ p) : Decimal.size r.digits = p := by
  have hle := (Decimal.size_le_iff hp).2 h.lt_pow
  have hpos := Decimal.size_pos r.digits
  rcases Nat.eq_zero_or_pos (p - 1) with hone | hmore
  · omega
  · have := mt (Decimal.size_le_iff hmore).1 (Nat.not_lt.2 h.pow_le)
    omega

/-- A rounded number is not zero. -/
theorem Rounds.digits_pos (h : Rounds p x r) : 0 < r.digits :=
  (Nat.pow_pos (by decide)).trans_le h.pow_le

private theorem Rounds.significant_pos (h : Rounds p x r) : 0 < significant p x := by
  have hdigits : (0 : ℚ) < r.digits := by exact_mod_cast h.digits_pos
  rw [← h.value_eq, value]
  positivity

/-- The scientific form is well formed. -/
theorem wellFormed_scientific : (r.scientific negative).WellFormed := by
  refine Numeral.wellFormed_trimmed ⟨?_, fun c hc => ?_, fun c hc => ?_, ?_⟩
  · simpa using Decimal.ofNat_ne_nil r.digits
  · exact Decimal.isDigit_of_mem_ofNat (List.mem_of_mem_take hc)
  · exact Decimal.isDigit_of_mem_ofNat (List.mem_of_mem_drop hc)
  · rintro e ⟨⟩
    refine ⟨?_, fun c hc => Exponent.isDigit_ofInt hc⟩
    exact List.ne_nil_of_length_pos (Nat.zero_lt_of_lt (Exponent.two_le_length_ofInt _))

/-- The plain form is well formed. -/
theorem wellFormed_plain (decimals : Nat) : (r.plain negative decimals).WellFormed := by
  refine Numeral.wellFormed_trimmed ⟨?_, fun c hc => ?_, fun c hc => ?_, by simp⟩
  · have := lt_length_padded decimals r
    apply List.ne_nil_of_length_pos
    simp only [List.length_take]
    omega
  · exact isDigit_padded (List.mem_of_mem_take hc)
  · exact isDigit_padded (List.mem_of_mem_drop hc)

/-- The scientific form denotes the rounded number. -/
theorem value_scientific (h : Rounds p x r) (hp : 1 ≤ p) :
    (r.scientific negative).value = (if negative then -1 else 1) * significant p x := by
  have hlength : ((Decimal.ofNat r.digits).drop 1).length = p - 1 := by
    rw [List.length_drop]
    exact congrArg (· - 1) (h.size_digits hp)
  rw [scientific, Numeral.value_trimmed, Numeral.value]
  dsimp only
  rw [List.take_append_drop, Decimal.value_ofNat, hlength, Option.elim_some, Exponent.value_ofInt,
    ← h.value_eq, value, mul_assoc]
  congr 3
  omega

/-- The plain form denotes the rounded number. -/
theorem value_plain (h : Rounds p x r) (hlt : r.exponent < p) :
    (r.plain negative (General.decimals p r.exponent)).value =
      (if negative then -1 else 1) * significant p x := by
  have hdecimals : ((General.decimals p r.exponent : Nat) : ℤ) = p - 1 - r.exponent := by
    rw [General.decimals]
    omega
  generalize General.decimals p r.exponent = k at *
  have hlength : ((r.padded k).drop ((r.padded k).length - k)).length = k := by
    have := lt_length_padded k r
    rw [List.length_drop]
    omega
  have hvalue : Decimal.value (r.padded k) = r.digits := by
    rw [padded, Decimal.value_append, Decimal.value_replicate_zero, Decimal.value_ofNat, Nat.zero_mul,
      Nat.zero_add]
  rw [plain, Numeral.value_trimmed, Numeral.value]
  dsimp only
  rw [List.take_append_drop, hvalue, hlength, Option.elim_none, ← h.value_eq, value, mul_assoc]
  congr 3
  omega

end Rounded

/-! ## The text of a double -/

/-- A numeral is general notation for a number of `p` significant digits. -/
structure Numeral.IsGeneral (p : Nat) (x : ℚ) (m : Numeral) : Prop where
  value_eq : m.value = x
  /-- Outside the range of the plain form there is one digit before the point, not zero, and the
  exponent of the number with two digits or more. -/
  scientific : Int.log 10 |x| < -4 ∨ p ≤ Int.log 10 |x| → ∃ d e, m.whole = [d] ∧ d ≠ '0' ∧
    m.exponent = some e ∧ e.value = Int.log 10 |x| ∧ 2 ≤ e.digits.length
  plain : ¬ (Int.log 10 |x| < -4 ∨ p ≤ Int.log 10 |x|) → m.exponent = none
  fraction : m.fraction.getLast? ≠ some '0'

namespace General

/-- The numeral that is written for a number rounded to `p` digits. -/
def numeral (negative : Bool) (p : Nat) (r : Rounded) : Numeral :=
  if isScientific p r then r.scientific negative else r.plain negative (decimals p r.exponent)

/-- What is written for the magnitude of a number is the text of its numeral. -/
theorem text_numeral {p n d : Nat} (negative : Bool) (hp : 1 ≤ p) (hn : 0 < n) (hd : 0 < d) :
    (numeral negative p (.ofRatio p n d)).text =
      (if negative then ['-'] else []) ++ magnitudeText p n d := by
  rw [numeral, magnitudeText]
  split
  case isTrue h =>
    rw [Rounded.scientific, Numeral.text_trimmed, Numeral.exponentText, Exponent.text_ofInt]
    rfl
  case isFalse h =>
    have hlt : (Rounded.ofRatio p n d).exponent < p := by
      simp only [isScientific, Bool.or_eq_true, decide_eq_true_eq, not_or] at h
      omega
    rw [Rounded.plain, Numeral.text_trimmed, Numeral.exponentText, List.append_nil, plain,
      Rounded.nearest_decimals hp hn hd hlt]
    rfl

/-- The numeral is well formed. -/
theorem wellFormed_numeral (negative : Bool) (p : Nat) (r : Rounded) :
    (numeral negative p r).WellFormed := by
  rw [numeral]
  split
  · exact Rounded.wellFormed_scientific
  · exact Rounded.wellFormed_plain _

/-- The numeral is that of general notation, for the rounded number. -/
theorem isGeneral_numeral {p : Nat} {x : ℚ} {r : Rounded} (negative : Bool) (h : r.Rounds p x)
    (hp : 1 ≤ p) :
    (numeral negative p r).IsGeneral p ((if negative then -1 else 1) * significant p x) := by
  have hlog : Int.log 10 |(if negative then -1 else 1) * significant p x| = r.exponent := by
    rw [abs_mul, abs_of_pos h.significant_pos, ← h.log_significant hp]
    cases negative <;> simp
  have hform : isScientific p r = true ↔ r.exponent < -4 ∨ (p : ℤ) ≤ r.exponent := by
    simp [isScientific]
  rw [numeral]
  by_cases hs : isScientific p r = true
  · rw [if_pos hs]
    obtain ⟨c, rest, hdigits, hc⟩ := Decimal.ofNat_eq_cons h.digits_pos
    have hwhole : (r.scientific negative).whole = [c] := by
      rw [Rounded.scientific, Numeral.trimmed, hdigits]
      rfl
    refine ⟨Rounded.value_scientific h hp, fun _ => ?_, fun hplain => ?_, Numeral.fraction_trimmed⟩
    · exact ⟨c, .ofInt r.exponent, hwhole, hc, rfl, by rw [hlog, Exponent.value_ofInt],
        Exponent.two_le_length_ofInt _⟩
    · exact absurd (hform.1 hs) (hlog ▸ hplain)
  · rw [if_neg hs]
    have hplain := mt hform.2 hs
    refine ⟨Rounded.value_plain h (by omega), fun hsci => ?_, fun _ => rfl, Numeral.fraction_trimmed⟩
    exact absurd (hlog ▸ hsci) hplain

/-- The numeral has the sign that is given. -/
theorem negative_numeral (negative : Bool) (p : Nat) (r : Rounded) :
    (numeral negative p r).negative = negative := by
  rw [numeral]
  split <;> rfl

/-- The text of a finite double other than zero is a numeral for the number rounded to the
significant digits, in the form that the exponent of the rounded number decides. -/
theorem write_exact (x : Double) (p : Nat) (hnan : x.isNaN = false) (hinf : x.isInfinite = false)
    (hzero : x.isZero = false) (hp : 1 ≤ p) :
    ∃ m : Numeral, write x p = m.text ∧ Numeral.read? (write x p) = some m ∧
      m.IsGeneral p (significant p x.toRat) ∧ (m.negative = true ↔ x.toRat < 0) ∧
      (write x p).getLast? ≠ some '.' := by
  have hn := Double.ratio_fst_pos hzero
  have hd := x.ratio_snd_pos
  have hrounds := Rounded.rounds_ofRatio hp hn hd
  have hwrite : write x p = (numeral x.negative p (.ofRatio p x.ratio.1 x.ratio.2)).text := by
    rw [text_numeral x.negative hp hn hd, write, hnan, hinf, hzero, Nat.max_eq_left hp]
    cases x.negative <;> rfl
  have hsign : significant p x.toRat =
      (if x.negative then -1 else 1) * significant p (x.ratio.1 / x.ratio.2) := by
    rw [Double.toRat_eq]
    cases x.negative <;> simp [significant_neg]
  have hwf := wellFormed_numeral x.negative p (.ofRatio p x.ratio.1 x.ratio.2)
  refine ⟨_, hwrite, hwrite ▸ Numeral.read?_text hwf, ?_, ?_, hwrite ▸ Numeral.getLast?_text hwf⟩
  · rw [hsign]
    exact isGeneral_numeral x.negative hrounds hp
  · rw [Double.toRat_neg_iff hzero, negative_numeral]

/-- Rounding to six digits carries into the seventh place, which no longer has a plain form. -/
theorem write_exact_carry :
    let x : Double := ⟨0x412E847F66666666⟩
    x.isNaN = false ∧ x.isInfinite = false ∧ x.isZero = false ∧
      ∃ m : Numeral, write x 6 = m.text ∧ Numeral.read? (write x 6) = some m ∧
        m.IsGeneral 6 (significant 6 x.toRat) ∧ (m.negative = true ↔ x.toRat < 0) ∧
        (write x 6).getLast? ≠ some '.' := by
  intro x
  have hnan : x.isNaN = false := by decide
  have hinf : x.isInfinite = false := by decide
  have hzero : x.isZero = false := by decide
  exact ⟨hnan, hinf, hzero, write_exact x 6 hnan hinf hzero (by decide)⟩

end General

end Literate
