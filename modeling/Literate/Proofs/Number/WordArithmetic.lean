import Literate.Proofs.Number.GeneralNotation
import Literate.Proofs.Result

/-!
# General notation in machine words

The text of a double can be made by way of other texts and 32-bit words. The double is written in
scientific form, the exponent is read back from that text, and words decide the form and the number
of digits behind the point. Whatever could go wrong on that way is an error here: a word that
overflows, a text without an exponent, fewer digits than none. Nothing does. The decimal exponents
of doubles lie between -324 and 308, and the text is the one that exact arithmetic gives.
-/

namespace Literate

/-! ## The range of exponents -/

namespace Double

variable {x : Double}

/-- The magnitude of a finite double. An exponent of zero has no leading bit. -/
theorem ratio_eq (x : Double) :
    (x.ratio.1 : ℚ) / x.ratio.2 =
      if x.magnitude / Nat.pow 2 52 = 0 then
        ((x.magnitude % Nat.pow 2 52 : Nat) : ℚ) * 2 ^ (-1074 : ℤ)
      else
        (2 ^ 52 + ((x.magnitude % Nat.pow 2 52 : Nat) : ℚ)) *
          2 ^ (((x.magnitude / Nat.pow 2 52 : Nat) : ℤ) - 1075) := by
  have hrat := toRat_eq x
  rw [toRat] at hrat
  cases hneg : x.negative <;> simpa [hneg, eq_comm] using hrat

/-- The least positive double. -/
theorem two_zpow_le_ratio (hzero : x.isZero = false) :
    (2 : ℚ) ^ (-1074 : ℤ) ≤ x.ratio.1 / x.ratio.2 := by
  have hm : x.magnitude ≠ 0 := by simpa [isZero] using hzero
  have hsplit := Nat.div_add_mod x.magnitude (Nat.pow 2 52)
  rw [ratio_eq]
  generalize x.magnitude / Nat.pow 2 52 = e, x.magnitude % Nat.pow 2 52 = f at *
  split_ifs with he
  · have hf : (1 : ℚ) ≤ f := by
      rw [he] at hsplit
      exact_mod_cast Nat.pos_of_ne_zero (by omega : f ≠ 0)
    exact le_mul_of_one_le_left (by positivity) hf
  · have hone : (1 : ℚ) ≤ 2 ^ 52 := by norm_num
    calc (2 : ℚ) ^ (-1074 : ℤ)
      _ ≤ 2 ^ ((e : ℤ) - 1075) := zpow_le_zpow_right₀ (by norm_num) (by omega)
      _ ≤ (2 ^ 52 + f) * 2 ^ ((e : ℤ) - 1075) :=
        le_mul_of_one_le_left (by positivity) (hone.trans (le_add_of_nonneg_right f.cast_nonneg))

/-- Every finite double is below the power of two behind the largest. -/
theorem ratio_lt_two_zpow (hnan : x.isNaN = false) (hinf : x.isInfinite = false) :
    (x.ratio.1 / x.ratio.2 : ℚ) < 2 ^ (1024 : ℤ) := by
  have hm : x.magnitude < 2047 * Nat.pow 2 52 := by
    have hle : x.magnitude ≤ infinityBits := by simpa [isNaN] using hnan
    have hne : x.magnitude ≠ infinityBits := by simpa [isInfinite] using hinf
    exact lt_of_le_of_ne hle hne
  have he : x.magnitude / Nat.pow 2 52 < 2047 := Nat.div_lt_of_lt_mul (by rwa [Nat.mul_comm] at hm)
  have hf : x.magnitude % Nat.pow 2 52 < Nat.pow 2 52 := Nat.mod_lt _ (by decide)
  rw [ratio_eq]
  generalize x.magnitude / Nat.pow 2 52 = e, x.magnitude % Nat.pow 2 52 = f at *
  have hf : (f : ℚ) < 2 ^ 52 := by exact_mod_cast hf
  split_ifs with hzero
  · calc (f : ℚ) * 2 ^ (-1074 : ℤ)
      _ < 2 ^ (52 : ℤ) * 2 ^ (-1074 : ℤ) := by
        gcongr
        exact_mod_cast hf
      _ = 2 ^ (-1022 : ℤ) := by rw [← zpow_add₀ (by norm_num)]; rfl
      _ ≤ 2 ^ (1024 : ℤ) := zpow_le_zpow_right₀ (by norm_num) (by norm_num)
  · calc (2 ^ 52 + f : ℚ) * 2 ^ ((e : ℤ) - 1075)
      _ < 2 ^ (53 : ℤ) * 2 ^ ((e : ℤ) - 1075) := by
        gcongr
        linarith
      _ = 2 ^ ((e : ℤ) - 1022) := by
        rw [← zpow_add₀ (by norm_num)]
        congr 1
        ring
      _ ≤ 2 ^ (1024 : ℤ) := zpow_le_zpow_right₀ (by norm_num) (by omega)

end Double

namespace Rounded

variable {p : Nat} {x : ℚ} {r : Rounded}

/-- A number lies between half the power of ten of its exponent and the next power. The half is for
what rounds up to a power of ten. -/
theorem Rounds.bounds (h : Rounds p x r) (hp : 1 ≤ p) :
    (10 : ℚ) ^ r.exponent ≤ 2 * x ∧ x < 10 ^ (r.exponent + 1) := by
  obtain ⟨hlow, hhigh⟩ := abs_le.mp h.nearest.near
  push_cast at hlow hhigh
  have hle : (10 : ℚ) ^ (p - 1) ≤ r.digits := by exact_mod_cast h.pow_le
  have hlt : (r.digits : ℚ) + 1 ≤ 10 ^ p := by exact_mod_cast h.lt_pow
  have hone : (1 : ℚ) ≤ r.digits := by exact_mod_cast h.digits_pos
  have hx : x = x * 10 ^ ((p : ℤ) - 1 - r.exponent) * 10 ^ (r.exponent - (p - 1)) := by
    rw [mul_assoc, ← zpow_add₀ (by norm_num)]
    simp
  generalize x * 10 ^ ((p : ℤ) - 1 - r.exponent) = y at *
  have hunit : (0 : ℚ) < 10 ^ (r.exponent - (p - 1)) := by positivity
  constructor
  · calc (10 : ℚ) ^ r.exponent
      _ = 10 ^ (p - 1) * 10 ^ (r.exponent - (p - 1)) := by
        rw [← zpow_natCast, ← zpow_add₀ (by norm_num)]
        congr 1
        omega
      _ ≤ (2 * y) * 10 ^ (r.exponent - (p - 1)) := by
        gcongr
        linarith
      _ = 2 * x := by rw [mul_assoc, ← hx]
  · calc x
      _ = y * 10 ^ (r.exponent - (p - 1)) := hx
      _ < 10 ^ p * 10 ^ (r.exponent - (p - 1)) := by
        gcongr
        linarith
      _ = 10 ^ (r.exponent + 1) := by
        rw [← zpow_natCast, ← zpow_add₀ (by norm_num)]
        congr 1
        ring

/-- The decimal exponents of doubles, subnormal ones and those that round up to a power of ten
included. -/
theorem exponent_bounds {x : Double} (hnan : x.isNaN = false) (hinf : x.isInfinite = false)
    (hzero : x.isZero = false) (hp : 1 ≤ p) :
    -324 ≤ (ofRatio p x.ratio.1 x.ratio.2).exponent ∧
      (ofRatio p x.ratio.1 x.ratio.2).exponent ≤ 308 := by
  have hrounds := rounds_ofRatio hp (Double.ratio_fst_pos hzero) x.ratio_snd_pos
  obtain ⟨hlow, hhigh⟩ := hrounds.bounds hp
  generalize (ofRatio p x.ratio.1 x.ratio.2).exponent = e at *
  have hsmall : (10 : ℚ) ^ (-324 : ℤ) < 10 ^ (e + 1) := by
    calc (10 : ℚ) ^ (-324 : ℤ)
      _ ≤ 2 ^ (-1074 : ℤ) := by
        have hpow : (2 : ℕ) ^ 1074 ≤ 10 ^ 324 := by decide +kernel
        rw [zpow_neg, zpow_neg]
        exact inv_anti₀ (by positivity) (by exact_mod_cast hpow)
      _ ≤ x.ratio.1 / x.ratio.2 := Double.two_zpow_le_ratio hzero
      _ < 10 ^ (e + 1) := hhigh
  -- The factor of two leaves room for a number that rounds up to a power of ten.
  have hlarge : (10 : ℚ) ^ e < 10 ^ (309 : ℤ) := by
    calc (10 : ℚ) ^ e
      _ ≤ 2 * (x.ratio.1 / x.ratio.2) := hlow
      _ < 2 * 2 ^ (1024 : ℤ) := by
        gcongr
        exact Double.ratio_lt_two_zpow hnan hinf
      _ < 10 ^ (309 : ℤ) := by
        have hpow : 2 * (2 : ℕ) ^ 1024 < 10 ^ 309 := by decide +kernel
        exact_mod_cast hpow
  rw [zpow_lt_zpow_iff_right₀ (by norm_num)] at hsmall hlarge
  omega

end Rounded

/-! ## The way by texts and words -/

namespace General

/-- Why general notation by way of texts and words fails. -/
inductive WordError
  /-- A number does not fit a 32-bit word. -/
  | overflow
  /-- No exponent is read from the scientific text. -/
  | noExponent
  /-- The number of digits behind the point is negative. -/
  | negativeDecimals
  deriving DecidableEq, Repr

/-- An integer as a signed 32-bit word, if it fits. -/
def word (n : ℤ) : Except WordError Int32 :=
  if -2 ^ 31 ≤ n ∧ n < 2 ^ 31 then .ok (Int32.ofInt n) else .error .overflow

/-- The signed 32-bit word that a text of digits denotes, with a sign or without one. -/
def readWord? (t : Text) : Option Int32 :=
  let digits := if t.head? = some '+' ∨ t.head? = some '-' then t.tail else t
  let n : ℤ := if t.head? = some '-' then -Decimal.value digits else Decimal.value digits
  if digits ≠ [] ∧ digits.all Char.isDigit then (word n).toOption else none

/-- What stands before the first occurrence of a character, and what stands behind it. -/
def cutAt? (c : Char) (t : Text) : Option (Text × Text) :=
  match t.dropWhile (· ≠ c) with
  | [] => none
  | _ :: rest => some (t.takeWhile (· ≠ c), rest)

/-- Leaves out the zeros at the end of a fraction, and the point with the last of them. -/
def trimFraction (t : Text) : Text :=
  if t.contains '.' then (t.dropEndWhile (· = '0')).dropEndWhile (· = '.') else t

/-- The sign of a double, which is written only if it is a minus. -/
def signText (x : Double) : Text :=
  if x.negative then ['-'] else []

/-- The digits of a rounded number with a point behind the first, unless there is no other. -/
def mantissaText (x : Double) (r : Rounded) : Text :=
  let digits := Decimal.ofNat r.digits
  signText x ++ digits.take 1 ++ Numeral.fractionText (digits.drop 1)

/-- A finite double rounded to one digit before the point and some behind it, and the exponent. -/
def scientificText (decimals : Nat) (x : Double) : Text :=
  let r := Rounded.ofRatio (decimals + 1) x.ratio.1 x.ratio.2
  mantissaText x r ++ 'e' :: Decimal.ofInt r.exponent

/-- A finite double rounded to some digits behind the point. -/
def fixedText (decimals : Nat) (x : Double) : Text :=
  let digits := Decimal.ofNat (nearest (x.ratio.1 * Nat.pow 10 decimals) x.ratio.2)
  let padded := List.replicate (decimals + 1 - digits.length) '0' ++ digits
  signText x ++ padded.take (padded.length - decimals) ++
    Numeral.fractionText (padded.drop (padded.length - decimals))

/-- What stands before the exponent of a scientific text, and the exponent. -/
def readScientific (t : Text) : Except WordError (Text × Int32) :=
  match cutAt? 'e' t with
  | none => .error .noExponent
  | some (mantissa, written) =>
    match readWord? written with
    | none => .error .noExponent
    | some exponent => .ok (mantissa, exponent)

/-- The exponent of the scientific form, its size computed in words. -/
def exponentInWords (exponent : Int32) : Except WordError Text := do
  let size ← word |exponent.toInt|
  let digits := Decimal.ofNat size.toInt.toNat
  .ok ((if exponent < 0 then '-' else '+') ::
    if digits.length < 2 then '0' :: digits else digits)

/-- The number of digits behind the point, computed in words from the number of significant ones. -/
def decimalsInWords (digits exponent : Int32) : Except WordError Nat := do
  let last ← word (digits.toInt - 1)
  let decimals ← word (last.toInt - exponent.toInt)
  if decimals < 0 then .error .negativeDecimals else .ok decimals.toInt.toNat

/-- The text of a finite double other than zero, by way of texts and words. -/
def writeInWords (x : Double) (precision : Nat) : Except WordError Text := do
  let p := max precision 1
  let (mantissa, exponent) ← readScientific (scientificText (p - 1) x)
  let digits ← word p
  if exponent < -4 ∨ digits ≤ exponent then
    let written ← exponentInWords exponent
    .ok (trimFraction mantissa ++ 'e' :: written)
  else
    let decimals ← decimalsInWords digits exponent
    .ok (trimFraction (fixedText decimals x))

/-- A number within its bounds fits a word, which denotes it. -/
theorem exists_word {n : ℤ} (hlow : -2 ^ 31 ≤ n) (hhigh : n < 2 ^ 31) :
    ∃ w, word n = .ok w ∧ w.toInt = n :=
  ⟨Int32.ofInt n, if_pos ⟨hlow, hhigh⟩, Int32.toInt_ofInt_of_le hlow hhigh⟩

private theorem readWord?_minus {digits : Text} (hne : digits ≠ [])
    (hdigits : digits.all Char.isDigit = true) :
    readWord? ('-' :: digits) = (word (-Decimal.value digits)).toOption :=
  if_pos ⟨hne, hdigits⟩

private theorem readWord?_unsigned {digits : Text} (hne : digits ≠ [])
    (hdigits : digits.all Char.isDigit = true) :
    readWord? digits = (word (Decimal.value digits)).toOption := by
  obtain ⟨c, rest, rfl⟩ := List.exists_cons_of_ne_nil hne
  have hc : c ≠ '+' ∧ c ≠ '-' := by
    constructor <;> rintro rfl <;> simp at hdigits
  rw [readWord?]
  simp only [List.head?_cons, Option.some.injEq, hc.1, hc.2, or_self, if_false]
  exact if_pos ⟨hne, hdigits⟩

/-- The decimal text of an integer that fits a word is read as that word. -/
theorem exists_readWord? {n : ℤ} (hlow : -2 ^ 31 ≤ n) (hhigh : n < 2 ^ 31) :
    ∃ w, readWord? (Decimal.ofInt n) = some w ∧ w.toInt = n := by
  obtain ⟨w, hword, hw⟩ := exists_word hlow hhigh
  have hne := Decimal.ofNat_ne_nil n.natAbs
  have hdigits : (Decimal.ofNat n.natAbs).all Char.isDigit = true :=
    List.all_eq_true.mpr fun c hc => Decimal.isDigit_of_mem_ofNat hc
  refine ⟨w, ?_, hw⟩
  rw [Decimal.ofInt]
  split
  · rw [readWord?_minus hne hdigits, Decimal.value_ofNat, show -(n.natAbs : ℤ) = n by omega, hword]
    rfl
  · rw [readWord?_unsigned hne hdigits, Decimal.value_ofNat, show (n.natAbs : ℤ) = n by omega,
      hword]
    rfl

/-- A text is cut at the first occurrence of a character. -/
theorem cutAt?_append {c : Char} {s : Text} (h : c ∉ s) (rest : Text) :
    cutAt? c (s ++ c :: rest) = some (s, rest) := by
  have hs : ∀ d ∈ s, decide (d ≠ c) = true := fun d hd => decide_eq_true fun hdc => h (hdc ▸ hd)
  obtain ⟨htake, hdrop⟩ := Text.takeWhile_dropWhile_append hs (b := c :: rest) (by simp)
  rw [cutAt?, htake, hdrop]

/-- Dropping from the end stops at an element that is not dropped. -/
theorem rdropWhile_append_cons {p : Char → Bool} {c : Char} (h : p c = false) (s t : Text) :
    (s ++ c :: t).rdropWhile p = s ++ c :: t.rdropWhile p := by
  induction t using List.reverseRecOn with
  | nil => rw [List.rdropWhile_concat_neg (h := by simp [h]), List.rdropWhile_nil]
  | append_singleton init d ih =>
    rw [← List.cons_append, ← List.append_assoc, List.rdropWhile_concat, List.rdropWhile_concat]
    split
    · exact ih
    · rw [List.append_assoc, List.cons_append]

private theorem rdropWhile_of_notMem {c : Char} {t : Text} (h : c ∉ t) :
    t.rdropWhile (· = c) = t := by
  refine List.rdropWhile_eq_self_iff.mpr fun hne hlast => h ?_
  rw [← of_decide_eq_true hlast]
  exact List.getLast_mem hne

/-- The zeros at the end of a fraction are left out, and the point before it with the last of
them. -/
theorem trimFraction_append {t fraction : Text} (ht : '.' ∉ t) (hfraction : '.' ∉ fraction) :
    trimFraction (t ++ Numeral.fractionText fraction) =
      t ++ Numeral.fractionText (fraction.rdropWhile (· = '0')) := by
  cases fraction with
  | nil =>
    rw [List.rdropWhile_nil, Numeral.fractionText, List.append_nil, trimFraction,
      if_neg (by simpa using ht)]
  | cons c rest =>
    have htrim : trimFraction (t ++ Numeral.fractionText (c :: rest)) =
        (t ++ '.' :: (c :: rest).rdropWhile (· = '0')).rdropWhile (· = '.') := by
      rw [← rdropWhile_append_cons (p := (· = '0')) rfl]
      exact if_pos (by simp [Numeral.fractionText])
    have hkept : '.' ∉ (c :: rest).rdropWhile (· = '0') :=
      fun h => hfraction ((List.rdropWhile_prefix _ _).subset h)
    rw [htrim]
    -- The point is the last character, and goes, only if the fraction was all zeros.
    cases hk : (c :: rest).rdropWhile (· = '0') with
    | nil =>
      rw [List.rdropWhile_concat_pos (h := rfl), rdropWhile_of_notMem ht]
      exact (List.append_nil t).symm
    | cons k kept =>
      rw [hk, List.mem_cons, not_or] at hkept
      have hsplit : t ++ '.' :: k :: kept = (t ++ ['.']) ++ k :: kept := by
        rw [List.append_assoc, List.singleton_append]
      rw [hsplit, rdropWhile_append_cons (decide_eq_false (Ne.symm hkept.1)),
        rdropWhile_of_notMem hkept.2, ← hsplit]
      rfl

section Text

variable {x : Double} {r : Rounded}

private theorem notMem_of_isDigit {c : Char} {t : Text} (hc : c.isDigit = false)
    (ht : ∀ d ∈ t, d.isDigit = true) : c ∉ t :=
  fun h => Bool.false_ne_true (hc.symm.trans (ht c h))

private theorem notMem_signText {c : Char} (hc : c ≠ '-') (x : Double) : c ∉ signText x := by
  rw [signText]
  split <;> simp [hc]

private theorem notMem_mantissaText : 'e' ∉ mantissaText x r := by
  have hdigits : ∀ d ∈ Decimal.ofNat r.digits, d.isDigit = true :=
    fun d => Decimal.isDigit_of_mem_ofNat
  have hsign : 'e' ∉ signText x := notMem_signText (by decide) x
  have hwhole : 'e' ∉ (Decimal.ofNat r.digits).take 1 :=
    notMem_of_isDigit rfl fun d hd => hdigits d (List.mem_of_mem_take hd)
  have hfraction : 'e' ∉ Numeral.fractionText ((Decimal.ofNat r.digits).drop 1) := by
    have hrest : 'e' ∉ (Decimal.ofNat r.digits).drop 1 :=
      notMem_of_isDigit rfl fun d hd => hdigits d (List.mem_of_mem_drop hd)
    cases hdrop : (Decimal.ofNat r.digits).drop 1 with
    | nil => exact List.not_mem_nil
    | cons d rest =>
      rw [hdrop] at hrest
      simpa [Numeral.fractionText] using hrest
  simp only [mantissaText, List.mem_append, hsign, hwhole, hfraction, or_self, not_false_eq_true]

private theorem trimFraction_signed {whole fraction : Text} (hwhole : ∀ d ∈ whole, d.isDigit = true)
    (hfraction : ∀ d ∈ fraction, d.isDigit = true) :
    trimFraction (signText x ++ whole ++ Numeral.fractionText fraction) =
      signText x ++ withFraction whole fraction := by
  have hbefore : '.' ∉ signText x ++ whole := by
    rw [List.mem_append, not_or]
    exact ⟨notMem_signText (by decide) x, notMem_of_isDigit rfl hwhole⟩
  rw [trimFraction_append hbefore (notMem_of_isDigit rfl hfraction), List.append_assoc,
    Numeral.withFraction_eq]

/-- Trimming the scientific text gives the scientific form of general notation. -/
theorem trimFraction_mantissaText :
    trimFraction (mantissaText x r) ++ 'e' :: exponentText r.exponent =
      signText x ++ scientific r := by
  have hdigits : ∀ d ∈ Decimal.ofNat r.digits, d.isDigit = true :=
    fun d => Decimal.isDigit_of_mem_ofNat
  rw [mantissaText, trimFraction_signed (fun d hd => hdigits d (List.mem_of_mem_take hd))
    (fun d hd => hdigits d (List.mem_of_mem_drop hd)), List.append_assoc, scientific]

/-- Trimming the fixed text gives the plain form of general notation. -/
theorem trimFraction_fixedText (decimals : Nat) :
    trimFraction (fixedText decimals x) = signText x ++ plain decimals x.ratio.1 x.ratio.2 := by
  set r : Rounded := ⟨nearest (x.ratio.1 * Nat.pow 10 decimals) x.ratio.2, 0⟩
  have hdigits : ∀ d ∈ r.padded decimals, d.isDigit = true := fun d => Rounded.isDigit_padded
  exact trimFraction_signed (fun d hd => hdigits d (List.mem_of_mem_take hd))
    (fun d hd => hdigits d (List.mem_of_mem_drop hd))

/-- The exponent is read from the scientific text. -/
theorem readScientific_scientificText {p : Nat} (hp : 1 ≤ p) (hnan : x.isNaN = false)
    (hinf : x.isInfinite = false) (hzero : x.isZero = false) :
    ∃ w, readScientific (scientificText (p - 1) x) =
        .ok (mantissaText x (.ofRatio p x.ratio.1 x.ratio.2), w) ∧
      w.toInt = (Rounded.ofRatio p x.ratio.1 x.ratio.2).exponent := by
  obtain ⟨hlow, hhigh⟩ := Rounded.exponent_bounds hnan hinf hzero hp
  obtain ⟨w, hread, hw⟩ :=
    exists_readWord? (hlow.trans' (by norm_num)) (hhigh.trans_lt (by norm_num))
  refine ⟨w, ?_, hw⟩
  rw [scientificText, Nat.sub_add_cancel hp, readScientific, cutAt?_append notMem_mantissaText]
  dsimp only
  rw [hread]

end Text

/-- The exponent is written in words as it is without them, unless it is the least one. -/
theorem exponentInWords_eq {exponent : Int32} (h : -2 ^ 31 < exponent.toInt) :
    exponentInWords exponent = .ok (exponentText exponent.toInt) := by
  have hnonneg : 0 ≤ |exponent.toInt| := abs_nonneg _
  obtain ⟨size, hword, hsize⟩ :=
    exists_word (hnonneg.trans' (by norm_num)) (abs_lt.mpr ⟨h, exponent.toInt_lt⟩)
  have habs : size.toInt.toNat = exponent.toInt.natAbs := by
    rw [hsize, Int.abs_eq_natAbs, Int.toNat_natCast]
  have hsign : exponent < 0 ↔ exponent.toInt < 0 := Int32.lt_iff_toInt_lt
  refine bind_eq_ok.mpr ⟨size, hword, ?_⟩
  simp only [exponentText, habs, hsign]

/-- The number of digits behind the point comes out in words as it does without them, in their
bounds. -/
theorem decimalsInWords_eq {digits exponent : Int32} {p : Nat} (hdigits : digits.toInt = p)
    (hone : 1 ≤ p) (hfits : p - exponent.toInt ≤ 2 ^ 31) (hplain : exponent.toInt < p) :
    decimalsInWords digits exponent = .ok (decimals p exponent.toInt) := by
  have hbound := digits.toInt_lt
  obtain ⟨last, hlast, hlast'⟩ := exists_word (n := digits.toInt - 1) (by omega) (by omega)
  obtain ⟨behind, hbehind, hbehind'⟩ :=
    exists_word (n := last.toInt - exponent.toInt) (by omega) (by omega)
  have hnonneg : ¬behind < 0 := by
    rw [Int32.lt_iff_toInt_lt, Int32.toInt_zero]
    omega
  refine bind_eq_ok.mpr ⟨last, hlast, bind_eq_ok.mpr ⟨behind, hbehind, ?_⟩⟩
  rw [if_neg hnonneg, hbehind', hlast', hdigits, decimals]

/-- No step in words fails, and the text is that of exact notation. -/
theorem writeInWords_eq {x : Double} {precision : Nat} (hp : precision < 2 ^ 30)
    (hnan : x.isNaN = false) (hinf : x.isInfinite = false) (hzero : x.isZero = false) :
    writeInWords x precision = .ok (write x precision) := by
  have hwrite : write x precision =
      signText x ++ magnitudeText (max precision 1) x.ratio.1 x.ratio.2 := by
    rw [write, hnan, hinf, hzero, signText]
    cases x.negative <;> rfl
  have hone : 1 ≤ max precision 1 := Nat.le_max_right _ _
  have hmax : max precision 1 < 2 ^ 30 := Nat.max_lt.mpr ⟨hp, by norm_num⟩
  rw [hwrite, magnitudeText, writeInWords]
  dsimp only
  generalize max precision 1 = p at *
  obtain ⟨exponent, hread, hexponent⟩ := readScientific_scientificText hone hnan hinf hzero
  obtain ⟨hlow, hhigh⟩ := Rounded.exponent_bounds hnan hinf hzero hone
  obtain ⟨digits, hword, hdigits⟩ := exists_word (n := p) (by omega) (by omega)
  set r := Rounded.ofRatio p x.ratio.1 x.ratio.2
  have hsize : -2 ^ 31 < exponent.toInt := by omega
  have hfits : p - exponent.toInt ≤ 2 ^ 31 := by omega
  have hminus : (-4 : Int32).toInt = -4 := by decide
  have hform : exponent < -4 ∨ digits ≤ exponent ↔ isScientific p r = true := by
    simp [isScientific, Int32.lt_iff_toInt_lt, Int32.le_iff_toInt_le, hexponent, hdigits, hminus]
  refine bind_eq_ok.mpr ⟨_, hread, bind_eq_ok.mpr ⟨digits, hword, ?_⟩⟩
  by_cases hs : isScientific p r = true
  · rw [if_pos hs, if_pos (hform.mpr hs), ← trimFraction_mantissaText, ← hexponent]
    exact bind_eq_ok.mpr ⟨_, exponentInWords_eq hsize, rfl⟩
  · have hplain : exponent.toInt < p := by
      rw [← hform, not_or, Int32.le_iff_toInt_le, hdigits] at hs
      exact not_le.mp hs.2
    rw [if_neg hs, if_neg (mt hform.mp hs), ← trimFraction_fixedText, ← hexponent]
    exact bind_eq_ok.mpr ⟨_, decimalsInWords_eq hdigits hone hfits hplain, rfl⟩

end General

end Literate
