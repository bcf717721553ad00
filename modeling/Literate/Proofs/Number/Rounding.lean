import Mathlib.Algebra.Order.Field.Power
import Mathlib.Data.Int.Log
import Mathlib.Data.Rat.Floor
import Mathlib.Tactic.FieldSimp
import Mathlib.Tactic.Linarith
import Mathlib.Tactic.Positivity
import Mathlib.Tactic.Ring
import Literate.Number.General

/-!
# Rounding to significant digits

A rational number has one nearest integer once ties go to the even one, and a number rounded to `p`
significant digits is the nearest multiple of the unit that its leading digit is `p - 1` places
above. The digits and the exponent that general notation computes from a quotient of natural numbers
are those of the rounded number. If rounding adds a digit, rounding once more in the units of the
larger exponent gives the same number.
-/

namespace Literate

/-! ## The nearest integer -/

/-- An integer is nearest to a number, and it is even if another integer is as near. -/
structure IsNearest (x : ℚ) (k : ℤ) : Prop where
  near : |x - k| ≤ 1 / 2
  even : |x - k| = 1 / 2 → Even k

/-- The integer nearest to a number, the even one of two. -/
def roundEven (x : ℚ) : ℤ :=
  if Int.fract x < 1 / 2 then ⌊x⌋
  else if 1 / 2 < Int.fract x then ⌊x⌋ + 1
  else if Even ⌊x⌋ then ⌊x⌋ else ⌊x⌋ + 1

namespace IsNearest

variable {x : ℚ} {k l : ℤ}

private theorem not_lt (hk : IsNearest x k) (hl : IsNearest x l) : ¬ k < l := by
  intro hlt
  have h1 := (abs_le.1 hk.near).2
  have h2 := (abs_le.1 hl.near).1
  have hstep : l = k + 1 := by
    have : (l : ℚ) < k + 2 := by linarith
    have : l < k + 2 := by exact_mod_cast this
    omega
  -- Both are half a unit away, and one of two neighbours is odd.
  subst hstep
  push_cast at h2
  have hx : x = k + 1 / 2 := by linarith
  have hk' := hk.even (by rw [hx]; norm_num)
  have hl' := hl.even (by rw [hx]; push_cast; rw [abs_eq (by norm_num)]; right; ring)
  rw [Int.even_iff] at hk' hl'
  omega

/-- No other integer is nearest. -/
theorem eq (hk : IsNearest x k) (hl : IsNearest x l) : k = l :=
  le_antisymm (Int.not_lt.1 (hl.not_lt hk)) (Int.not_lt.1 (hk.not_lt hl))

/-- What is nearest to the negative of a number is the negative of what is nearest to it. -/
theorem neg (h : IsNearest x k) : IsNearest (-x) (-k) := by
  have hdist : |-x - ((-k : ℤ) : ℚ)| = |x - k| := by
    rw [← abs_neg]; push_cast; ring_nf
  exact ⟨hdist ▸ h.near, fun ht => (h.even (hdist ▸ ht)).neg⟩

/-- Rounding does not pass an integer on the way down. -/
theorem le_of_le (h : IsNearest x k) (hl : (l : ℚ) ≤ x) : l ≤ k := by
  by_contra hlt
  have hstep : (k : ℚ) + 1 ≤ l := by exact_mod_cast Int.not_le.1 hlt
  have := (abs_le.1 h.near).2
  linarith

/-- Rounding does not pass an integer on the way up. -/
theorem ge_of_ge (h : IsNearest x k) (hl : x ≤ l) : k ≤ l := by
  by_contra hlt
  have hstep : (l : ℚ) + 1 ≤ k := by exact_mod_cast Int.not_le.1 hlt
  have := (abs_le.1 h.near).1
  linarith

/-- An integer less than half a unit away is nearest. -/
theorem of_abs_lt (h : |x - k| < 1 / 2) : IsNearest x k :=
  ⟨h.le, fun ht => absurd ht h.ne⟩

end IsNearest

/-- Rounding gives a nearest integer. -/
theorem isNearest_roundEven (x : ℚ) : IsNearest x (roundEven x) := by
  have hx : x - ⌊x⌋ = Int.fract x := rfl
  have h0 := Int.fract_nonneg x
  have h1 := Int.fract_lt_one x
  rw [roundEven]
  split_ifs with hlow hhigh heven
  · exact .of_abs_lt (by rw [hx, abs_of_nonneg h0]; exact hlow)
  · refine .of_abs_lt (abs_lt.2 ⟨?_, ?_⟩) <;> push_cast <;> linarith
  · exact ⟨by rw [hx, abs_of_nonneg h0]; linarith, fun _ => heven⟩
  · refine ⟨abs_le.2 ⟨?_, ?_⟩, fun _ => (Int.not_even_iff_odd.1 heven).add_one⟩ <;>
      push_cast <;> linarith

/-- No integer is nearest but the rounded one. -/
theorem IsNearest.eq_roundEven {x : ℚ} {k : ℤ} (h : IsNearest x k) : k = roundEven x :=
  h.eq (isNearest_roundEven x)

private theorem roundEven_neg (x : ℚ) : roundEven (-x) = -roundEven x :=
  (isNearest_roundEven x).neg.eq_roundEven.symm

/-- A quotient of natural numbers is half a unit away from an integer only if half of the divisor
remains. -/
theorem two_mod_eq_of_tie {n d k : Nat} (hd : 0 < d)
    (h : 2 * n = (2 * k + 1) * d ∨ 2 * n + d = 2 * k * d) : 2 * (n % d) = d := by
  rw [← Nat.mul_mod_mul_left]
  have hstep : ∃ j, 2 * n = d + 2 * d * j := by
    obtain h | h := h
    · exact ⟨k, by rw [h]; ring⟩
    · cases k with
      | zero => omega
      | succ k => exact ⟨k, by linarith⟩
  obtain ⟨j, hj⟩ := hstep
  rw [hj, Nat.add_mul_mod_self_left, Nat.mod_eq_of_lt (by omega)]

/-- The nearest integer as it is computed from a quotient of natural numbers. -/
theorem isNearest_nearest (n : Nat) {d : Nat} (hd : 0 < d) :
    IsNearest ((n : ℚ) / d) (nearest n d) := by
  have hdq : (0 : ℚ) < 2 * d := by exact_mod_cast Nat.mul_pos two_pos hd
  have hle : (2 * n : ℚ) ≤ (2 * nearest n d + 1) * d := by exact_mod_cast le_two_nearest hd
  have hge : (2 * nearest n d * d : ℚ) ≤ 2 * n + d := by exact_mod_cast two_nearest_le (n := n) hd
  have hdist : (n : ℚ) / d - ((nearest n d : ℤ) : ℚ) =
      (2 * n - 2 * nearest n d * d) / (2 * d) := by
    push_cast
    field_simp
  have hhalf : (1 : ℚ) / 2 = d / (2 * d) := by field_simp
  constructor
  · rw [hdist, hhalf, abs_div, abs_of_pos hdq, div_le_div_iff_of_pos_right hdq, abs_le]
    constructor <;> linarith
  · rw [hdist, hhalf, abs_div, abs_of_pos hdq, div_left_inj' hdq.ne',
      abs_eq (by exact_mod_cast hd.le)]
    intro ht
    have htie : 2 * n = (2 * nearest n d + 1) * d ∨ 2 * n + d = 2 * nearest n d * d := by
      refine ht.imp (fun h => ?_) fun h => ?_
      · have : (2 * n : ℚ) = (2 * nearest n d + 1) * d := by linarith
        exact_mod_cast this
      · have : (2 * n + d : ℚ) = 2 * nearest n d * d := by linarith
        exact_mod_cast this
    exact_mod_cast Nat.even_iff.2 (nearest_even_of_tie (two_mod_eq_of_tie hd htie))

/-! ## Significant digits -/

/-- The unit of the last of `p` significant digits of a number. -/
def lastUnit (p : Nat) (x : ℚ) : ℚ :=
  10 ^ (Int.log 10 |x| + 1 - p)

/-- A number rounded to `p` significant digits. -/
def significant (p : Nat) (x : ℚ) : ℚ :=
  roundEven (x / lastUnit p x) * lastUnit p x

/-- Rounding to significant digits does not depend on the sign. -/
theorem significant_neg (p : Nat) (x : ℚ) : significant p (-x) = -significant p x := by
  simp only [significant, lastUnit, abs_neg, neg_div, roundEven_neg, Int.cast_neg, neg_mul]

/-- The leading place of a number between two powers of ten next to each other. -/
theorem log_eq_of_bounds {x : ℚ} {e : ℤ} (hle : (10 : ℚ) ^ e ≤ x) (hlt : x < 10 ^ (e + 1)) :
    Int.log 10 x = e := by
  have hpos : 0 < x := (zpow_pos (by norm_num) e).trans_le hle
  have h1 := (Int.zpow_le_iff_le_log (by norm_num : 1 < 10) hpos).1 (by exact_mod_cast hle)
  have h2 := (Int.lt_zpow_iff_log_lt (by norm_num : 1 < 10) hpos).1 (by exact_mod_cast hlt)
  omega

namespace Decimal

/-- Every number has a digit. -/
theorem size_pos (n : Nat) : 0 < size n :=
  List.length_pos_iff.2 (ofNat_ne_nil n)

/-- A number has at most so many digits exactly if it is below that power of ten. -/
theorem size_le_iff {n k : Nat} (hk : 0 < k) : size n ≤ k ↔ n < 10 ^ k :=
  Nat.length_toDigits_le_iff (by decide) hk

/-- The number of digits tells the leading place. -/
theorem log_natCast {n : Nat} (hn : 0 < n) : Int.log 10 (n : ℚ) = size n - 1 := by
  have hsize := size_pos n
  have hlt : n < 10 ^ size n := (size_le_iff hsize).1 le_rfl
  have hle : 10 ^ (size n - 1) ≤ n := by
    rcases Nat.eq_zero_or_pos (size n - 1) with h | h
    · rw [h]
      exact hn
    · by_contra hlt
      have := (size_le_iff h).2 (Nat.not_le.1 hlt)
      omega
  apply log_eq_of_bounds
  · have : ((10 ^ (size n - 1) : Nat) : ℚ) ≤ n := by exact_mod_cast hle
    rw [show (size n : ℤ) - 1 = (size n - 1 : Nat) by omega, zpow_natCast]
    exact_mod_cast this
  · rw [sub_add_cancel, zpow_natCast]
    exact_mod_cast hlt

end Decimal

namespace Rounded

variable {p n d : Nat}

/-- The number that `p` digits and the exponent of the first of them denote. -/
def value (p : Nat) (r : Rounded) : ℚ :=
  r.digits * 10 ^ (r.exponent + 1 - p)

/-- A positive number is rounded to `p` digits. The first of them is not zero, and they are also
nearest in the units that their own exponent gives. -/
structure Rounds (p : Nat) (x : ℚ) (r : Rounded) : Prop where
  pow_le : 10 ^ (p - 1) ≤ r.digits
  lt_pow : r.digits < 10 ^ p
  value_eq : r.value p = significant p x
  nearest : IsNearest (x * 10 ^ ((p : ℤ) - 1 - r.exponent)) r.digits

private theorem zpow_eq_div (s : ℤ) : (10 : ℚ) ^ s = 10 ^ s.toNat / 10 ^ (-s).toNat := by
  rw [← zpow_natCast, ← zpow_natCast, ← zpow_sub₀ (by norm_num)]
  congr 1
  omega

/-- The decimal exponent is the integer part of the logarithm. -/
theorem decimalExponent_eq_log (hn : 0 < n) (hd : 0 < d) :
    decimalExponent n d = Int.log 10 ((n : ℚ) / d) := by
  have hnq : (0 : ℚ) < n := by exact_mod_cast hn
  have hdq : (0 : ℚ) < d := by exact_mod_cast hd
  have hn1 := Int.zpow_log_le_self (by norm_num : 1 < 10) hnq
  have hn2 := Int.lt_zpow_succ_log_self (by norm_num : 1 < 10) (n : ℚ)
  have hd1 := Int.zpow_log_le_self (by norm_num : 1 < 10) hdq
  have hd2 := Int.lt_zpow_succ_log_self (by norm_num : 1 < 10) (d : ℚ)
  rw [Decimal.log_natCast hn] at hn1 hn2
  rw [Decimal.log_natCast hd] at hd1 hd2
  push_cast [sub_add_cancel] at hn1 hn2 hd1 hd2
  rw [decimalExponent]
  set a := Decimal.size n
  set b := Decimal.size d
  have hcond : d * Nat.pow 10 a ≤ n * Nat.pow 10 b ↔ (10 : ℚ) ^ ((a : ℤ) - b) ≤ n / d := by
    rw [zpow_sub₀ (by norm_num), div_le_div_iff₀ (by positivity) hdq, zpow_natCast, zpow_natCast,
      mul_comm d]
    exact_mod_cast Iff.rfl
  split
  case isTrue h =>
    refine (log_eq_of_bounds (hcond.1 h) ?_).symm
    rw [div_lt_iff₀ hdq]
    calc (n : ℚ) < 10 ^ (a : ℤ) := hn2
      _ = 10 ^ ((a : ℤ) - b + 1) * 10 ^ ((b : ℤ) - 1) := by
        rw [← zpow_add₀ (by norm_num)]; congr 1; ring
      _ ≤ _ := by gcongr
  case isFalse h =>
    refine (log_eq_of_bounds ?_ ?_).symm
    · rw [le_div_iff₀ hdq]
      calc (10 : ℚ) ^ ((a : ℤ) - b - 1) * d ≤ 10 ^ ((a : ℤ) - b - 1) * 10 ^ (b : ℤ) := by gcongr
        _ = 10 ^ ((a : ℤ) - 1) := by rw [← zpow_add₀ (by norm_num)]; congr 1; ring
        _ ≤ n := hn1
    · rw [sub_add_cancel]
      exact lt_of_not_ge (mt hcond.2 h)

/-- A quotient in the units of the last of `p` digits, as it is put to be rounded. -/
theorem scaled_eq (n d : Nat) (s : ℤ) :
    ((n * Nat.pow 10 s.toNat : Nat) : ℚ) / (d * Nat.pow 10 (-s).toNat : Nat) = n / d * 10 ^ s := by
  rw [zpow_eq_div, Nat.pow_eq, Nat.pow_eq]
  push_cast
  rw [mul_div_mul_comm]

/-- A positive number in the units of the last of its `p` digits. -/
theorem div_lastUnit {x : ℚ} (hx : 0 < x) :
    x / lastUnit p x = x * 10 ^ ((p : ℤ) - 1 - Int.log 10 x) := by
  rw [lastUnit, abs_of_pos hx, div_eq_mul_inv, ← zpow_neg]
  congr 2
  ring

/-- The leading digit of a number is `p - 1` places above the last of its `p` digits. -/
theorem div_lastUnit_bounds (hp : 1 ≤ p) {x : ℚ} (hx : 0 < x) :
    (10 : ℚ) ^ (p - 1) ≤ x / lastUnit p x ∧ x / lastUnit p x < 10 ^ p := by
  have hle := Int.zpow_log_le_self (by norm_num : 1 < 10) hx
  have hlt := Int.lt_zpow_succ_log_self (by norm_num : 1 < 10) x
  push_cast at hle hlt
  rw [div_lastUnit hx]
  set e := Int.log 10 x
  constructor
  · calc (10 : ℚ) ^ (p - 1)
      _ = 10 ^ e * 10 ^ ((p : ℤ) - 1 - e) := by
        rw [← zpow_add₀ (by norm_num), ← zpow_natCast]
        congr 1
        omega
      _ ≤ x * 10 ^ ((p : ℤ) - 1 - e) := by gcongr
  · calc x * 10 ^ ((p : ℤ) - 1 - e)
      _ < 10 ^ (e + 1) * 10 ^ ((p : ℤ) - 1 - e) := by gcongr
      _ = 10 ^ p := by
        rw [← zpow_add₀ (by norm_num), ← zpow_natCast]
        congr 1
        ring

/-- The digits that are computed before a carry is looked at. -/
theorem isNearest_digits (p : Nat) (hn : 0 < n) (hd : 0 < d) :
    let s : ℤ := p - 1 - decimalExponent n d
    IsNearest ((n : ℚ) / d / lastUnit p (n / d))
      (Literate.nearest (n * Nat.pow 10 s.toNat) (d * Nat.pow 10 (-s).toNat)) := by
  intro s
  have hx : (0 : ℚ) < n / d := div_pos (by exact_mod_cast hn) (by exact_mod_cast hd)
  rw [div_lastUnit hx, ← decimalExponent_eq_log hn hd, ← scaled_eq]
  exact isNearest_nearest _ (Nat.mul_pos hd (Nat.pow_pos (by decide)))

/-- A number that rounds up to the next power of ten is just below it, so that in units ten times
as large it rounds to the same power. -/
theorem isNearest_carry (hp : 1 ≤ p) {x : ℚ} (h : IsNearest x (10 ^ p : Nat)) (hlt : x < 10 ^ p) :
    IsNearest (x / 10) (10 ^ (p - 1) : Nat) := by
  have hnear := (abs_le.1 h.near).1
  have hpow : (10 : ℚ) ^ p = 10 * 10 ^ (p - 1) := by rw [← pow_succ', Nat.sub_add_cancel hp]
  push_cast at hnear
  refine .of_abs_lt (abs_lt.2 ⟨?_, ?_⟩) <;> push_cast <;> linarith

/-- The rounded quotient has the value of the number rounded to significant digits. -/
theorem rounds_ofRatio (hp : 1 ≤ p) (hn : 0 < n) (hd : 0 < d) :
    Rounds p (n / d) (ofRatio p n d) := by
  have hx : (0 : ℚ) < n / d := div_pos (by exact_mod_cast hn) (by exact_mod_cast hd)
  have hnear := isNearest_digits p hn hd
  dsimp only at hnear
  obtain ⟨hle, hlt⟩ := div_lastUnit_bounds hp hx
  have hlow := hnear.le_of_le (l := (10 ^ (p - 1) : Nat)) (by exact_mod_cast hle)
  have hhigh := hnear.ge_of_ge (l := (10 ^ p : Nat)) (by exact_mod_cast hlt.le)
  rw [ofRatio]
  generalize Literate.nearest _ _ = digits at *
  have hsig : significant p (n / d) = digits * lastUnit p (n / d) := by
    rw [significant, ← hnear.eq_roundEven, Int.cast_natCast]
  have hunit : lastUnit p ((n : ℚ) / d) = 10 ^ (decimalExponent n d + 1 - p) := by
    rw [lastUnit, abs_of_pos hx, decimalExponent_eq_log hn hd]
  split
  case isTrue h =>
    obtain rfl : digits = 10 ^ p := h
    have hten : (10 : ℚ) ^ p = 10 ^ (p - 1) * 10 := by rw [← pow_succ, Nat.sub_add_cancel hp]
    refine ⟨le_rfl, Nat.pow_lt_pow_right (by decide) (by omega), ?_, ?_⟩
    · rw [hsig, hunit, value, Nat.pow_eq]
      push_cast
      rw [hten, mul_assoc, ← zpow_one_add₀ (by norm_num)]
      congr 2
      ring
    · have hcarry := isNearest_carry hp hnear hlt
      rw [div_lastUnit hx, mul_div_assoc, div_eq_mul_inv _ (10 : ℚ),
        ← zpow_sub_one₀ (by norm_num), ← decimalExponent_eq_log hn hd, sub_sub] at hcarry
      exact hcarry
  case isFalse h =>
    refine ⟨by exact_mod_cast hlow, lt_of_le_of_ne (by exact_mod_cast hhigh) h, ?_, ?_⟩
    · rw [hsig, hunit, value]
    · rwa [decimalExponent_eq_log hn hd, ← div_lastUnit hx]

/-- The exponent of a rounded number is the place of its leading digit. -/
theorem Rounds.log_significant {x : ℚ} {r : Rounded} (h : Rounds p x r) (hp : 1 ≤ p) :
    Int.log 10 (significant p x) = r.exponent := by
  have hle : (10 : ℚ) ^ (p - 1) ≤ r.digits := by exact_mod_cast h.pow_le
  have hlt : (r.digits : ℚ) < 10 ^ p := by exact_mod_cast h.lt_pow
  rw [← h.value_eq, value]
  apply log_eq_of_bounds
  · calc (10 : ℚ) ^ r.exponent
      _ = 10 ^ (p - 1) * 10 ^ (r.exponent + 1 - p) := by
        rw [← zpow_natCast, ← zpow_add₀ (by norm_num)]
        congr 1
        omega
      _ ≤ r.digits * 10 ^ (r.exponent + 1 - p) := by gcongr
  · calc r.digits * (10 : ℚ) ^ (r.exponent + 1 - p)
      _ < 10 ^ p * 10 ^ (r.exponent + 1 - p) := by gcongr
      _ = 10 ^ (r.exponent + 1) := by
        rw [← zpow_natCast, ← zpow_add₀ (by norm_num)]
        congr 1
        ring

/-- Rounding again, to the digits that the exponent leaves after the point, gives the same ones. -/
theorem nearest_decimals (hp : 1 ≤ p) (hn : 0 < n) (hd : 0 < d)
    (hplain : (ofRatio p n d).exponent < p) :
    Literate.nearest (n * Nat.pow 10 (General.decimals p (ofRatio p n d).exponent)) d =
      (ofRatio p n d).digits := by
  have hnear := (rounds_ofRatio hp hn hd).nearest
  generalize ofRatio p n d = r at *
  have hscaled := scaled_eq n d (General.decimals p r.exponent)
  have hdec : ((General.decimals p r.exponent : Nat) : ℤ) = p - 1 - r.exponent := by
    rw [General.decimals]
    omega
  rw [Int.toNat_natCast, hdec, show (-((p : ℤ) - 1 - r.exponent)).toNat = 0 by omega] at hscaled
  change _ / ((d * 1 : Nat) : ℚ) = _ at hscaled
  rw [Nat.mul_one] at hscaled
  rw [← hscaled] at hnear
  exact_mod_cast (isNearest_nearest _ hd).eq hnear

end Rounded

end Literate
