/-!
# Rounding a quotient

The integer nearest to a quotient of natural numbers. A quotient halfway between two integers goes
to the even one.
-/

namespace Literate

/-- The integer nearest to `n / d`, the even one of two. -/
def nearest (n d : Nat) : Nat :=
  if 2 * (n % d) < d then n / d
  else if d < 2 * (n % d) then n / d + 1
  else n / d + n / d % 2

/-- The nearest integer is at most half a unit below the quotient. -/
theorem le_two_nearest {n d : Nat} (hd : 0 < d) : 2 * n ≤ (2 * nearest n d + 1) * d := by
  have h := Nat.div_add_mod n d
  have hm := Nat.mod_lt n hd
  have h2 : n / d % 2 = 0 ∨ n / d % 2 = 1 := by omega
  unfold nearest
  generalize n / d = q at *
  generalize n % d = r at *
  split
  · grind
  · split <;> rcases h2 with h2 | h2 <;> grind

/-- The nearest integer is at most half a unit above the quotient. -/
theorem two_nearest_le {n d : Nat} (hd : 0 < d) : 2 * nearest n d * d ≤ 2 * n + d := by
  have h := Nat.div_add_mod n d
  have h2 : n / d % 2 = 0 ∨ n / d % 2 = 1 := by omega
  unfold nearest
  generalize n / d = q at *
  generalize n % d = r at *
  split
  · grind
  · split <;> rcases h2 with h2 | h2 <;> grind

/-- A quotient halfway between two integers goes to the even one. -/
theorem nearest_even_of_tie {n d : Nat} (h : 2 * (n % d) = d) : nearest n d % 2 = 0 := by
  unfold nearest
  rw [h]
  simp only [Nat.lt_irrefl, if_false]
  omega

end Literate
