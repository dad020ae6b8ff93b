import Mathlib.Algebra.Order.Ring.Rat
import Mathlib.Tactic.NormNum
import Mathlib.Tactic.Ring

/-!
# Arithmetic on doubles

A result of an operation is the exact one, rounded to a mantissa of 53 bits, ties to the even one.
Overflow and the numbers below `2 ^ -1022` are left out.

* `toDouble`: the double at a quotient of naturals.
* `rounded`: the double at a rational.
* `roundTenths`: a double rounded to one decimal.
-/

namespace NetworkProxy
namespace Doubles

/-- `n / d` as an integer, ties to the even one. -/
def halfEven (n d : ℕ) : ℕ :=
  if 2 * (n % d) < d ∨ (2 * (n % d) = d ∧ n / d % 2 = 0) then n / d else n / d + 1

@[simp] theorem halfEven_one (n : ℕ) : halfEven n 1 = n := by
  simp [halfEven, Nat.mod_one]

/-- The double at `n / d`: a mantissa of 53 bits, times or over a power of two. -/
def toDouble (n d : ℕ) : ℕ × ℕ :=
  let up := 52 + d.log2 - n.log2
  let down := n.log2 - (52 + d.log2)
  -- the quotient is then above `2 ^ 51`, and below `2 ^ 53`
  let scaled := n * 2 ^ up
  let divisor := d * 2 ^ down
  if scaled < 2 ^ 52 * divisor then (halfEven (2 * scaled) divisor * 2 ^ down, 2 ^ (up + 1))
  else (halfEven scaled divisor * 2 ^ down, 2 ^ up)

/-- The double at a rational. -/
def rounded (x : ℚ) : ℚ :=
  let magnitude := toDouble x.num.natAbs x.den
  if x < 0 then -(magnitude.1 / magnitude.2) else magnitude.1 / magnitude.2

/-- The nearest integer, ties to the even one. -/
def roundHalfEven (x : ℚ) : ℤ :=
  let magnitude := halfEven x.num.natAbs x.den
  if x < 0 then -magnitude else magnitude

/-- `round(x, 1)` of a double, in tenths: the exact value of the double decides. -/
def roundTenths (x : ℚ) : ℤ := roundHalfEven (x * 10)

example : roundTenths (rounded (rounded (1 / 2000) * 100)) = 1 ∧
    roundTenths (rounded (rounded (2 / 3) * 100)) = 667 ∧
    rounded (2 ^ 53 + 1) = 2 ^ 53 ∧ rounded (2 ^ 60 + 129) = 2 ^ 60 + 256 := by
  decide +kernel

/-! ## Bounds -/

/-- Rounding does not go beyond an integer. -/
theorem halfEven_le {n d m : ℕ} (h : n ≤ m * d) : halfEven n d ≤ m := by
  have hdiv : n / d ≤ m := Nat.div_le_of_le_mul (by rwa [Nat.mul_comm])
  have hparts := Nat.div_add_mod n d
  rw [halfEven]
  split
  · exact hdiv
  · rename_i hhalf
    rw [not_or, not_lt] at hhalf
    rcases hdiv.lt_or_eq with hlt | rfl
    · exact hlt
    · rw [Nat.mul_comm] at h
      have hwhole : n % d = 0 := by omega
      rw [hwhole] at hhalf
      have hzero : d = 0 := by omega
      simp [hzero] at hhalf

theorem log2_lt_of_le {n d m : ℕ} (hd : 0 < d) (h : n ≤ m * d) (hm : m < 2 ^ 51) :
    n.log2 < 52 + d.log2 := by
  by_cases hn : n = 0
  · simp [hn]
  · refine (Nat.log2_lt hn).mpr (h.trans_lt ?_)
    calc m * d < 2 ^ 51 * d := Nat.mul_lt_mul_of_pos_right hm hd
      _ < 2 ^ 51 * 2 ^ (d.log2 + 1) := by
          exact Nat.mul_lt_mul_of_pos_left Nat.lt_log2_self (by norm_num)
      _ = 2 ^ (52 + d.log2) := by rw [← Nat.pow_add]; congr 1; omega

theorem toDouble_le {n d m : ℕ} (hd : 0 < d) (h : n ≤ m * d) (hm : m < 2 ^ 51) :
    (toDouble n d).1 ≤ m * (toDouble n d).2 := by
  have hdown : n.log2 - (52 + d.log2) = 0 := by
    have := log2_lt_of_le hd h hm
    omega
  have hscaled (up : ℕ) : n * 2 ^ up ≤ m * 2 ^ up * d := by
    calc n * 2 ^ up ≤ m * d * 2 ^ up := Nat.mul_le_mul_right _ h
      _ = m * 2 ^ up * d := by ring
  rw [toDouble]
  simp only [hdown, pow_zero, mul_one]
  split
  · refine halfEven_le ?_
    calc 2 * (n * 2 ^ (52 + d.log2 - n.log2)) = n * 2 ^ (52 + d.log2 - n.log2 + 1) := by ring
      _ ≤ m * 2 ^ (52 + d.log2 - n.log2 + 1) * d := hscaled _
  · exact halfEven_le (hscaled _)

theorem natAbs_num_le {x : ℚ} {m : ℕ} (hx : 0 ≤ x) (h : x ≤ m) : x.num.natAbs ≤ m * x.den := by
  have hnum : x.num ≤ m * x.den := by
    rw [Rat.le_iff] at h
    simpa using h
  have hnonneg : 0 ≤ x.num := Rat.num_nonneg.mpr hx
  have hcast : ((m * x.den : ℕ) : ℤ) = m * x.den := by push_cast; rfl
  omega

theorem rounded_nonneg {x : ℚ} (hx : 0 ≤ x) : 0 ≤ rounded x := by
  rw [rounded]
  rw [if_neg (not_lt.mpr hx)]
  exact div_nonneg (Nat.cast_nonneg _) (Nat.cast_nonneg _)

/-- An integer bounds what is rounded. -/
theorem rounded_le {x : ℚ} {m : ℕ} (hx : 0 ≤ x) (h : x ≤ m) (hm : m < 2 ^ 51) :
    rounded x ≤ m := by
  have hmagnitude := toDouble_le x.den_pos (natAbs_num_le hx h) hm
  rw [rounded]
  rw [if_neg (not_lt.mpr hx)]
  exact div_le_of_le_mul₀ (Nat.cast_nonneg _) (Nat.cast_nonneg _) (by exact_mod_cast hmagnitude)

theorem roundTenths_nonneg {x : ℚ} (hx : 0 ≤ x) : 0 ≤ roundTenths x := by
  have htenths : 0 ≤ x * 10 := mul_nonneg hx (by norm_num)
  rw [roundTenths, roundHalfEven]
  rw [if_neg (not_lt.mpr htenths)]
  exact Int.natCast_nonneg _

theorem roundTenths_le {x : ℚ} {m : ℕ} (hx : 0 ≤ x) (h : x ≤ m) : roundTenths x ≤ 10 * m := by
  have htenths : 0 ≤ x * 10 := mul_nonneg hx (by norm_num)
  have hle : x * 10 ≤ (10 * m : ℕ) := by
    push_cast
    rw [mul_comm 10]
    exact mul_le_mul_of_nonneg_right h (by norm_num)
  rw [roundTenths, roundHalfEven]
  rw [if_neg (not_lt.mpr htenths)]
  exact_mod_cast halfEven_le (natAbs_num_le htenths hle)

end Doubles
end NetworkProxy
