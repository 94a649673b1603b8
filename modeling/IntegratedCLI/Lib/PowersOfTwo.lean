import Mathlib.Algebra.Group.Nat.Defs
import Mathlib.Data.Nat.Size
import Mathlib.Order.Bounds.Basic

/-!
# Powers of two around a number

`Nat.size n` is the length of `n` in binary.  The smallest power of two that is not below
`n` is `2 ^ (n - 1).size`, and the largest one that is not above `n` is `2 ^ (n.size - 1)`.

`smear` sets every bit below the highest one: it is a cascade of shifts by 1, 2, 4 and so
on, each of which is or-ed into what the ones before it have made.  After the shifts up to
`2 ^ (m - 1)` a bit is set if one of the `2 ^ m` bits from it on was (`testBit_smear`), so
that for a number of `2 ^ m` bits all the bits below the highest one are set (`smear_eq`).
-/

namespace PowersOfTwo

variable {n : ℕ}

/-! ## Rounding -/

theorem le_two_pow_iff (h : 0 < n) {k : ℕ} : n ≤ 2 ^ k ↔ (n - 1).size ≤ k := by
  rw [Nat.size_le]
  omega

/-- The exponent of the smallest power of two that is not below the number. -/
theorem isLeast_size (h : 0 < n) : IsLeast {k | n ≤ 2 ^ k} (n - 1).size :=
  ⟨(le_two_pow_iff h).mpr (Nat.le_refl _), fun _ hk => (le_two_pow_iff h).mp hk⟩

theorem isLeast_two_pow_size (h : 0 < n) :
    IsLeast {p | (∃ k, p = 2 ^ k) ∧ n ≤ p} (2 ^ (n - 1).size) := by
  refine ⟨⟨⟨_, rfl⟩, (isLeast_size h).1⟩, ?_⟩
  rintro p ⟨⟨k, rfl⟩, hk⟩
  exact Nat.pow_le_pow_right (by decide) ((isLeast_size h).2 hk)

theorem two_pow_le_iff (h : 0 < n) {k : ℕ} : 2 ^ k ≤ n ↔ k ≤ n.size - 1 := by
  have hpos : 0 < n.size := Nat.size_pos.mpr h
  rw [← Nat.lt_size]
  omega

/-- The largest power of two that is not above the number. -/
theorem isGreatest_two_pow_size (h : 0 < n) :
    IsGreatest {p | (∃ k, p = 2 ^ k) ∧ p ≤ n} (2 ^ (n.size - 1)) := by
  refine ⟨⟨⟨_, rfl⟩, (two_pow_le_iff h).mpr (Nat.le_refl _)⟩, ?_⟩
  rintro p ⟨⟨k, rfl⟩, hk⟩
  exact Nat.pow_le_pow_right (by decide) ((two_pow_le_iff h).mp hk)

/-- Below a number that is not a power of two there is as much room as up to it. -/
theorem size_sub_one (h : 0 < n) (hpow : ∀ k, n ≠ 2 ^ k) : (n - 1).size = n.size := by
  have hle : (n - 1).size ≤ n.size := Nat.size_le_size (Nat.sub_le n 1)
  refine Nat.le_antisymm hle ?_
  have hup : n ≤ 2 ^ (n - 1).size := (isLeast_size h).1
  exact Nat.size_le.mpr (Nat.lt_of_le_of_ne hup (hpow _))

/-! ## Smearing -/

def smear (shifts : List ℕ) (n : ℕ) : ℕ := shifts.foldl (fun n k => n ||| n >>> k) n

/-- The shifts 1, 2, 4 and so on. -/
def doublings (m : ℕ) : List ℕ := (List.range m).map (2 ^ ·)

theorem smear_doublings_succ (m n : ℕ) : smear (doublings (m + 1)) n =
    smear (doublings m) n ||| smear (doublings m) n >>> 2 ^ m := by
  unfold smear doublings
  rw [List.range_succ, List.map_append, List.foldl_append]
  rfl

theorem testBit_smear (m n i : ℕ) :
    (smear (doublings m) n).testBit i = true ↔ ∃ d < 2 ^ m, n.testBit (i + d) = true := by
  induction m generalizing i with
  | zero =>
    refine ⟨fun h => ⟨0, Nat.one_pos, h⟩, ?_⟩
    rintro ⟨d, hd, h⟩
    obtain rfl : d = 0 := Nat.lt_one_iff.mp hd
    exact h
  | succ m ih =>
    rw [smear_doublings_succ, Nat.testBit_or, Nat.testBit_shiftRight, Bool.or_eq_true, ih, ih]
    have hpow : 2 ^ (m + 1) = 2 ^ m + 2 ^ m := by omega
    constructor
    · rintro (⟨d, hd, h⟩ | ⟨d, hd, h⟩)
      · exact ⟨d, by omega, h⟩
      · refine ⟨2 ^ m + d, by omega, ?_⟩
        rw [← Nat.add_assoc, Nat.add_comm i]
        exact h
    · rintro ⟨d, hd, h⟩
      by_cases hlow : d < 2 ^ m
      · exact Or.inl ⟨d, hlow, h⟩
      · -- the bit is found by the last shift
        refine Or.inr ⟨d - 2 ^ m, by omega, ?_⟩
        rw [show 2 ^ m + i + (d - 2 ^ m) = i + d by omega]
        exact h

/-- The highest bit is set. -/
theorem testBit_size_sub_one (h : 0 < n) : n.testBit (n.size - 1) = true := by
  have hpos : 0 < n.size := Nat.size_pos.mpr h
  refine Nat.testBit_of_two_pow_le_and_two_pow_add_one_gt ?_ ?_
  · exact (two_pow_le_iff h).mpr (Nat.le_refl _)
  · rw [Nat.sub_add_cancel hpos]
    exact Nat.lt_size_self n

/-- **Smearing** a number that has room for `2 ^ m` bits. -/
theorem smear_eq {m : ℕ} (h : n < 2 ^ 2 ^ m) : smear (doublings m) n = 2 ^ n.size - 1 := by
  refine Nat.eq_of_testBit_eq fun i => ?_
  rw [Nat.testBit_two_pow_sub_one, Bool.eq_iff_iff, testBit_smear, decide_eq_true_iff]
  constructor
  · rintro ⟨d, _, hd⟩
    have hlt : i + d < n.size := Nat.lt_size.mpr (Nat.ge_two_pow_of_testBit hd)
    omega
  · intro hi
    have hwidth : n.size ≤ 2 ^ m := Nat.size_le.mpr h
    refine ⟨n.size - 1 - i, by omega, ?_⟩
    rw [show i + (n.size - 1 - i) = n.size - 1 by omega]
    exact testBit_size_sub_one (Nat.size_pos.mp (by omega))

end PowersOfTwo
