import Mathlib.Tactic.Common
import IntegratedCLI.Lib.PowersOfTwo

/-!
# Powers of two of a machine word

`nextPow2`, `log2NextPow2` and `maxPow2LessEqualThan` of `System.h`.  The first two have an
overload for 32 and one for 64 bits, which differ in the shifts only.

`nextPow2` decrements, smears the highest bit and increments.  The increment wraps for a
number above `2 ^ (w - 1)`: there the result is zero, the smallest power of two that is not
below the number having no room.  `__builtin_ctz` has no defined value for zero, so there
`log2NextPow2` has none, and `maxPow2LessEqualThan`, which halves the next power of two,
is zero (`pow2_exact_iff`).
-/

namespace IntegratedCLI
namespace Common

/-! ## The functions -/

/-- Or in what is shifted right, for one shift after the other. -/
def smear {w : ℕ} (shifts : List ℕ) (n : BitVec w) : BitVec w :=
  shifts.foldl (fun n k => n ||| n >>> k) n

def nextPow2 {w : ℕ} (shifts : List ℕ) (n : BitVec w) : BitVec w := smear shifts (n - 1) + 1

/-- The trailing zeros, which are not defined for zero. -/
def builtinCtz {w : ℕ} (n : BitVec w) : Option ℕ := if n = 0 then none else some n.ctz.toNat

def nextPow2_uint32 (n : BitVec 32) : BitVec 32 := nextPow2 [1, 2, 4, 8, 16] n

def nextPow2_uint64 (n : BitVec 64) : BitVec 64 := nextPow2 [1, 2, 4, 8, 16, 32] n

def log2NextPow2_uint32 (n : BitVec 32) : Option ℕ := builtinCtz (nextPow2_uint32 n)

def log2NextPow2_uint64 (n : BitVec 64) : Option ℕ := builtinCtz (nextPow2_uint64 n)

def isPow2 (n : BitVec 64) : Bool := decide (0 < n) && decide ((n - 1) &&& n = 0)

def maxPow2LessEqualThan (n : BitVec 64) : BitVec 64 :=
  if isPow2 n then n else nextPow2_uint64 n >>> 1

/-! ## Words as numbers -/

section

open PowersOfTwo

variable {w : ℕ} {n : BitVec w}

theorem toNat_smear (shifts : List ℕ) (n : BitVec w) :
    (smear shifts n).toNat = PowersOfTwo.smear shifts n.toNat := by
  induction shifts generalizing n with
  | nil => rfl
  | cons k shifts ih =>
    refine (ih (n ||| n >>> k)).trans ?_
    rw [BitVec.toNat_or, BitVec.toNat_ushiftRight]
    rfl

theorem toNat_one (h : 0 < n.toNat) : (1 : BitVec w).toNat = 1 := by
  refine BitVec.toNat_one (Nat.pos_of_ne_zero ?_)
  rintro rfl
  rw [BitVec.eq_nil n] at h
  exact absurd h (Nat.lt_irrefl 0)

theorem toNat_sub_one (h : 0 < n.toNat) : (n - 1).toNat = n.toNat - 1 := by
  have hone := toNat_one h
  rw [BitVec.toNat_sub_of_le, hone]
  rw [BitVec.le_def, hone]
  exact h

/-- The next power of two, as far as it has room. -/
theorem toNat_nextPow2 {m : ℕ} (hw : w = 2 ^ m) (h : 0 < n.toNat) :
    (nextPow2 (doublings m) n).toNat = 2 ^ (n.toNat - 1).size % 2 ^ w := by
  have hlt : n.toNat < 2 ^ w := n.isLt
  have hsmear : (smear (doublings m) (n - 1)).toNat = 2 ^ (n.toNat - 1).size - 1 := by
    rw [toNat_smear, toNat_sub_one h, smear_eq]
    rw [← hw]
    omega
  have hpos : 0 < 2 ^ (n.toNat - 1).size := Nat.two_pow_pos _
  rw [nextPow2, BitVec.toNat_add, hsmear, toNat_one h, Nat.sub_add_cancel hpos]

theorem builtinCtz_two_pow {k : ℕ} (hn : n.toNat = 2 ^ k) :
    builtinCtz n = some k := by
  have hne : n ≠ 0 := by
    rintro rfl
    exact absurd hn.symm (by simp)
  rw [builtinCtz, if_neg hne]
  have hset := BitVec.getLsbD_true_ctz_of_ne_zero hne
  rw [← BitVec.testBit_toNat, hn, Nat.testBit_two_pow] at hset
  rw [of_decide_eq_true hset]

theorem isPow2_iff {n : BitVec 64} (h : 0 < n.toNat) :
    isPow2 n = true ↔ ∃ k, n.toNat = 2 ^ k := by
  have hpos : 0 < n := by
    rw [BitVec.lt_def]
    exact h
  have hmask : (n - 1) &&& n = 0 ↔ n.toNat &&& (n.toNat - 1) = 0 := by
    rw [← BitVec.toNat_inj, BitVec.toNat_and, toNat_sub_one h, Nat.and_comm]
    rfl
  rw [isPow2, decide_eq_true hpos, Bool.true_and, decide_eq_true_iff, hmask]
  exact Nat.and_sub_one_eq_zero_iff_isPowerOfTwo (Nat.ne_of_gt h)

/-! ## What is exact -/

/-- `next` is the smallest power of two that is not below the number, if that has room, and
`log2` is its exponent, whether it has room or not. -/
structure RoundsUp (n : BitVec w) (next : BitVec w) (log2 : Option ℕ) : Prop where
  next : ∀ p, IsLeast {p | (∃ k, p = 2 ^ k) ∧ n.toNat ≤ p} p → p < 2 ^ w → next.toNat = p
  log2 : ∀ k, IsLeast {k | n.toNat ≤ 2 ^ k} k → log2 = some k

/-- `max` is the largest power of two that is not above the number. -/
def RoundsDown (n max : BitVec w) : Prop :=
  IsGreatest {p | (∃ k, p = 2 ^ k) ∧ p ≤ n.toNat} max.toNat

theorem roundsUp_iff {m : ℕ} (hw : w = 2 ^ m) (h : 0 < n.toNat) :
    RoundsUp n (nextPow2 (doublings m) n) (builtinCtz (nextPow2 (doublings m) n)) ↔
      n.toNat ≤ 2 ^ (w - 1) := by
  have hnext := toNat_nextPow2 hw h
  have hexp := isLeast_size h
  have hwpos : 0 < w := hw ▸ Nat.two_pow_pos m
  have hroom : n.toNat ≤ 2 ^ (w - 1) ↔ (n.toNat - 1).size < w := by
    rw [le_two_pow_iff h]
    omega
  rw [hroom]
  constructor
  · intro hup
    by_contra hno
    -- the next power of two has wrapped
    have hsize : (n.toNat - 1).size = w := by
      have hle : (n.toNat - 1).size ≤ w := Nat.size_le.mpr (by have := n.isLt; omega)
      omega
    have hzero : nextPow2 (doublings m) n = 0 := by
      refine BitVec.eq_of_toNat_eq ?_
      rw [hnext, hsize, Nat.mod_self]
      rfl
    have hlog := hup.log2 _ hexp
    rw [hzero, builtinCtz, if_pos rfl] at hlog
    cases hlog
  · intro hlt
    have hpow : 2 ^ (n.toNat - 1).size < 2 ^ w := Nat.pow_lt_pow_right (by decide) hlt
    rw [Nat.mod_eq_of_lt hpow] at hnext
    refine ⟨fun p hp _ => ?_, fun k hk => ?_⟩
    · rw [hnext]
      exact (isLeast_two_pow_size h).unique hp
    · rw [builtinCtz_two_pow hnext, hexp.unique hk]

theorem roundsDown_iff {n : BitVec 64} (h : 0 < n.toNat) :
    RoundsDown n (maxPow2LessEqualThan n) ↔ n.toNat ≤ 2 ^ 63 := by
  unfold maxPow2LessEqualThan
  split
  · rename_i hpow
    obtain ⟨k, hk⟩ := (isPow2_iff h).mp hpow
    refine iff_of_true ⟨⟨⟨k, hk⟩, Nat.le_refl _⟩, fun p hp => hp.2⟩ ?_
    have hlt : 2 ^ k < 2 ^ 64 := hk ▸ n.isLt
    rw [hk]
    refine Nat.pow_le_pow_right (by decide) ?_
    have := (Nat.pow_lt_pow_iff_right (by decide)).mp hlt
    omega
  · rename_i hpow
    have hnot : ∀ k, n.toNat ≠ 2 ^ k := fun k hk => hpow ((isPow2_iff h).mpr ⟨k, hk⟩)
    have hnext : (nextPow2_uint64 n).toNat = 2 ^ n.toNat.size % 2 ^ 64 := by
      rw [← size_sub_one h hnot]
      exact toNat_nextPow2 (m := 6) rfl h
    have hpos : 0 < n.toNat.size := Nat.size_pos.mpr h
    have hsize : n.toNat.size ≤ 64 := Nat.size_le.mpr n.isLt
    unfold RoundsDown
    rw [BitVec.toNat_ushiftRight, hnext, Nat.shiftRight_eq_div_pow, Nat.pow_one]
    by_cases hlast : n.toNat.size = 64
    · -- half of what has wrapped is not a power of two
      rw [hlast, Nat.mod_self, Nat.zero_div]
      refine iff_of_false ?_ ?_
      · rintro ⟨⟨⟨k, hk⟩, _⟩, _⟩
        exact absurd hk.symm (Nat.ne_of_gt (Nat.two_pow_pos k))
      · intro hle
        have hup := Nat.lt_size.mp (show 63 < n.toNat.size by omega)
        exact hnot 63 (Nat.le_antisymm hle hup)
    · have hlt : 2 ^ n.toNat.size < 2 ^ 64 := Nat.pow_lt_pow_right (by decide) (by omega)
      have hhalf : 2 ^ n.toNat.size / 2 = 2 ^ (n.toNat.size - 1) := by
        rw [← Nat.pow_div hpos (by decide), Nat.pow_one]
      rw [Nat.mod_eq_of_lt hlt, hhalf]
      refine iff_of_true (isGreatest_two_pow_size h) ?_
      have hbelow := Nat.size_le.mp (show n.toNat.size ≤ 63 by omega)
      exact Nat.le_of_lt hbelow

end

open PowersOfTwo in
/-- **The functions are exact** for the numbers whose next power of two has room. -/
theorem pow2_exact_iff (n : BitVec 32) (m : BitVec 64) (hn : 0 < n) (hm : 0 < m) :
    (RoundsUp n (nextPow2_uint32 n) (log2NextPow2_uint32 n) ↔ n.toNat ≤ 2 ^ 31) ∧
      (RoundsUp m (nextPow2_uint64 m) (log2NextPow2_uint64 m) ∧
        RoundsDown m (maxPow2LessEqualThan m) ↔ m.toNat ≤ 2 ^ 63) := by
  refine ⟨roundsUp_iff (m := 5) rfl hn, ?_⟩
  have hup : RoundsUp m (nextPow2_uint64 m) (log2NextPow2_uint64 m) ↔ m.toNat ≤ 2 ^ 63 :=
    roundsUp_iff (m := 6) rfl hm
  rw [hup, roundsDown_iff hm, and_self]

theorem pow2_exact_twelve :
    RoundsUp 12 (nextPow2_uint64 12) (log2NextPow2_uint64 12) ∧
      RoundsDown 12 (maxPow2LessEqualThan 12) :=
  (pow2_exact_iff 12 12 (by decide) (by decide)).2.mpr (by decide)

example : nextPow2_uint64 12 = 16 ∧ log2NextPow2_uint64 12 = some 4 ∧
    maxPow2LessEqualThan 12 = 8 := by decide +kernel

/-- Above `2 ^ (w - 1)` there is a smallest power of two that is not below the number, but
its exponent is not given, and the largest power of two below the number is not, either. -/
theorem not_exact_above_half :
    ¬ RoundsUp (0x80000001 : BitVec 32) (nextPow2_uint32 0x80000001)
        (log2NextPow2_uint32 0x80000001) ∧
      ¬ RoundsDown (0x8000000000000001 : BitVec 64)
        (maxPow2LessEqualThan 0x8000000000000001) := by
  refine ⟨fun h => ?_, fun h => ?_⟩
  · have hlog := h.log2 32 ?_
    · rw [show log2NextPow2_uint32 0x80000001 = none by decide] at hlog
      cases hlog
    · refine ⟨by decide, fun k hk => ?_⟩
      by_contra hlt
      have hle : (2 : ℕ) ^ k ≤ 2 ^ 31 := Nat.pow_le_pow_right (by decide) (by omega)
      exact absurd (Nat.le_trans hk hle) (by decide)
  · obtain ⟨⟨k, hk⟩, _⟩ := h.1
    rw [show maxPow2LessEqualThan 0x8000000000000001 = 0 by decide] at hk
    exact absurd hk.symm (Nat.ne_of_gt (Nat.two_pow_pos k))

end Common
end IntegratedCLI
