import Mathlib.Algebra.Order.Floor.Semifield
import Mathlib.Data.Rat.Floor
import Mathlib.Tactic.Linarith
import Mathlib.Tactic.Positivity

/-!
# How much of the time a group was running

A group of events that was time-multiplexed ran for a part of the time that it was enabled.
`getRunningRatio`, `getRunningRatioInteger` and `hasMultiplexing` of `PerfEventsGroup.h` tell
that part in three ways.  A float is an exact rational here, and `none` is a division by
zero.

The first function divides the wrong way round, so that it agrees with the others only where
the two times are the same, or where the group was never enabled (`agree_iff`).
-/

namespace IntegratedCLI
namespace PerfEvent

/-- The times that a group of events was read with. -/
structure GroupReadValues where
  timeEnabled : ℕ
  timeRunning : ℕ
  running_le : timeRunning ≤ timeEnabled
  enabled_lt : timeEnabled < 2 ^ 64

/-- A quotient, if there is one. -/
def divide {α : Type} [Zero α] [DecidableEq α] [Div α] (a b : α) : Option α :=
  if b = 0 then none else some (a / b)

namespace GroupReadValues

variable (v : GroupReadValues)

def getRunningRatio : Option ℚ :=
  if v.timeEnabled = 0 then some 1 else divide (v.timeEnabled : ℚ) (v.timeRunning : ℚ)

/-- The product is one of 64 bits. -/
def getRunningRatioInteger (scale : ℕ) : Option ℕ :=
  if v.timeEnabled = 0 then some scale
  else divide (scale * v.timeRunning % 2 ^ 64) v.timeEnabled

def hasMultiplexing : Bool := decide (v.timeEnabled ≠ 0) && decide (v.timeRunning ≠ v.timeEnabled)

/-- The part of the enabled time that the group was running.  All of it, if there was none. -/
def runningPart : ℚ := if v.timeEnabled = 0 then 1 else v.timeRunning / v.timeEnabled

/-- The three functions tell the running part. -/
structure Agree : Prop where
  ratio : v.getRunningRatio = some v.runningPart
  bounds : 0 ≤ v.runningPart ∧ v.runningPart ≤ 1
  noDivisionByZero : ∀ scale, (v.getRunningRatioInteger scale).isSome = true
  integer : ∀ scale q, v.getRunningRatio = some q → scale * v.timeRunning < 2 ^ 64 →
    v.getRunningRatioInteger scale = some ⌊scale * q⌋₊
  multiplexing : ∀ q, v.getRunningRatio = some q → (v.hasMultiplexing = true ↔ q < 1)

variable {v}

theorem runningPart_bounds : 0 ≤ v.runningPart ∧ v.runningPart ≤ 1 := by
  unfold runningPart
  split
  · exact ⟨zero_le_one, le_refl 1⟩
  · have hle : (v.timeRunning : ℚ) ≤ v.timeEnabled := Nat.cast_le.mpr v.running_le
    exact ⟨by positivity, div_le_one_of_le₀ hle (Nat.cast_nonneg _)⟩

theorem runningPart_lt_one_iff :
    v.runningPart < 1 ↔ v.timeEnabled ≠ 0 ∧ v.timeRunning ≠ v.timeEnabled := by
  unfold runningPart
  split
  · rename_i h
    exact iff_of_false (lt_irrefl 1) fun hne => hne.1 h
  · rename_i h
    have hpos : (0 : ℚ) < v.timeEnabled := Nat.cast_pos.mpr (Nat.pos_of_ne_zero h)
    rw [div_lt_one hpos, Nat.cast_lt, and_iff_right h]
    exact ⟨Nat.ne_of_lt, Nat.lt_of_le_of_ne v.running_le⟩

theorem hasMultiplexing_iff : v.hasMultiplexing = true ↔ v.runningPart < 1 := by
  rw [hasMultiplexing, runningPart_lt_one_iff, Bool.and_eq_true, decide_eq_true_iff,
    decide_eq_true_iff]

/-- **The scaled ratio** is the running part, scaled and rounded down. -/
theorem getRunningRatioInteger_eq {scale : ℕ} (h : scale * v.timeRunning < 2 ^ 64) :
    v.getRunningRatioInteger scale = some ⌊scale * v.runningPart⌋₊ := by
  unfold getRunningRatioInteger runningPart
  split
  · rw [mul_one, Nat.floor_natCast]
  · rename_i hne
    rw [divide, if_neg hne, Nat.mod_eq_of_lt h, ← mul_div_assoc, ← Nat.cast_mul,
      Nat.floor_div_eq_div]

theorem getRunningRatioInteger_isSome (scale : ℕ) :
    (v.getRunningRatioInteger scale).isSome = true := by
  unfold getRunningRatioInteger
  split
  · rfl
  · rename_i hne
    rw [divide, if_neg hne]
    rfl

/-- The ratio is the running part only where there is no difference between the times. -/
theorem getRunningRatio_eq_iff : v.getRunningRatio = some v.runningPart ↔
    v.timeEnabled = 0 ∨ v.timeRunning = v.timeEnabled := by
  unfold getRunningRatio runningPart
  by_cases hzero : v.timeEnabled = 0
  · rw [if_pos hzero, if_pos hzero]
    exact iff_of_true rfl (Or.inl hzero)
  · rw [if_neg hzero, if_neg hzero, or_iff_right hzero]
    have henabled : (0 : ℚ) < v.timeEnabled := Nat.cast_pos.mpr (Nat.pos_of_ne_zero hzero)
    unfold divide
    split
    · rename_i hrunning
      refine iff_of_false (fun h => nomatch h) fun heq => hzero ?_
      rw [← heq]
      exact Nat.cast_eq_zero.mp hrunning
    · rename_i hrunning
      have hle : (v.timeRunning : ℚ) ≤ v.timeEnabled := Nat.cast_le.mpr v.running_le
      have hpos : (0 : ℚ) < v.timeRunning := lt_of_le_of_ne (Nat.cast_nonneg _) (Ne.symm hrunning)
      rw [Option.some_inj, div_eq_div_iff (ne_of_gt hpos) (ne_of_gt henabled),
        mul_self_eq_mul_self_iff, Nat.cast_inj]
      constructor
      · rintro (heq | hneg)
        · exact heq.symm
        · linarith
      · exact fun heq => Or.inl heq.symm

/-- **The three functions agree** exactly for a group that ran all the time, or was never
enabled. -/
theorem agree_iff (v : GroupReadValues) :
    v.Agree ↔ v.timeEnabled = 0 ∨ v.timeRunning = v.timeEnabled := by
  rw [← getRunningRatio_eq_iff]
  refine ⟨Agree.ratio, fun h => ⟨h, runningPart_bounds, getRunningRatioInteger_isSome, ?_, ?_⟩⟩
  · intro scale q hq hfits
    obtain rfl := Option.some.inj (h.symm.trans hq)
    exact getRunningRatioInteger_eq hfits
  · intro q hq
    obtain rfl := Option.some.inj (h.symm.trans hq)
    exact hasMultiplexing_iff

/-- A group that was enabled for 100 and was not running. -/
def neverRan : GroupReadValues := ⟨100, 0, by decide, by decide⟩

/-- The ratio of the group divides by zero. -/
theorem not_agree_neverRan : neverRan.getRunningRatio = none ∧ ¬ neverRan.Agree := by
  have hnone : neverRan.getRunningRatio = none := rfl
  refine ⟨hnone, fun h => ?_⟩
  have hratio := h.ratio
  rw [hnone] at hratio
  cases hratio

end GroupReadValues

end PerfEvent
end IntegratedCLI
