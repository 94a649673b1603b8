import IntegratedCLI.Lib.Scaling
import Mathlib.Data.UInt

/-!
# Converting between the time stamp counter and kernel time

The page that the kernel shares has the fraction `time_mult / 2 ^ time_shift` by which the
cycles of the time stamp counter are scaled to nanoseconds, and `time_zero`, which is added
then.  The product of cycles and multiplier need not fit in 64 bits, so `kernelTimeFromTsc`
scales the quotient and the remainder by `2 ^ time_shift` apart, and `tscFromKernelTime`
those by `time_mult`.

`soundClock` says that both give what the fraction says, and that each undoes the other up
to one unit of the coarser clock.

The group is open, so that there is a page, and the kernel does not write to it meanwhile.
-/

namespace IntegratedCLI
namespace PerfEvent

open Scaling

/-! ## The code -/

/-- The fields of `perf_event_mmap_page` that convert times. -/
structure PerfEventMmapPage where
  timeShift : UInt16
  timeMult : UInt32
  timeZero : UInt64
  deriving DecidableEq, Repr

/-- The mask of the bits that are shifted out. -/
def PerfEventMmapPage.remFlags (page : PerfEventMmapPage) : UInt64 :=
  (1 <<< page.timeShift.toUInt64) - 1

/-- An open group.  The mask is computed when the page is mapped. -/
structure ClockGroup where
  page : PerfEventMmapPage
  tscRemFlags : UInt64
  tscRemFlags_eq : tscRemFlags = page.remFlags

def PerfEventMmapPage.open (page : PerfEventMmapPage) : ClockGroup := ⟨page, page.remFlags, rfl⟩

namespace ClockGroup

variable (g : ClockGroup)

def shift : UInt64 := g.page.timeShift.toUInt64

def mult : UInt64 := g.page.timeMult.toUInt64

def kernelTimeFromTsc (tscCycles : UInt64) : UInt64 :=
  let quot := tscCycles >>> g.shift
  let rem := tscCycles &&& g.tscRemFlags
  g.page.timeZero + quot * g.mult + ((rem * g.mult) >>> g.shift)

def tscFromKernelTime (ktime : UInt64) : UInt64 :=
  let delta := ktime - g.page.timeZero
  let quot := delta / g.mult
  let rem := delta % g.mult
  (quot <<< g.shift) + (rem <<< g.shift) / g.mult

/-! ## What the fraction says -/

/-- `2 ^ time_shift` cycles are `time_mult` nanoseconds. -/
def cycles : ℕ := 2 ^ g.page.timeShift.toNat

def exactKernelTime (tsc : ℕ) : ℕ :=
  g.page.timeZero.toNat + scale g.mult.toNat g.cycles tsc

def exactTsc (ktime : ℕ) : ℕ := scale g.cycles g.mult.toNat (ktime - g.page.timeZero.toNat)

/-- The numbers that `kernelTimeFromTsc` computes on the way, if they are not cut off. -/
def kernelTimeSteps (tsc : ℕ) : List ℕ :=
  [tsc / g.cycles * g.mult.toNat, g.page.timeZero.toNat + tsc / g.cycles * g.mult.toNat,
    tsc % g.cycles * g.mult.toNat,
    g.page.timeZero.toNat + tsc / g.cycles * g.mult.toNat + tsc % g.cycles * g.mult.toNat / g.cycles]

def tscSteps (ktime : ℕ) : List ℕ :=
  let delta := ktime - g.page.timeZero.toNat
  [delta / g.mult.toNat * g.cycles, delta % g.mult.toNat * g.cycles,
    delta / g.mult.toNat * g.cycles + delta % g.mult.toNat * g.cycles / g.mult.toNat]

/-- The conversions are exact, keep the order, and lose at most one unit of the coarser
clock. -/
structure SoundClock (g : ClockGroup) : Prop where
  kernelTime : ∀ tsc : UInt64, g.exactKernelTime tsc.toNat < 2 ^ 64 →
    (∀ n ∈ g.kernelTimeSteps tsc.toNat, n < 2 ^ 64) ∧
      (g.kernelTimeFromTsc tsc).toNat = g.exactKernelTime tsc.toNat
  tsc : ∀ ktime : UInt64, g.page.timeZero ≤ ktime → g.exactTsc ktime.toNat < 2 ^ 64 →
    (∀ n ∈ g.tscSteps ktime.toNat, n < 2 ^ 64) ∧
      (g.tscFromKernelTime ktime).toNat = g.exactTsc ktime.toNat
  kernelTime_mono : ∀ tsc tsc' : UInt64, tsc ≤ tsc' → g.exactKernelTime tsc'.toNat < 2 ^ 64 →
    g.kernelTimeFromTsc tsc ≤ g.kernelTimeFromTsc tsc'
  tsc_mono : ∀ ktime ktime' : UInt64, g.page.timeZero ≤ ktime → ktime ≤ ktime' →
    g.exactTsc ktime'.toNat < 2 ^ 64 → g.tscFromKernelTime ktime ≤ g.tscFromKernelTime ktime'
  tsc_kernelTime : ∀ tsc : UInt64, g.exactKernelTime tsc.toNat < 2 ^ 64 →
    g.tscFromKernelTime (g.kernelTimeFromTsc tsc) ≤ tsc ∧
      tsc.toNat - (g.tscFromKernelTime (g.kernelTimeFromTsc tsc)).toNat
        ≤ g.cycles ⌈/⌉ g.mult.toNat
  kernelTime_tsc : ∀ ktime : UInt64, g.page.timeZero ≤ ktime → g.exactTsc ktime.toNat < 2 ^ 64 →
    g.kernelTimeFromTsc (g.tscFromKernelTime ktime) ≤ ktime ∧
      ktime.toNat - (g.kernelTimeFromTsc (g.tscFromKernelTime ktime)).toNat
        ≤ g.mult.toNat ⌈/⌉ g.cycles

variable {g}

theorem cycles_pos : 0 < g.cycles := Nat.two_pow_pos _

theorem mult_lt : g.mult.toNat < 2 ^ 32 := by
  rw [mult, UInt32.toNat_toUInt64]
  exact g.page.timeMult.toNat_lt

section Shift

variable (hshift : g.page.timeShift ≤ 32)

include hshift

theorem shift_le : g.page.timeShift.toNat ≤ 32 := UInt16.le_iff_toNat_le.mp hshift

theorem shift_toNat : g.shift.toNat % 64 = g.page.timeShift.toNat := by
  have h := shift_le hshift
  rw [shift, UInt16.toNat_toUInt64]
  omega

theorem cycles_le : g.cycles ≤ 2 ^ 32 := Nat.pow_le_pow_right (by decide) (shift_le hshift)

theorem shiftRight_toNat (n : UInt64) : (n >>> g.shift).toNat = n.toNat / g.cycles := by
  rw [UInt64.toNat_shiftRight, shift_toNat hshift, Nat.shiftRight_eq_div_pow, cycles]

theorem shiftLeft_toNat {n : UInt64} (h : n.toNat * g.cycles < 2 ^ 64) :
    (n <<< g.shift).toNat = n.toNat * g.cycles := by
  rw [UInt64.toNat_shiftLeft, shift_toNat hshift, Nat.shiftLeft_eq]
  exact Nat.mod_eq_of_lt h

/-- The mask takes the remainder. -/
theorem and_tscRemFlags (n : UInt64) : (n &&& g.tscRemFlags).toNat = n.toNat % g.cycles := by
  have hcycles := cycles_le hshift
  have hone : ((1 : UInt64) <<< g.shift).toNat = g.cycles := by
    rw [shiftLeft_toNat hshift]
    · exact Nat.one_mul _
    · show 1 * g.cycles < _
      omega
  have hmask : g.tscRemFlags.toNat = g.cycles - 1 := by
    rw [g.tscRemFlags_eq, PerfEventMmapPage.remFlags, UInt64.toNat_sub_of_le]
    · exact congrArg (· - 1) hone
    · rw [UInt64.le_iff_toNat_le]
      exact hone.symm ▸ cycles_pos
  rw [UInt64.toNat_and, hmask, cycles, Nat.and_two_pow_sub_one_eq_mod]

/-- **To kernel time**: no number on the way is cut off. -/
theorem kernelTimeFromTsc_toNat {tsc : UInt64} (hfit : g.exactKernelTime tsc.toNat < 2 ^ 64) :
    (∀ n ∈ g.kernelTimeSteps tsc.toNat, n < 2 ^ 64) ∧
      (g.kernelTimeFromTsc tsc).toNat = g.exactKernelTime tsc.toNat := by
  have hsplit := scale_split (a := g.mult.toNat) (cycles_pos (g := g)) tsc.toNat
  rw [exactKernelTime, hsplit] at hfit
  have hrem : tsc.toNat % g.cycles * g.mult.toNat < 2 ^ 64 := by
    have hlt := (Nat.mod_lt tsc.toNat (cycles_pos (g := g))).trans_le (cycles_le hshift)
    have hmul := Nat.mul_lt_mul'' hlt (mult_lt (g := g))
    exact hmul.trans_le (by decide)
  have hsum : g.page.timeZero.toNat + tsc.toNat / g.cycles * g.mult.toNat < 2 ^ 64 :=
    (Nat.add_le_add_left (Nat.le_add_right _ _) _).trans_lt hfit
  have hquot : tsc.toNat / g.cycles * g.mult.toNat < 2 ^ 64 := (Nat.le_add_left _ _).trans_lt hsum
  constructor
  · intro n hn
    simp only [kernelTimeSteps, List.mem_cons, List.not_mem_nil, or_false] at hn
    rcases hn with rfl | rfl | rfl | rfl
    · exact hquot
    · exact hsum
    · exact hrem
    · rw [Nat.add_assoc]
      exact hfit
  · have hq : (tsc >>> g.shift * g.mult).toNat = tsc.toNat / g.cycles * g.mult.toNat := by
      rw [UInt64.toNat_mul, shiftRight_toNat hshift, Nat.mod_eq_of_lt hquot]
    have hr : (((tsc &&& g.tscRemFlags) * g.mult) >>> g.shift).toNat =
        tsc.toNat % g.cycles * g.mult.toNat / g.cycles := by
      rw [shiftRight_toNat hshift, UInt64.toNat_mul, and_tscRemFlags hshift, Nat.mod_eq_of_lt hrem]
    rw [kernelTimeFromTsc, UInt64.toNat_add, UInt64.toNat_add, hq, hr, exactKernelTime, hsplit]
    rw [Nat.mod_add_mod, Nat.add_assoc, Nat.mod_eq_of_lt hfit]

/-- **To the time stamp counter**: no number on the way is cut off. -/
theorem tscFromKernelTime_toNat (hmult : 0 < g.page.timeMult) {ktime : UInt64}
    (hzero : g.page.timeZero ≤ ktime) (hfit : g.exactTsc ktime.toNat < 2 ^ 64) :
    (∀ n ∈ g.tscSteps ktime.toNat, n < 2 ^ 64) ∧
      (g.tscFromKernelTime ktime).toNat = g.exactTsc ktime.toNat := by
  have hpos : 0 < g.mult.toNat := by
    rw [mult, UInt32.toNat_toUInt64]
    exact UInt32.lt_iff_toNat_lt.mp hmult
  have hdelta : (ktime - g.page.timeZero).toNat = ktime.toNat - g.page.timeZero.toNat :=
    UInt64.toNat_sub_of_le _ _ hzero
  have hsplit := scale_split (a := g.cycles) hpos (ktime.toNat - g.page.timeZero.toNat)
  rw [exactTsc, hsplit] at hfit
  have hrem : (ktime.toNat - g.page.timeZero.toNat) % g.mult.toNat * g.cycles < 2 ^ 64 := by
    have hlt := (Nat.mod_lt (ktime.toNat - g.page.timeZero.toNat) hpos).trans (mult_lt (g := g))
    calc (ktime.toNat - g.page.timeZero.toNat) % g.mult.toNat * g.cycles
        < 2 ^ 32 * g.cycles := Nat.mul_lt_mul_of_pos_right hlt cycles_pos
      _ ≤ 2 ^ 32 * 2 ^ 32 := Nat.mul_le_mul_left _ (cycles_le hshift)
      _ = 2 ^ 64 := by decide
  have hquot : (ktime.toNat - g.page.timeZero.toNat) / g.mult.toNat * g.cycles < 2 ^ 64 :=
    (Nat.le_add_right _ _).trans_lt hfit
  constructor
  · intro n hn
    simp only [tscSteps, List.mem_cons, List.not_mem_nil, or_false] at hn
    rcases hn with rfl | rfl | rfl
    · exact hquot
    · exact hrem
    · exact hfit
  · have hq : (((ktime - g.page.timeZero) / g.mult) <<< g.shift).toNat =
        (ktime.toNat - g.page.timeZero.toNat) / g.mult.toNat * g.cycles := by
      rw [shiftLeft_toNat hshift]
      · rw [UInt64.toNat_div, hdelta]
      · rw [UInt64.toNat_div, hdelta]
        exact hquot
    have hr : ((((ktime - g.page.timeZero) % g.mult) <<< g.shift) / g.mult).toNat =
        (ktime.toNat - g.page.timeZero.toNat) % g.mult.toNat * g.cycles / g.mult.toNat := by
      rw [UInt64.toNat_div, shiftLeft_toNat hshift]
      · rw [UInt64.toNat_mod, hdelta]
      · rw [UInt64.toNat_mod, hdelta]
        exact hrem
    rw [tscFromKernelTime, UInt64.toNat_add, hq, hr, exactTsc, hsplit, Nat.mod_eq_of_lt hfit]

end Shift

/-! ## There and back -/

theorem exactKernelTime_mono {tsc tsc' : ℕ} (h : tsc ≤ tsc') :
    g.exactKernelTime tsc ≤ g.exactKernelTime tsc' := Nat.add_le_add_left (scale_mono h) _

theorem exactTsc_mono {ktime ktime' : ℕ} (h : ktime ≤ ktime') :
    g.exactTsc ktime ≤ g.exactTsc ktime' := scale_mono (Nat.sub_le_sub_right h _)

theorem exactTsc_exactKernelTime (tsc : ℕ) : g.exactTsc (g.exactKernelTime tsc) =
    scale g.cycles g.mult.toNat (scale g.mult.toNat g.cycles tsc) := by
  rw [exactTsc, exactKernelTime, Nat.add_sub_cancel_left]

/-- **Clock conversion is sound** both ways. -/
theorem soundClock (g : ClockGroup) (hshift : g.page.timeShift ≤ 32)
    (hmult : 0 < g.page.timeMult) : SoundClock g := by
  have hpos : 0 < g.mult.toNat := by
    rw [mult, UInt32.toNat_toUInt64]
    exact UInt32.lt_iff_toNat_lt.mp hmult
  have hto := fun {tsc} => @kernelTimeFromTsc_toNat g hshift tsc
  have hfrom := fun {ktime} => @tscFromKernelTime_toNat g hshift hmult ktime
  refine ⟨fun tsc => hto, fun ktime => hfrom, ?_, ?_, ?_, ?_⟩
  · intro tsc tsc' hle hfit
    have hmono := exactKernelTime_mono (g := g) (UInt64.le_iff_toNat_le.mp hle)
    rw [UInt64.le_iff_toNat_le, (hto hfit).2, (hto (hmono.trans_lt hfit)).2]
    exact hmono
  · intro ktime ktime' hzero hle hfit
    have hmono := exactTsc_mono (g := g) (UInt64.le_iff_toNat_le.mp hle)
    rw [UInt64.le_iff_toNat_le, (hfrom (UInt64.le_trans hzero hle) hfit).2,
      (hfrom hzero (hmono.trans_lt hfit)).2]
    exact hmono
  · intro tsc hfit
    have hktime := (hto hfit).2
    have hzero : g.page.timeZero ≤ g.kernelTimeFromTsc tsc := by
      rw [UInt64.le_iff_toNat_le, hktime]
      exact Nat.le_add_right _ _
    have hback : g.exactTsc (g.kernelTimeFromTsc tsc).toNat ≤ tsc.toNat := by
      rw [hktime, exactTsc_exactKernelTime]
      exact scale_scale_le _
    have htsc := (hfrom hzero (hback.trans_lt tsc.toNat_lt)).2
    rw [UInt64.le_iff_toNat_le, htsc]
    refine ⟨hback, ?_⟩
    rw [hktime, exactTsc_exactKernelTime]
    have := le_scale_scale hpos (cycles_pos (g := g)) tsc.toNat
    omega
  · intro ktime hzero hfit
    have htsc := (hfrom hzero hfit).2
    have hle : g.page.timeZero.toNat ≤ ktime.toNat := UInt64.le_iff_toNat_le.mp hzero
    have hback : g.exactKernelTime (g.tscFromKernelTime ktime).toNat ≤ ktime.toNat := by
      rw [htsc, exactKernelTime, exactTsc]
      have := scale_scale_le (a := g.cycles) (b := g.mult.toNat)
        (ktime.toNat - g.page.timeZero.toNat)
      omega
    have hktime := (hto (hback.trans_lt ktime.toNat_lt)).2
    rw [UInt64.le_iff_toNat_le, hktime]
    refine ⟨hback, ?_⟩
    rw [htsc, exactKernelTime, exactTsc]
    have := le_scale_scale (cycles_pos (g := g)) hpos (ktime.toNat - g.page.timeZero.toNat)
    omega

/-- A clock with about three cycles in a nanosecond. -/
def threeGigahertz : ClockGroup := PerfEventMmapPage.open ⟨31, 715827883, 1000⟩

theorem soundClock_threeGigahertz : SoundClock threeGigahertz :=
  soundClock threeGigahertz (by decide) (by decide)

example : threeGigahertz.kernelTimeFromTsc 3000000 = 1001000 := by decide +kernel

end ClockGroup

end PerfEvent
end IntegratedCLI
