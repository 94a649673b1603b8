import IntegratedCLI.Dynolog.MetricFrame
import Mathlib.Data.List.Sort

/-!
# Slices of a frame

`MetricFrameBase::slice` asks the time unit for a range and hands out what it gets.  The
two ends of the range are matched one by one, each with its own policy.  A policy finds
the first sample and goes on from it as long as it passes the gap to the next one
(`MetricFrameTsUnit.passing`, `MetricFrameTsUnitFixInterval.passing`), so the two ends
cross where the start passes a gap that the end does not pass: `Crosses`.

For increasing samples and times in order that takes both times between the same two
samples, with a start that goes up and an end that goes down (`MatchPolicy.gap_of_crosses`).
Then `length()` is zero: nothing is left to average, and `diff` reads the two samples the
wrong way round.
-/

namespace IntegratedCLI
namespace Dynolog

/-! ## What is read of a series -/

namespace MetricSeries

variable {T R : Type}

/-- `std::accumulate` over the samples, by their number. -/
def avg [NatCast R] [Add R] [Div R] (convert : T → R) (s : MetricSeries T) (begin_ end_ : ℕ) :
    Option R :=
  if end_ - begin_ = 0 then none
  else some ((s.raw begin_ end_).foldl (fun sum sample => sum + convert sample) ((0 : ℕ) : R)
    / ((end_ - begin_ : ℕ) : R))

/-- The sample that is in its place once the copy is sorted up to it. -/
def percentile [LinearOrder T] (percentage : ℚ) (s : MetricSeries T) (begin_ end_ : ℕ) :
    Option T :=
  let dataCopy := s.raw begin_ end_
  let nthIdx := lround (percentage * (UInt64.ofNat dataCopy.length - 1).toNat)
  if nthIdx < 0 then none else (dataCopy.mergeSort fun x y => decide (x ≤ y))[nthIdx.toNat]?

def diff [Sub T] (s : MetricSeries T) (begin_ end_ : ℕ) : Option T :=
  match s.get? (end_ - 1), s.get? begin_ with
  | some last, some first => some (last - first)
  | _, _ => none

end MetricSeries

structure MetricSeriesSlice (T : Type) where
  series : MetricSeries T
  range : MetricFrameRange

namespace MetricSeriesSlice

variable {T R : Type}

def begin_ (slice : MetricSeriesSlice T) : ℕ := slice.range.start.offset

def end_ (slice : MetricSeriesSlice T) : ℕ := slice.range.end_.offset + 1

def avg [NatCast R] [Add R] [Div R] (convert : T → R) (slice : MetricSeriesSlice T) : Option R :=
  slice.series.avg convert slice.begin_ slice.end_

def percentile [LinearOrder T] (percentage : ℚ) (slice : MetricSeriesSlice T) : Option T :=
  slice.series.percentile percentage slice.begin_ slice.end_

def diff [Sub T] (slice : MetricSeriesSlice T) : Option T :=
  slice.series.diff slice.begin_ slice.end_

def raw (slice : MetricSeriesSlice T) : List T := slice.series.raw slice.begin_ slice.end_

/-- What is read are the samples of a window that has some. -/
structure InRange [LinearOrder T] [Sub T] (slice : MetricSeriesSlice T) : Prop where
  raw_eq : slice.raw
    = (slice.series.contents.drop slice.begin_).take (slice.end_ - slice.begin_)
  raw_length : slice.raw.length = slice.end_ - slice.begin_
  raw_ne_nil : slice.raw ≠ []
  diff : ∃ first ∈ slice.raw.head?, ∃ last ∈ slice.raw.getLast?, slice.diff = some (last - first)
  percentile : ∀ percentage : ℚ, 0 ≤ percentage → percentage ≤ 1 →
    ∃ sample ∈ slice.raw, slice.percentile percentage = some sample
  avg : ∀ {R : Type} [NatCast R] [Add R] [Div R] (convert : T → R),
    slice.avg convert = some (slice.raw.foldl (fun sum sample => sum + convert sample) ((0 : ℕ) : R)
      / ((slice.raw.length : ℕ) : R))

end MetricSeriesSlice

structure MetricFrameSlice where
  range : MetricFrameRange
  deriving DecidableEq, Repr

namespace MetricFrameSlice

def length (slice : MetricFrameSlice) : UInt64 :=
  UInt64.ofNat slice.range.end_.offset - UInt64.ofNat slice.range.start.offset + 1

def duration (slice : MetricFrameSlice) : ℤ := slice.range.end_.time - slice.range.start.time

end MetricFrameSlice

/-- `MetricFrameBase::slice`: all that it takes of the frame is the time unit. -/
def MetricFrameTsUnitInterface.slice (ts : MetricFrameTsUnitInterface)
    (startTime endTime : TimePoint) (startTimePolicy endTimePolicy : MatchPolicy) :
    Option MetricFrameSlice :=
  match ts.getRange startTime endTime startTimePolicy endTimePolicy with
  | none => none
  | some range => some ⟨range⟩

/-! ## Windows of a full-length series -/

namespace MetricSeriesSlice

variable {T : Type} {slice : MetricSeriesSlice T} {samples : List T}

/-- Rounding within a window stays in it. -/
theorem lround_lt {n : ℕ} (hn : 0 < n) {p : ℚ} (h0 : 0 ≤ p) (h1 : p ≤ 1) :
    0 ≤ lround (p * (n - 1 : ℕ)) ∧ lround (p * (n - 1 : ℕ)) < n := by
  have hlast : (0 : ℚ) ≤ (n - 1 : ℕ) := Nat.cast_nonneg _
  have hprod : 0 ≤ p * (n - 1 : ℕ) := mul_nonneg h0 hlast
  have hle : p * (n - 1 : ℕ) ≤ (n - 1 : ℕ) := mul_le_of_le_one_left hlast h1
  have hsucc : ((n - 1 : ℕ) : ℚ) + 1 = n := by exact_mod_cast Nat.succ_pred hn.ne'
  rw [lround, if_pos hprod]
  refine ⟨Int.floor_nonneg.mpr (by linarith), Int.floor_lt.mpr ?_⟩
  push_cast
  linarith

theorem percentile_mem [LinearOrder T] (hne : slice.raw ≠ []) (hlen : slice.raw.length < 2 ^ 64)
    {p : ℚ} (h0 : 0 ≤ p) (h1 : p ≤ 1) : ∃ sample ∈ slice.raw, slice.percentile p = some sample := by
  have hpos : 0 < slice.raw.length := List.length_pos_of_ne_nil hne
  have hlast : (UInt64.ofNat slice.raw.length - 1).toNat = slice.raw.length - 1 := by
    rw [UInt64.toNat_sub_of_le, UInt64.toNat_ofNat_of_lt' hlen]
    · rfl
    · rw [UInt64.le_iff_toNat_le, UInt64.toNat_ofNat_of_lt' hlen]
      exact hpos
  obtain ⟨hnonneg, hlt⟩ := lround_lt hpos h0 h1
  have hin : (lround (p * (slice.raw.length - 1 : ℕ))).toNat
      < (slice.raw.mergeSort fun x y => decide (x ≤ y)).length := by
    rw [List.length_mergeSort]
    omega
  refine ⟨_, (List.mergeSort_perm _ _).subset (List.getElem_mem hin), ?_⟩
  show (if lround (p * (UInt64.ofNat slice.raw.length - 1).toNat) < 0 then none
    else (slice.raw.mergeSort fun x y => decide (x ≤ y))[(lround (p * (UInt64.ofNat
      slice.raw.length - 1).toNat)).toNat]?) = _
  rw [hlast, if_neg (not_lt.mpr hnonneg), List.getElem?_eq_getElem hin]

/-- A window between two samples of a series. -/
theorem inRange [LinearOrder T] [Sub T] (h : slice.series.Holds samples)
    (hle : slice.begin_ < slice.end_) (hlt : slice.end_ ≤ slice.series.size)
    (hsize : slice.series.size < 2 ^ 64) : slice.InRange := by
  have hraw : slice.raw
      = (slice.series.contents.drop slice.begin_).take (slice.end_ - slice.begin_) := h.raw_eq hlt
  have hcontents := h.length_contents
  have hlen : slice.raw.length = slice.end_ - slice.begin_ := by
    rw [hraw, List.length_take, List.length_drop]
    omega
  have hne : slice.raw ≠ [] := List.ne_nil_of_length_pos (by omega)
  have hat : ∀ i, i < slice.end_ - slice.begin_ →
      slice.raw[i]? = slice.series.get? (slice.begin_ + i) := by
    intro i hi
    rw [hraw, List.getElem?_take_of_lt hi, List.getElem?_drop, h.getElem?_contents (by omega)]
  refine ⟨hraw, hlen, hne, ?_, fun p h0 h1 => percentile_mem hne (by omega) h0 h1, ?_⟩
  · refine ⟨_, List.head?_eq_some_head hne, _, List.getLast?_eq_some_getLast hne, ?_⟩
    have hfirst : slice.series.get? slice.begin_ = some (slice.raw.head hne) := by
      rw [← List.head?_eq_some_head hne, List.head?_eq_getElem?, hat 0 (by omega), Nat.add_zero]
    have hlast : slice.series.get? (slice.end_ - 1) = some (slice.raw.getLast hne) := by
      rw [← List.getLast?_eq_some_getLast hne, List.getLast?_eq_getElem?, hlen,
        hat _ (by omega)]
      congr 1
      omega
    rw [diff, MetricSeries.diff, hlast, hfirst]
  · intro R _ _ _ convert
    rw [avg, MetricSeries.avg, if_neg (by omega), hlen]
    rfl

end MetricSeriesSlice

/-! ## Policies and gaps -/

/-- Whether the gap between two samples is passed on the way to a time. -/
def MatchPolicy.passes {K : Type} [LinearOrder K] [Sub K] (lo hi time : K) : MatchPolicy → Prop
  | .closest => hi - time ≤ time - lo
  | .prevClosest => hi ≤ time
  | .nextClosest => lo < time

instance {K : Type} [LinearOrder K] [Sub K] (lo hi time : K) (policy : MatchPolicy) :
    Decidable (policy.passes lo hi time) :=
  match policy with
  | .closest => inferInstanceAs (Decidable (hi - time ≤ time - lo))
  | .prevClosest => inferInstanceAs (Decidable (hi ≤ time))
  | .nextClosest => inferInstanceAs (Decidable (lo < time))

section Gap

variable {K : Type} [AddCommGroup K] [LinearOrder K] [IsOrderedAddMonoid K] {lo hi : K}
  {policy : MatchPolicy}

theorem MatchPolicy.lt_of_passes {time : K} (hgap : lo < hi) (h : policy.passes lo hi time) :
    lo < time := by
  cases policy with
  | closest =>
    by_contra hle
    have hlow : time - lo ≤ 0 := sub_nonpos.mpr (not_lt.mp hle)
    have hhigh : 0 < hi - time := sub_pos.mpr ((not_lt.mp hle).trans_lt hgap)
    exact (hlow.trans_lt hhigh).not_ge h
  | prevClosest => exact hgap.trans_le h
  | nextClosest => exact h

theorem MatchPolicy.lt_of_not_passes {time : K} (hgap : lo < hi)
    (h : ¬ policy.passes lo hi time) : time < hi := by
  cases policy with
  | closest =>
    by_contra hle
    have hlow : hi - time ≤ 0 := sub_nonpos.mpr (not_lt.mp hle)
    have hhigh : 0 < time - lo := sub_pos.mpr (hgap.trans_le (not_lt.mp hle))
    exact h (hlow.trans hhigh.le)
  | prevClosest => exact not_le.mp h
  | nextClosest => exact (not_lt.mp h).trans_lt hgap

/-- Two times in order that a gap is passed for, and not passed for, are both inside it,
the first taken up and the second down. -/
theorem MatchPolicy.gap_of_crosses {startTime endTime : K} {startPolicy endPolicy : MatchPolicy}
    (hgap : lo < hi) (hle : startTime ≤ endTime) (hs : startPolicy.passes lo hi startTime)
    (he : ¬ endPolicy.passes lo hi endTime) :
    (lo < startTime ∧ endTime < hi)
      ∧ startPolicy ≠ .prevClosest ∧ endPolicy ≠ .nextClosest ∧ startPolicy ≠ endPolicy := by
  have hlow := lt_of_passes hgap hs
  have hhigh := lt_of_not_passes hgap he
  have hprev : startPolicy ≠ .prevClosest := by
    rintro rfl
    exact (hle.trans_lt hhigh).not_ge hs
  have hnext : endPolicy ≠ .nextClosest := by
    rintro rfl
    exact he (hlow.trans_le hle)
  refine ⟨⟨hlow, hhigh⟩, hprev, hnext, ?_⟩
  rintro rfl
  cases startPolicy with
  | closest =>
    have hlater : startTime - lo ≤ endTime - lo := sub_le_sub_right hle lo
    have hearlier : hi - endTime ≤ hi - startTime := sub_le_sub_left hle hi
    exact he (hearlier.trans (LE.le.trans hs hlater))
  | prevClosest => exact hprev rfl
  | nextClosest => exact hnext rfl

end Gap

namespace MetricFrameTsUnit

variable {u : MetricFrameTsUnit} {t : ℤ} {o : MetricFrameOffset} {i : ℕ}

/-- The time of a sample. -/
def timeAt (u : MetricFrameTsUnit) (i : ℕ) : ℤ := u.getTimeVector.getD i 0

/-- The times are recorded in order, and can be read. -/
structure Sorted (u : MetricFrameTsUnit) : Prop where
  length_times : u.timeSeries.contents.length = u.timeSeries.size
  get : ∀ i < u.timeSeries.size, u.timeSeries.get? i = u.timeSeries.contents[i]?
  times : u.timeSeries.contents.Pairwise (· < ·)

theorem Sorted.offsetAt (h : u.Sorted) (hi : i < u.timeSeries.size) :
    u.offsetAt i = some ⟨i, u.timeAt i⟩ := by
  have hlt : i < u.timeSeries.contents.length := h.length_times ▸ hi
  rw [MetricFrameTsUnit.offsetAt, h.get i hi, List.getElem?_eq_getElem hlt, Option.map_some,
    timeAt, getTimeVector, List.getD_eq_getElem _ _ hlt]

theorem Sorted.timeAt_lt_iff (h : u.Sorted) (hi : i < u.timeSeries.size) :
    u.timeAt i < t ↔ i < lowerBound u.timeSeries.contents t :=
  getD_lt_iff h.times (h.length_times ▸ hi) 0

theorem Sorted.timeAt_le_iff (h : u.Sorted) (hi : i < u.timeSeries.size) :
    u.timeAt i ≤ t ↔ i < upperBound u.timeSeries.contents t :=
  getD_le_iff h.times (h.length_times ▸ hi) 0

theorem Sorted.timeAt_lt (h : u.Sorted) {j : ℕ} (hij : i < j) (hj : j < u.timeSeries.size) :
    u.timeAt i < u.timeAt j :=
  getD_lt_getD h.times hij (h.length_times ▸ hj) 0

theorem Sorted.prevClosestPolicy (h : u.Sorted) :
    u.prevClosestPolicy t = if upperBound u.timeSeries.contents t = 0 then none
      else some ⟨upperBound u.timeSeries.contents t - 1,
        u.timeAt (upperBound u.timeSeries.contents t - 1)⟩ := by
  have hle : upperBound u.timeSeries.contents t ≤ u.timeSeries.size :=
    h.length_times ▸ upperBound_le_length
  rw [MetricFrameTsUnit.prevClosestPolicy]
  by_cases h0 : upperBound u.timeSeries.contents t = 0
  · rw [if_pos (.inr h0), if_pos h0]
  · rw [if_neg (by omega), if_neg h0, h.offsetAt (by omega)]

theorem Sorted.nextClosestPolicy (h : u.Sorted) :
    u.nextClosestPolicy t = if lowerBound u.timeSeries.contents t = u.timeSeries.size then none
      else some ⟨lowerBound u.timeSeries.contents t,
        u.timeAt (lowerBound u.timeSeries.contents t)⟩ := by
  have hle : lowerBound u.timeSeries.contents t ≤ u.timeSeries.size :=
    h.length_times ▸ lowerBound_le_length
  rw [MetricFrameTsUnit.nextClosestPolicy]
  split
  · rfl
  · exact h.offsetAt (by omega)

/-- The two bounds of a time are the same, or next to each other. -/
theorem Sorted.bounds (h : u.Sorted) (t : ℤ) :
    lowerBound u.timeSeries.contents t ≤ upperBound u.timeSeries.contents t
      ∧ upperBound u.timeSeries.contents t ≤ lowerBound u.timeSeries.contents t + 1
      ∧ upperBound u.timeSeries.contents t ≤ u.timeSeries.size := by
  have hlow : lowerBound u.timeSeries.contents t ≤ u.timeSeries.size :=
    h.length_times ▸ lowerBound_le_length
  have hup : upperBound u.timeSeries.contents t ≤ u.timeSeries.size :=
    h.length_times ▸ upperBound_le_length
  refine ⟨?_, ?_, hup⟩
  · by_contra hlt
    have hbefore : u.timeAt (upperBound u.timeSeries.contents t) < t :=
      (h.timeAt_lt_iff (by omega)).mpr (by omega)
    have := (h.timeAt_le_iff (by omega)).mp hbefore.le
    omega
  · by_contra hlt
    have hat : u.timeAt (lowerBound u.timeSeries.contents t + 1) ≤ t :=
      (h.timeAt_le_iff (by omega)).mpr (by omega)
    have hbefore := h.timeAt_lt (Nat.lt_succ_self (lowerBound u.timeSeries.contents t)) (by omega)
    have := (h.timeAt_lt_iff (by omega)).mp (hbefore.trans_le hat)
    omega

/-- A gap that ends before the time is passed to the nearest sample, and one that begins
after it is not. -/
theorem Sorted.nearest_passing (h : u.Sorted) {k : ℕ} (hk : k < u.timeSeries.size)
    (hlow : lowerBound u.timeSeries.contents t ≤ k + 1)
    (hup : k ≤ upperBound u.timeSeries.contents t)
    (hbefore : ∀ j, j + 1 = k → upperBound u.timeSeries.contents t ≤ k →
      u.timeAt (j + 1) - t ≤ t - u.timeAt j)
    (hafter : k + 1 < u.timeSeries.size → k < lowerBound u.timeSeries.contents t →
      t - u.timeAt k < u.timeAt (k + 1) - t) :
    Passing u.timeSeries.size (fun j => u.timeAt (j + 1) - t ≤ t - u.timeAt j) k := by
  refine ⟨hk, fun j hj => ?_, fun j hj hlt => ?_⟩
  · have hsucc := h.timeAt_lt (Nat.lt_add_one j) (by omega)
    show u.timeAt (j + 1) - t ≤ t - u.timeAt j
    by_cases hat : j + 1 < upperBound u.timeSeries.contents t
    · have := (h.timeAt_le_iff (by omega)).mpr hat
      omega
    · exact hbefore j (by omega) (by omega)
  · have hsucc := h.timeAt_lt (Nat.lt_add_one j) hlt
    refine not_le.mpr ?_
    by_cases hat : j < lowerBound u.timeSeries.contents t
    · have hjk : j = k := by omega
      rw [hjk]
      exact hafter (hjk ▸ hlt) (hjk ▸ hat)
    · have := mt (h.timeAt_lt_iff (t := t) (i := j) (by omega)).mp hat
      omega

/-- Of the two neighbours of a time the nearer one is found, of two equally near ones the
later. -/
theorem Sorted.closest (h : u.Sorted) (ho : u.closestPolicy t = some o) :
    Passing u.timeSeries.size (fun j => u.timeAt (j + 1) - t ≤ t - u.timeAt j) o.offset := by
  obtain ⟨hle, hle', hup⟩ := h.bounds t
  have hat : ∀ {k : ℕ}, some (⟨k, u.timeAt k⟩ : MetricFrameOffset) = some o → o.offset = k := by
    rintro k ⟨⟩
    rfl
  rw [closestPolicy, h.prevClosestPolicy, h.nextClosestPolicy] at ho
  by_cases h0 : upperBound u.timeSeries.contents t = 0
  · by_cases hn : lowerBound u.timeSeries.contents t = u.timeSeries.size
    · rw [if_pos h0, if_pos hn] at ho
      cases ho
    · rw [if_pos h0, if_neg hn] at ho
      rw [hat ho]
      exact h.nearest_passing (by omega) (by omega) hle (fun j hj => by omega)
        fun _ hlt => absurd hlt (Nat.lt_irrefl _)
  · by_cases hn : lowerBound u.timeSeries.contents t = u.timeSeries.size
    · rw [if_neg h0, if_pos hn] at ho
      rw [hat ho]
      exact h.nearest_passing (by omega) (by omega) (by omega) (fun j hj => by omega)
        fun hlt => by omega
    · rw [if_neg h0, if_neg hn] at ho
      simp only at ho
      split at ho
      · rename_i hnear
        rw [hat ho]
        refine h.nearest_passing (by omega) (by omega) (by omega) (fun j hj => by omega) ?_
        intro hlt hk
        have hnext : upperBound u.timeSeries.contents t - 1 + 1
          = lowerBound u.timeSeries.contents t := by omega
        rw [hnext]
        exact hnear
      · rename_i hfar
        rw [hat ho]
        refine h.nearest_passing (by omega) (by omega) hle ?_ fun _ hlt =>
          absurd hlt (Nat.lt_irrefl _)
        intro j hj hup'
        have hprev : upperBound u.timeSeries.contents t - 1 = j := by omega
        rw [hprev, ← hj] at hfar
        exact not_lt.mp hfar

/-- **The search goes past the gaps that its policy passes.** -/
theorem Sorted.passing (h : u.Sorted) {policy : MatchPolicy}
    (ho : u.findMatchingOffset t policy = some o) :
    Passing u.length (fun j => policy.passes (u.timeAt j) (u.timeAt (j + 1)) t) o.offset := by
  obtain ⟨hle, hle', hup⟩ := h.bounds t
  cases policy with
  | closest => exact h.closest ho
  | prevClosest =>
    rw [findMatchingOffset, h.prevClosestPolicy] at ho
    split at ho
    · cases ho
    · cases ho
      show Passing u.timeSeries.size (fun j => u.timeAt (j + 1) ≤ t)
        (upperBound u.timeSeries.contents t - 1)
      refine ⟨by omega, fun j hj => ?_, fun j hj hlt hle => ?_⟩
      · exact (h.timeAt_le_iff (by omega)).mpr (by omega)
      · have := (h.timeAt_le_iff hlt).mp hle
        omega
  | nextClosest =>
    rw [findMatchingOffset, h.nextClosestPolicy] at ho
    split at ho
    · cases ho
    · cases ho
      show Passing u.timeSeries.size (fun j => u.timeAt j < t)
        (lowerBound u.timeSeries.contents t)
      refine ⟨by omega, fun j hj => ?_, fun j hj hlt hle => ?_⟩
      · exact (h.timeAt_lt_iff (by omega)).mpr hj
      · have := (h.timeAt_lt_iff (by omega)).mp hle
        omega

end MetricFrameTsUnit

namespace MetricFrameTsUnitFixInterval

variable {u : MetricFrameTsUnitFixInterval} {x : ℚ} {i : ℕ}

theorem closestPolicy_passing (h : u.sampleCount ≠ 0) (hi : u.closestPolicy x = some i) :
    Passing u.sampleCount (fun j => ((j + 1 : ℕ) : ℚ) - x ≤ x - (j : ℚ)) i := by
  obtain ⟨i', hlt, hi'⟩ := closestPolicy_lt h x
  obtain rfl : i' = i := Option.some.inj (hi'.symm.trans hi)
  rw [closestPolicy] at hi
  split at hi
  · rename_i hneg
    cases hi
    refine ⟨hlt, fun j hj => absurd hj (Nat.not_lt_zero j), fun j _ _ hle => ?_⟩
    have hj : (0 : ℚ) ≤ (j : ℚ) := Nat.cast_nonneg j
    push_cast at hle
    linarith
  · rename_i hneg
    split at hi
    · rename_i hgt
      cases hi
      refine ⟨hlt, fun j hj => ?_, fun j hj hlt' => by omega⟩
      have hle : ((j + 1 : ℕ) : ℚ) ≤ ((u.sampleCount - 1 : ℕ) : ℚ) := Nat.cast_le.mpr hj
      push_cast at hle ⊢
      linarith
    · have hround : lround x = ⌊x + 1 / 2⌋ := if_pos (not_lt.mp hneg)
      have hnonneg : 0 ≤ ⌊x + 1 / 2⌋ := Int.floor_nonneg.mpr (by linarith)
      have hi'' : ⌊x + 1 / 2⌋.toNat = i' := by
        rw [← hround]
        exact Option.some.inj hi
      refine ⟨hlt, fun j hj => ?_, fun j hj _ hle => ?_⟩
      · have hfloor : ((j + 1 : ℤ) : ℚ) ≤ x + 1 / 2 := Int.le_floor.mp (by omega)
        push_cast at hfloor ⊢
        linarith
      · have hfloor : x + 1 / 2 < ((j + 1 : ℤ) : ℚ) := Int.floor_lt.mp (by omega)
        push_cast at hfloor hle
        linarith

theorem prevClosestPolicy_passing (h : u.sampleCount ≠ 0) (hi : u.prevClosestPolicy x = some i) :
    Passing u.sampleCount (fun j => ((j + 1 : ℕ) : ℚ) ≤ x) i := by
  rw [prevClosestPolicy] at hi
  split at hi
  · cases hi
  · rename_i hneg
    split at hi
    · rename_i hgt
      cases hi
      refine ⟨Nat.sub_one_lt h, fun j hj => ?_, fun j hj hlt => by omega⟩
      have hle : ((j + 1 : ℕ) : ℚ) ≤ ((u.sampleCount - 1 : ℕ) : ℚ) := Nat.cast_le.mpr hj
      exact hle.trans hgt.le
    · rename_i hgt
      have hnonneg : 0 ≤ ⌊x⌋ := Int.floor_nonneg.mpr (not_lt.mp hneg)
      have hle : ⌊x⌋ ≤ (u.sampleCount - 1 : ℕ) := by
        have := Int.floor_le_floor (not_lt.mp hgt)
        rwa [Int.floor_natCast] at this
      cases hi
      refine ⟨by omega, fun j hj => ?_, fun j hj _ hle => ?_⟩
      · exact Int.le_floor.mp (show ((j + 1 : ℕ) : ℤ) ≤ ⌊x⌋ by omega)
      · have := Int.le_floor.mpr (show (((j + 1 : ℕ) : ℤ) : ℚ) ≤ x from hle)
        omega

theorem nextClosestPolicy_passing (h : u.sampleCount ≠ 0) (hi : u.nextClosestPolicy x = some i) :
    Passing u.sampleCount (fun j => (j : ℚ) < x) i := by
  rw [nextClosestPolicy] at hi
  split at hi
  · rename_i hneg
    cases hi
    refine ⟨Nat.pos_of_ne_zero h, fun j hj => absurd hj (Nat.not_lt_zero j), fun j _ _ hlt => ?_⟩
    have hj : (0 : ℚ) ≤ (j : ℚ) := Nat.cast_nonneg j
    linarith
  · rename_i hneg
    split at hi
    · cases hi
    · rename_i hgt
      have hnonneg : 0 ≤ ⌈x⌉ := Int.ceil_nonneg (not_lt.mp hneg)
      have hle : ⌈x⌉ ≤ (u.sampleCount - 1 : ℕ) := Int.ceil_le.mpr (not_lt.mp hgt)
      cases hi
      refine ⟨by omega, fun j hj => ?_, fun j hj _ hlt => ?_⟩
      · exact Int.lt_ceil.mp (show (j : ℤ) < ⌈x⌉ by omega)
      · have := Int.lt_ceil.mpr (show ((j : ℤ) : ℚ) < x from hlt)
        omega

/-- **The division goes past the gaps that its policy passes.** -/
theorem passing {t : TimePoint} {policy : MatchPolicy} {o : MetricFrameOffset}
    (ho : u.findMatchingOffset t policy = some o) :
    Passing u.length (fun j => policy.passes (j : ℚ) ((j + 1 : ℕ) : ℚ) (u.offsetFloat t))
      o.offset := by
  rw [findMatchingOffset] at ho
  split at ho
  · cases ho
  · rename_i h0
    obtain ⟨i, hi, rfl⟩ := Option.map_eq_some_iff.mp ho
    cases policy with
    | closest => exact closestPolicy_passing h0 hi
    | prevClosest => exact prevClosestPolicy_passing h0 hi
    | nextClosest => exact nextClosestPolicy_passing h0 hi

end MetricFrameTsUnitFixInterval

/-! ## The two ends -/

namespace MetricFrameTsUnitInterface

/-- Whether the gap after a sample is passed on the way to a time. -/
def passes (ts : MetricFrameTsUnitInterface) (policy : MatchPolicy) (time : TimePoint) (j : ℕ) :
    Prop :=
  match ts with
  | .unit u => policy.passes (u.timeAt j) (u.timeAt (j + 1)) time
  | .fixInterval u => policy.passes (j : ℚ) ((j + 1 : ℕ) : ℚ) (u.offsetFloat time)

/-- The start is matched past a gap that the end is matched before. -/
def Crosses (ts : MetricFrameTsUnitInterface) (startTime endTime : TimePoint)
    (startTimePolicy endTimePolicy : MatchPolicy) : Prop :=
  ∃ j, j + 1 < ts.length ∧ ts.passes startTimePolicy startTime j
    ∧ ¬ ts.passes endTimePolicy endTime j

/-- A time unit as it is made: the length of the frame is a `size_t`. -/
inductive Fresh : MetricFrameTsUnitInterface → Prop where
  | unit (frameLength : UInt64) : Fresh (.unit (.make frameLength.toNat))
  | fixInterval {interval : ℤ} {frameLength : UInt64} {u : MetricFrameTsUnitFixInterval}
      (h : MetricFrameTsUnitFixInterval.make interval frameLength.toNat = .ok u) :
      Fresh (.fixInterval u)

/-- A unit that has recorded some samples. -/
def Recorded (ts : MetricFrameTsUnitInterface) : Prop :=
  ∃ fresh times, Fresh fresh
    ∧ List.foldlM (fun ts time => MetricFrameTsUnitInterface.addSample time ts) fresh times = .ok ts

end MetricFrameTsUnitInterface

/-- What a unit keeps while samples are added: nothing where it has no place for them. -/
def MetricFrameTsUnit.Kept (u : MetricFrameTsUnit) : Prop :=
  (u.maxLength = 0 ∧ u.timeSeries.size = 0)
    ∨ ∃ times, u.timeSeries.Holds times ∧ times.Pairwise (· < ·)

namespace MetricFrameTsUnit

variable {u u' : MetricFrameTsUnit} {t : ℤ}

theorem kept_make (frameLength : ℕ) : (make frameLength).Kept := by
  rcases Nat.eq_zero_or_pos frameLength with rfl | hpos
  · exact .inl ⟨rfl, rfl⟩
  · exact .inr ⟨[], MetricSeries.holds_make hpos, .nil⟩

/-- The last time that was added is the one to be exceeded. -/
theorem pairwise_append_of_last {times : List ℤ} (h : u.timeSeries.Holds times)
    (hsorted : times.Pairwise (· < ·)) (hlast : ∀ last ∈ u.lastSampleTime, last < t) :
    (times ++ [t]).Pairwise (· < ·) := by
  refine List.pairwise_append.mpr ⟨hsorted, List.pairwise_singleton _ _, fun a ha b hb => ?_⟩
  rw [List.mem_singleton.mp hb]
  obtain ⟨i, hi, rfl⟩ := List.getElem_of_mem ha
  have hpos := h.pos
  have hsize := h.size
  have hlt : times.length - 1 < times.length := by omega
  have hread : u.lastSampleTime = some times[times.length - 1] := by
    rw [lastSampleTime, h.get? (by omega), ← List.getElem?_eq_getElem hlt]
    congr 1
    omega
  have htime := hlast _ hread
  rcases Nat.lt_or_eq_of_le (show i ≤ times.length - 1 by omega) with hbefore | heq
  · exact (List.pairwise_iff_getElem.mp hsorted i _ hi hlt hbefore).trans htime
  · simp only [heq]
    exact htime

theorem Kept.addSample (h : u.Kept) (hadd : u.addSample t = .ok u') :
    u'.Kept ∧ u'.maxLength = u.maxLength := by
  obtain ⟨rfl, hlast⟩ := eq_of_addSample hadd
  refine ⟨?_, MetricSeries.maxLength_addSample⟩
  rcases h with ⟨hmax, hsize⟩ | ⟨times, hholds, hsorted⟩
  · refine .inl ⟨MetricSeries.maxLength_addSample.trans hmax, ?_⟩
    have hle : u.timeSeries.size ≤ u.timeSeries.maxLength := hsize ▸ Nat.zero_le _
    have hmax' : u.timeSeries.maxLength = 0 := hmax
    rw [MetricSeries.size_addSample hle, hmax', Nat.min_zero]
  · exact .inr ⟨_, hholds.addSample, pairwise_append_of_last hholds hsorted hlast⟩

theorem Kept.length_le (h : u.Kept) : u.length ≤ u.maxLength := by
  rcases h with ⟨-, hsize⟩ | ⟨times, hholds, -⟩
  · exact hsize.le.trans (Nat.zero_le _)
  · exact hholds.size_le_maxLength

theorem Kept.sorted (h : u.Kept) : u.Sorted := by
  rcases h with ⟨-, hsize⟩ | ⟨times, hholds, hsorted⟩
  · have hnil : u.timeSeries.contents = [] := by
      rw [MetricSeries.contents, hsize]
      rfl
    refine ⟨by rw [hnil, hsize]; rfl, fun i hi => by omega, ?_⟩
    rw [hnil]
    exact .nil
  · refine ⟨hholds.length_contents, fun i hi => (hholds.getElem?_contents hi).symm, ?_⟩
    rw [hholds.contents_eq]
    exact hsorted.sublist (List.drop_sublist _ _)

end MetricFrameTsUnit

namespace MetricFrameTsUnitInterface

variable {ts : MetricFrameTsUnitInterface}

/-- What is kept while samples are added, whatever the unit. -/
def Kept : MetricFrameTsUnitInterface → Prop
  | .unit u => u.Kept ∧ u.maxLength < 2 ^ 64
  | .fixInterval u => u.sampleCount ≤ u.frameLength ∧ u.frameLength < 2 ^ 64

theorem Fresh.kept (h : Fresh ts) : ts.Kept := by
  cases h with
  | unit frameLength =>
    refine ⟨MetricFrameTsUnit.kept_make _, ?_⟩
    show (List.replicate frameLength.toNat _).length < _
    rw [List.length_replicate]
    exact frameLength.toNat_lt
  | @fixInterval interval frameLength u hmake =>
    rw [MetricFrameTsUnitFixInterval.make] at hmake
    split at hmake
    · cases hmake
    · cases hmake
      exact ⟨Nat.zero_le _, frameLength.toNat_lt⟩

theorem Kept.addSample {ts' : MetricFrameTsUnitInterface} {time : TimePoint} (h : ts.Kept)
    (hadd : addSample time ts = .ok ts') : ts'.Kept := by
  cases ts with
  | unit u =>
    simp only [MetricFrameTsUnitInterface.addSample] at hadd
    split at hadd
    · rename_i u' hu
      cases hadd
      obtain ⟨hkept, hmax⟩ := h.1.addSample hu
      exact ⟨hkept, hmax ▸ h.2⟩
    · cases hadd
  | fixInterval u =>
    cases hadd
    exact ⟨Nat.min_le_left _ _, h.2⟩

theorem Recorded.kept (h : Recorded ts) : ts.Kept := by
  obtain ⟨fresh, times, hfresh, hrun⟩ := h
  exact Fallible.foldlM_invariant (fun _ _ _ _ hkept hadd => Kept.addSample hkept hadd)
    hfresh.kept hrun

theorem Kept.length_lt (h : ts.Kept) : ts.length < 2 ^ 64 := by
  cases ts with
  | unit u => exact h.1.length_le.trans_lt h.2
  | fixInterval u => exact h.1.trans_lt h.2

/-- **The search and the division go past the gaps that their policies pass.** -/
theorem Kept.getRange (h : ts.Kept) {startTime endTime : TimePoint}
    {startTimePolicy endTimePolicy : MatchPolicy} {range : MetricFrameRange}
    (hrange : getRange startTime endTime startTimePolicy endTimePolicy ts = some range) :
    Passing ts.length (ts.passes startTimePolicy startTime) range.start.offset
      ∧ Passing ts.length (ts.passes endTimePolicy endTime) range.end_.offset := by
  cases ts with
  | unit u =>
    simp only [MetricFrameTsUnitInterface.getRange, MetricFrameTsUnit.getRange] at hrange
    split at hrange
    · rename_i startOffset endOffset hstart hend
      cases hrange
      exact ⟨h.1.sorted.passing hstart, h.1.sorted.passing hend⟩
    · cases hrange
  | fixInterval u =>
    simp only [MetricFrameTsUnitInterface.getRange, MetricFrameTsUnitFixInterval.getRange] at hrange
    split at hrange
    · rename_i startOffset endOffset hstart hend
      cases hrange
      exact ⟨MetricFrameTsUnitFixInterval.passing hstart, MetricFrameTsUnitFixInterval.passing hend⟩
    · cases hrange

end MetricFrameTsUnitInterface

namespace MetricFrameTsUnitInterface

variable {ts : MetricFrameTsUnitInterface} {startTime endTime : TimePoint}
  {startTimePolicy endTimePolicy : MatchPolicy} {slice : MetricFrameSlice}

/-- The samples that a unit shows are in order. -/
def Increasing : MetricFrameTsUnitInterface → Prop
  | .unit _ => True
  | .fixInterval u => 0 < u.interval

/-- Strictly between a sample and the next. -/
def InGap (ts : MetricFrameTsUnitInterface) (time : TimePoint) (j : ℕ) : Prop :=
  match ts with
  | .unit u => u.timeAt j < time ∧ time < u.timeAt (j + 1)
  | .fixInterval u => (j : ℚ) < u.offsetFloat time ∧ u.offsetFloat time < ((j + 1 : ℕ) : ℚ)

theorem offsetFloat_mono {u : MetricFrameTsUnitFixInterval} (hpos : 0 < u.interval)
    (hle : startTime ≤ endTime) : u.offsetFloat startTime ≤ u.offsetFloat endTime := by
  have hmicro : toMicroseconds (startTime - u.lastSampleTime_)
      ≤ toMicroseconds (endTime - u.lastSampleTime_) :=
    Int.tdiv_le_tdiv (by decide) (Int.sub_le_sub_right hle _)
  have hinterval : (0 : ℚ) ≤ (u.interval : ℚ) := Int.cast_nonneg hpos.le
  exact add_le_add_right (div_le_div_of_nonneg_right (Int.cast_le.mpr hmicro) hinterval) _

/-- **The ends of a slice cross only between two samples**, and not with one policy for
both. -/
theorem Crosses.inGap (hts : Recorded ts) (hinc : ts.Increasing) (hle : startTime ≤ endTime)
    (h : ts.Crosses startTime endTime startTimePolicy endTimePolicy) :
    (∃ j, j + 1 < ts.length ∧ ts.InGap startTime j ∧ ts.InGap endTime j)
      ∧ startTimePolicy ≠ .prevClosest ∧ endTimePolicy ≠ .nextClosest
      ∧ startTimePolicy ≠ endTimePolicy := by
  obtain ⟨j, hj, hs, he⟩ := h
  cases ts with
  | unit u =>
    have hgap : u.timeAt j < u.timeAt (j + 1) :=
      hts.kept.1.sorted.timeAt_lt (Nat.lt_add_one j) hj
    obtain ⟨⟨hlow, hhigh⟩, hpolicies⟩ := MatchPolicy.gap_of_crosses hgap hle hs he
    exact ⟨⟨j, hj, ⟨hlow, hle.trans_lt hhigh⟩, hlow.trans_le hle, hhigh⟩, hpolicies⟩
  | fixInterval u =>
    have hgap : (j : ℚ) < ((j + 1 : ℕ) : ℚ) := Nat.cast_lt.mpr (Nat.lt_add_one j)
    have hmono := offsetFloat_mono hinc hle
    obtain ⟨⟨hlow, hhigh⟩, hpolicies⟩ := MatchPolicy.gap_of_crosses hgap hmono hs he
    exact ⟨⟨j, hj, ⟨hlow, hmono.trans_lt hhigh⟩, hlow.trans_le hmono, hhigh⟩, hpolicies⟩

/-- The ends do not cross with one policy for both. -/
theorem not_crosses_of_samePolicy {policy : MatchPolicy} (hts : Recorded ts)
    (hinc : ts.Increasing) (hle : startTime ≤ endTime) :
    ¬ ts.Crosses startTime endTime policy policy := fun hcrosses =>
  (hcrosses.inGap hts hinc hle).2.2.2 rfl

end MetricFrameTsUnitInterface

end Dynolog
end IntegratedCLI
