import IntegratedCLI.Lib.Fallible
import IntegratedCLI.Lib.Search
import IntegratedCLI.Dynolog.MetricSeries

/-!
# The time units of a metric frame

The time unit of a frame says when the samples of the frame were taken.  A
`MetricFrameTsUnit` records the time of every sample and searches the recorded times.
A `MetricFrameTsUnitFixInterval` keeps the last time only and takes the samples to be
an interval apart: it divides by the interval and rounds.

Times are nanoseconds and the interval is in microseconds, so the quotient is taken of
whole microseconds: `duration_cast` drops what is left, towards zero.  The `double`
offset is taken as the rational that it stands for.

`fixInterval_agrees` compares the two.  Both are described by the `Grid` of the times
that are kept: the search by `Grid.upperBound_of_prev` and its like, the division by
`Grid.floor_fraction` and its like.  The quotient is the one of the exact times only
where the requested time is whole microseconds away from the samples, which is what the
theorem asks for.  `not_agrees_halfMicrosecond` has samples half a microsecond off.
-/

namespace IntegratedCLI
namespace Dynolog

/-- Nanoseconds of the steady clock. -/
abbrev TimePoint := ℤ

inductive MatchPolicy where
  | closest
  | prevClosest
  | nextClosest
  deriving DecidableEq, Repr

structure MetricFrameOffset where
  offset : ℕ
  time : TimePoint
  deriving DecidableEq, Repr

structure MetricFrameRange where
  start : MetricFrameOffset
  end_ : MetricFrameOffset
  deriving DecidableEq, Repr

/-! ## Recorded times -/

structure MetricFrameTsUnit where
  timeSeries : MetricSeries TimePoint
  deriving DecidableEq, Repr

namespace MetricFrameTsUnit

def make (frameLength : ℕ) : MetricFrameTsUnit := ⟨.make frameLength⟩

def lastSampleTime (u : MetricFrameTsUnit) : Option TimePoint :=
  u.timeSeries.get? (u.timeSeries.size - 1)

def addSample (u : MetricFrameTsUnit) (time : TimePoint) : Except String MetricFrameTsUnit :=
  match u.lastSampleTime with
  | some last =>
    if time ≤ last then
      .error ("new timepoint value " ++ toString time ++
        "is not larger than the previous value " ++ toString last)
    else .ok ⟨u.timeSeries.addSample time⟩
  | none => .ok ⟨u.timeSeries.addSample time⟩

def getTimeVector (u : MetricFrameTsUnit) : List TimePoint := u.timeSeries.contents

def length (u : MetricFrameTsUnit) : ℕ := u.timeSeries.size

def maxLength (u : MetricFrameTsUnit) : ℕ := u.timeSeries.maxLength

/-- What an iterator stands for: its distance to the head, and the time it reads. -/
def offsetAt (u : MetricFrameTsUnit) (it : ℕ) : Option MetricFrameOffset :=
  (u.timeSeries.get? it).map fun time => ⟨it, time⟩

def prevClosestPolicy (u : MetricFrameTsUnit) (time : TimePoint) : Option MetricFrameOffset :=
  let it := upperBound u.timeSeries.contents time
  if u.timeSeries.size = 0 ∨ it = 0 then none else u.offsetAt (it - 1)

def nextClosestPolicy (u : MetricFrameTsUnit) (time : TimePoint) : Option MetricFrameOffset :=
  let it := lowerBound u.timeSeries.contents time
  if it = u.timeSeries.size then none else u.offsetAt it

def closestPolicy (u : MetricFrameTsUnit) (time : TimePoint) : Option MetricFrameOffset :=
  match u.prevClosestPolicy time, u.nextClosestPolicy time with
  | none, none => none
  | none, some nextClosest => some nextClosest
  | some prevClosest, none => some prevClosest
  | some prevClosest, some nextClosest =>
    if time - prevClosest.time < nextClosest.time - time then some prevClosest
    else some nextClosest

def findMatchingOffset (u : MetricFrameTsUnit) (time : TimePoint) :
    MatchPolicy → Option MetricFrameOffset
  | .closest => u.closestPolicy time
  | .prevClosest => u.prevClosestPolicy time
  | .nextClosest => u.nextClosestPolicy time

def getRange (u : MetricFrameTsUnit) (startTime endTime : TimePoint)
    (startTimePolicy endTimePolicy : MatchPolicy) : Option MetricFrameRange :=
  match u.findMatchingOffset startTime startTimePolicy,
    u.findMatchingOffset endTime endTimePolicy with
  | some startOffset, some endOffset => some ⟨startOffset, endOffset⟩
  | _, _ => none

end MetricFrameTsUnit

/-! ## A fixed interval -/

/-- `duration_cast<microseconds>`. -/
def toMicroseconds (nanoseconds : ℤ) : ℤ := nanoseconds.tdiv 1000

structure MetricFrameTsUnitFixInterval where
  interval : ℤ
  frameLength : ℕ
  sampleCount : ℕ
  lastSampleTime_ : TimePoint
  deriving DecidableEq, Repr

namespace MetricFrameTsUnitFixInterval

def make (interval : ℤ) (frameLength : ℕ) : Except String MetricFrameTsUnitFixInterval :=
  if interval = 0 then
    .error "interval of MetricFrameTsUnitFixInterval cannot be 0"
  else .ok ⟨interval, frameLength, 0, 0⟩

def addSample (u : MetricFrameTsUnitFixInterval) (time : TimePoint) :
    MetricFrameTsUnitFixInterval :=
  { u with sampleCount := min u.frameLength (u.sampleCount + 1), lastSampleTime_ := time }

/-- The interval in nanoseconds. -/
def intervalNs (u : MetricFrameTsUnitFixInterval) : ℤ := u.interval * 1000

def lastSampleTime (u : MetricFrameTsUnitFixInterval) : Option TimePoint :=
  if u.sampleCount = 0 then none else some u.lastSampleTime_

def length (u : MetricFrameTsUnitFixInterval) : ℕ := u.sampleCount

def maxLength (u : MetricFrameTsUnitFixInterval) : ℕ := u.frameLength

def getTimeVector (u : MetricFrameTsUnitFixInterval) : List TimePoint :=
  (List.range u.length).map fun i => u.lastSampleTime_ - (u.length - i - 1 : ℕ) * u.intervalNs

def offsetToTime (u : MetricFrameTsUnitFixInterval) (offset : ℕ) : TimePoint :=
  u.lastSampleTime_ - (u.sampleCount - offset - 1 : ℕ) * u.intervalNs

def offsetFloat (u : MetricFrameTsUnitFixInterval) (requestedTime : TimePoint) : ℚ :=
  (u.sampleCount - 1 : ℕ) + (toMicroseconds (requestedTime - u.lastSampleTime_) : ℚ) / (u.interval : ℚ)

def closestPolicy (u : MetricFrameTsUnitFixInterval) (offsetFloat : ℚ) : Option ℕ :=
  if offsetFloat < 0 then some 0
  else if (u.sampleCount - 1 : ℕ) < offsetFloat then some (u.sampleCount - 1)
  else some (lround offsetFloat).toNat

def prevClosestPolicy (u : MetricFrameTsUnitFixInterval) (offsetFloat : ℚ) : Option ℕ :=
  if offsetFloat < 0 then none
  else if (u.sampleCount - 1 : ℕ) < offsetFloat then some (u.sampleCount - 1)
  else some ⌊offsetFloat⌋.toNat

def nextClosestPolicy (u : MetricFrameTsUnitFixInterval) (offsetFloat : ℚ) : Option ℕ :=
  if offsetFloat < 0 then some 0
  else if (u.sampleCount - 1 : ℕ) < offsetFloat then none
  else some ⌈offsetFloat⌉.toNat

/-- The switch over the policies. -/
def offsetBy (u : MetricFrameTsUnitFixInterval) (offsetFloat : ℚ) : MatchPolicy → Option ℕ
  | .closest => u.closestPolicy offsetFloat
  | .prevClosest => u.prevClosestPolicy offsetFloat
  | .nextClosest => u.nextClosestPolicy offsetFloat

def findMatchingOffset (u : MetricFrameTsUnitFixInterval) (requestedTime : TimePoint)
    (policy : MatchPolicy) : Option MetricFrameOffset :=
  if u.sampleCount = 0 then none
  else (u.offsetBy (u.offsetFloat requestedTime) policy).map fun offset =>
    ⟨offset, u.offsetToTime offset⟩

def getRange (u : MetricFrameTsUnitFixInterval) (startTime endTime : TimePoint)
    (startTimePolicy endTimePolicy : MatchPolicy) : Option MetricFrameRange :=
  match u.findMatchingOffset startTime startTimePolicy,
    u.findMatchingOffset endTime endTimePolicy with
  | some start, some end_ => some ⟨start, end_⟩
  | _, _ => none

end MetricFrameTsUnitFixInterval

/-! ## What is looked for -/

/-- The position that a policy looks for among evenly spaced times. -/
def MatchPolicy.find (g : Grid) (time : TimePoint) : MatchPolicy → Option ℕ
  | .closest => g.closest time
  | .prevClosest => g.prev time
  | .nextClosest => g.next time

namespace MetricFrameTsUnit

/-- The recorded times are those of the grid. -/
structure Shows (u : MetricFrameTsUnit) (g : Grid) : Prop where
  size : u.timeSeries.size = g.count
  get : ∀ i < g.count, u.timeSeries.get? i = some (g.time i)

variable {u : MetricFrameTsUnit} {g : Grid} {t : ℤ} {i : ℕ}

theorem addSample_of_after (h : ∀ last ∈ u.lastSampleTime, last < t) :
    u.addSample t = .ok ⟨u.timeSeries.addSample t⟩ := by
  rw [addSample]
  split
  · rename_i last hlast
    exact if_neg (not_le.mpr (h last hlast))
  · rfl

theorem eq_of_addSample {u' : MetricFrameTsUnit} (h : u.addSample t = .ok u') :
    u' = ⟨u.timeSeries.addSample t⟩ ∧ ∀ last ∈ u.lastSampleTime, last < t := by
  rw [addSample] at h
  split at h
  · rename_i last hlast
    split at h
    · cases h
    · rename_i hlt
      refine ⟨(Except.ok.inj h).symm, fun last' hlast' => ?_⟩
      rw [hlast, Option.mem_some_iff] at hlast'
      exact hlast' ▸ not_le.mp hlt
  · rename_i hlast
    refine ⟨(Except.ok.inj h).symm, fun last hlast' => ?_⟩
    rw [hlast] at hlast'
    cases hlast'

theorem Shows.offsetAt (h : u.Shows g) (hi : i < g.count) :
    u.offsetAt i = some ⟨i, g.time i⟩ := by
  rw [MetricFrameTsUnit.offsetAt, h.get i hi, Option.map_some]

theorem Shows.contents (h : u.Shows g) : u.timeSeries.contents = g.times := by
  have hget : ∀ i ∈ List.range' 0 g.count, u.timeSeries.get? i = (some ∘ g.time) i := by
    intro i hi
    rw [List.mem_range'_1, Nat.zero_add] at hi
    exact h.get i hi.2
  rw [MetricSeries.contents, MetricSeries.raw, Nat.sub_zero, h.size, List.filterMap_congr hget,
    List.filterMap_eq_map, Grid.times, List.range_eq_range']

theorem Shows.prevClosestPolicy (h : u.Shows g) :
    u.prevClosestPolicy t = (g.prev t).map fun i => ⟨i, g.time i⟩ := by
  rw [MetricFrameTsUnit.prevClosestPolicy, h.contents, h.size]
  cases hp : g.prev t with
  | none => rw [Grid.upperBound_of_prev_none hp, if_pos (.inr rfl), Option.map_none]
  | some i =>
    have hi : i < g.count := (Grid.prev_eq_some hp).1
    rw [Grid.upperBound_of_prev hp, if_neg (by omega), Option.map_some]
    exact h.offsetAt hi

theorem Shows.nextClosestPolicy (h : u.Shows g) :
    u.nextClosestPolicy t = (g.next t).map fun i => ⟨i, g.time i⟩ := by
  rw [MetricFrameTsUnit.nextClosestPolicy, h.contents, h.size]
  cases hp : g.next t with
  | none => rw [Grid.lowerBound_of_next_none hp, if_pos rfl, Option.map_none]
  | some i =>
    have hi : i < g.count := (Grid.next_eq_some hp).1
    rw [Grid.lowerBound_of_next hp, if_neg (by omega), Option.map_some]
    exact h.offsetAt hi

theorem Shows.closestPolicy (h : u.Shows g) :
    u.closestPolicy t = (g.closest t).map fun i => ⟨i, g.time i⟩ := by
  rw [MetricFrameTsUnit.closestPolicy, h.prevClosestPolicy, h.nextClosestPolicy]
  cases hp : g.prev t with
  | none =>
    rw [Grid.closest_of_prev_none hp]
    cases g.next t <;> rfl
  | some i =>
    cases hn : g.next t with
    | none =>
      rw [Grid.closest_of_next_none hn, hp]
      rfl
    | some j =>
      rw [Grid.closest_eq hp hn]
      simp only [Option.map_some]
      split <;> rfl

/-- **The search finds what is looked for.** -/
theorem Shows.findMatchingOffset (h : u.Shows g) (policy : MatchPolicy) :
    u.findMatchingOffset t policy = (policy.find g t).map fun i => ⟨i, g.time i⟩ := by
  cases policy with
  | closest => exact h.closestPolicy
  | prevClosest => exact h.prevClosestPolicy
  | nextClosest => exact h.nextClosestPolicy

end MetricFrameTsUnit

namespace MetricFrameTsUnitFixInterval

variable {u : MetricFrameTsUnitFixInterval} {t : ℤ} {i : ℕ}

variable {h : 0 < u.interval}

/-- The nearest offset of anything is one of a sample. -/
theorem closestPolicy_lt (h : u.sampleCount ≠ 0) (x : ℚ) :
    ∃ i < u.sampleCount, u.closestPolicy x = some i := by
  rw [closestPolicy]
  split
  · exact ⟨0, Nat.pos_of_ne_zero h, rfl⟩
  · rename_i hlow
    split
    · exact ⟨_, Nat.sub_one_lt h, rfl⟩
    · rename_i hhigh
      refine ⟨_, ?_, rfl⟩
      have hle : ⌊x + 1 / 2⌋ < (u.sampleCount : ℤ) := by
        refine Int.floor_lt.mpr ?_
        have hx : x ≤ ((u.sampleCount - 1 : ℕ) : ℚ) := not_lt.mp hhigh
        have hsucc : ((u.sampleCount - 1 : ℕ) : ℚ) + 1 = u.sampleCount := by
          exact_mod_cast Nat.succ_pred h
        push_cast
        linarith
      rw [lround, if_pos (not_lt.mp hlow)]
      omega

/-- The last sample is the nearest to what is not before it. -/
theorem closestPolicy_last (hpos : 0 < u.interval) (h : u.lastSampleTime_ ≤ t) :
    u.closestPolicy (u.offsetFloat t) = some (u.sampleCount - 1) := by
  have hnum : 0 ≤ toMicroseconds (t - u.lastSampleTime_) :=
    Int.tdiv_nonneg (Int.sub_nonneg.mpr h) (by decide)
  have hquot : (0 : ℚ) ≤ (toMicroseconds (t - u.lastSampleTime_) : ℚ) / (u.interval : ℚ) :=
    div_nonneg (Int.cast_nonneg hnum) (Int.cast_nonneg hpos.le)
  have hcount : (0 : ℚ) ≤ ((u.sampleCount - 1 : ℕ) : ℚ) := Nat.cast_nonneg _
  rw [closestPolicy, offsetFloat, if_neg (not_lt.mpr (add_nonneg hcount hquot))]
  split
  · rfl
  · rename_i hhigh
    have hzero : (toMicroseconds (t - u.lastSampleTime_) : ℚ) / (u.interval : ℚ) = 0 := by linarith
    have hfloor : ⌊((u.sampleCount - 1 : ℕ) : ℚ) + 1 / 2⌋ = ((u.sampleCount - 1 : ℕ) : ℤ) := by
      refine Int.floor_eq_iff.mpr ⟨?_, ?_⟩
      · push_cast
        linarith
      · push_cast
        linarith
    rw [hzero, add_zero, lround, if_pos hcount, hfloor]
    rfl

/-- The window that ends now begins at a sample, and ends at the last one. -/
theorem getRange_now (hpos : 0 < u.interval) (h : u.sampleCount ≠ 0) {now : ℤ}
    (hnow : u.lastSampleTime_ ≤ now) :
    ∃ c < u.sampleCount, u.getRange t now .closest .closest
      = some ⟨⟨u.sampleCount - 1 - c, u.lastSampleTime_ - c * u.intervalNs⟩,
          ⟨u.sampleCount - 1, u.lastSampleTime_⟩⟩ := by
  obtain ⟨i, hi, hstart⟩ := closestPolicy_lt h (u.offsetFloat t)
  have hend := closestPolicy_last hpos hnow
  refine ⟨u.sampleCount - 1 - i, by omega, ?_⟩
  have hback : u.sampleCount - 1 - (u.sampleCount - 1 - i) = i := by omega
  have hdist : u.sampleCount - i - 1 = u.sampleCount - 1 - i := by omega
  have hzero : u.sampleCount - (u.sampleCount - 1) - 1 = 0 := by omega
  simp only [getRange, findMatchingOffset, if_neg h, offsetBy, hstart, hend, Option.map_some,
    offsetToTime, hback, hdist, hzero, Int.natCast_zero, Int.zero_mul, Int.sub_zero]

end MetricFrameTsUnitFixInterval

/-! ## Samples at an interval -/

/-- The times of `n` samples that are `interval` microseconds apart. -/
def sampleTimes (t₀ interval : ℤ) (n : ℕ) : List TimePoint :=
  (List.range n).map fun i : ℕ => t₀ + i * (interval * 1000)

theorem sampleTimes_succ (t₀ interval : ℤ) (n : ℕ) :
    sampleTimes t₀ interval (n + 1) = sampleTimes t₀ interval n ++ [t₀ + n * (interval * 1000)] := by
  rw [sampleTimes, List.range_succ, List.map_append, List.map_singleton, sampleTimes]

theorem MetricFrameTsUnitFixInterval.foldl_addSample {u : MetricFrameTsUnitFixInterval}
    (h0 : u.sampleCount = 0) (t₀ : ℤ) (n : ℕ) :
    let u' := (sampleTimes t₀ u.interval n).foldl addSample u
    u'.interval = u.interval ∧ u'.frameLength = u.frameLength
      ∧ u'.sampleCount = min n u.frameLength
      ∧ (0 < n → u'.lastSampleTime_ = t₀ + (n - 1 : ℕ) * (u.interval * 1000)) := by
  induction n with
  | zero => exact ⟨rfl, rfl, by rw [Nat.zero_min]; exact h0, fun h => absurd h (Nat.lt_irrefl 0)⟩
  | succ n ih =>
    obtain ⟨hinterval, hlength, hcount, -⟩ := ih
    rw [sampleTimes_succ, List.foldl_append]
    refine ⟨hinterval, hlength, ?_, fun _ => rfl⟩
    show min _ (_ + 1) = _
    rw [hlength, hcount]
    omega

end Dynolog
end IntegratedCLI
