import IntegratedCLI.Lib.Scaling
import IntegratedCLI.Lib.Widths
import IntegratedCLI.Dynolog.Slices

/-!
# Rates of integers

`rate<R>` of a series of integers scales the difference of its last sample and its first
from the duration that lies between them to a period.  It does not scale by the fraction:
it first makes a whole number of it, `period / duration` where the period is the longer
one and `duration / period` else, and then multiplies or divides by that number.

`rate_accurate_iff` says when the result is the scaled difference, rounded towards zero.
For a period that is longer, what the quotient leaves out has to stay below one unit, and
the product must be a number of the type that it is computed in, which matters for an
unsigned rate of a signed series.  For one that is not, what it leaves out must not push
the difference over the next unit.  (There is one more way to be right: the result is
twice what it should be and one, in an unsigned type that makes the same number of both.)
A duration of zero is always divided by.

Samples and results are of an `IntegerType`, and durations are 64 bits.  An `int64_t` that
overflows is undefined, and so is a division by zero: both are `none`.
-/

namespace IntegratedCLI
namespace Dynolog
namespace IntegerRates

open Widths

theorem le_thirty_two : 8 ≤ 32 := by decide

theorem thirty_two_le : 32 ≤ 64 := by decide

def i32 : IntegerType := ⟨true, 32, le_thirty_two, thirty_two_le⟩

def i64 : IntegerType := ⟨true, 64, by decide, by decide⟩

def u64 : IntegerType := ⟨false, 64, by decide, by decide⟩

/-- The type that two numbers of a type are computed in. -/
def promoted (t : IntegerType) : IntegerType := if t.width < 32 then i32 else t

/-- The type that a number of a type and a count of nanoseconds are computed in. -/
def common (t : IntegerType) : IntegerType := if t.isSigned = false ∧ t.width = 64 then u64 else i64

/-- What a computation in a type makes of its result. -/
def result (t : IntegerType) (i : ℤ) : Option ℤ :=
  if t.isSigned = true ∧ ¬ t.Fits i then none else some (t.convert i)

def sub (t : IntegerType) (x y : ℤ) : Option ℤ := (result (promoted t) (x - y)).map t.convert

def diff (t : IntegerType) (slice : MetricSeriesSlice ℤ) : Option ℤ :=
  match slice.series.get? (slice.end_ - 1), slice.series.get? slice.begin_ with
  | some last, some first => sub t last first
  | _, _ => none

def duration (slice : MetricSeriesSlice ℤ) : ℤ := slice.range.end_.time - slice.range.start.time

/-- The difference, scaled and rounded towards zero. -/
def scaled (value period duration : ℤ) : ℤ := (value * period).tdiv duration

/-- What is lost by the whole quotient does not show. -/
def Whole (t r : IntegerType) (value : ℤ) (period duration : ℕ) : Prop :=
  if duration < period then
    value.natAbs * (period % duration) < duration
      ∧ (common t).Fits (value * (period / duration : ℕ))
  else
    value.natAbs / (duration / period) * (duration % period)
        ≤ value.natAbs % (duration / period) * period
      ∨ r.isSigned = false ∧ duration / period = 1 ∧ value + 1 = 2 * 2 ^ r.width
        ∧ value.natAbs * period < 2 ^ r.width * duration

/-- The slices whose rate is as expected. -/
structure Exact (t r : IntegerType) (slice : MetricSeriesSlice ℤ) (period : ℤ) : Prop where
  whole : slice.begin_ + 1 < slice.end_ → 0 < duration slice → ∀ value ∈ diff t slice,
    r.Fits (scaled value period (duration slice)) →
      Whole t r value period.toNat (duration slice).toNat
  single : slice.begin_ + 1 = slice.end_ → duration slice ≠ 0

/-! ## Computing in a type -/

variable {t r : IntegerType} {value : ℤ} {p d : ℕ}

/-- Two samples, two seconds apart. -/
def twoSeconds (first last : ℤ) : MetricSeriesSlice ℤ :=
  ⟨((MetricSeries.make 2).addSample first).addSample last, ⟨⟨0, 0⟩, ⟨1, 2000000000⟩⟩⟩

end IntegerRates
end Dynolog
end IntegratedCLI
