import IntegratedCLI.Lib.Effect
import IntegratedCLI.Lib.OrderedMap
import IntegratedCLI.Lib.Run
import IntegratedCLI.Dynolog.MetricFrameTsUnit
import Mathlib.Data.String.Basic

/-!
# Metric frames

A frame is a time unit with series of samples beside it: a `MetricFrameMap` has named
series, a `MetricFrameVector` has them in a list.  The types of the samples and of the
series are closed variants; doubles are any type with an addition and a zero.

A call that adds samples checks the names, or the number, of the samples first.  Then
it updates the series one after the other, and the time unit last.  Two things are only
found out on the way: a sample of another type than its series (`std::get` throws), and
a time that the time unit refuses.  What was written by then stays written.

A series belongs to one frame and has one name there, and a frame has its time unit to
itself, as wherever frames are made.
-/

namespace IntegratedCLI
namespace Dynolog

/-! ## Samples and series -/

structure PerfReadValues where
  timeEnabled : UInt64
  timeRunning : UInt64
  count : UInt64
  deriving DecidableEq, Repr, Inhabited

instance : Add PerfReadValues where
  add lhs other := ⟨lhs.timeEnabled + other.timeEnabled, lhs.timeRunning + other.timeRunning,
    lhs.count + other.count⟩

inductive SampleVarT (D : Type) where
  | int64 (sample : Int64)
  | uint64 (sample : UInt64)
  | double (sample : D)
  | perfReadValues (sample : PerfReadValues)
  deriving DecidableEq, Repr

inductive MetricSeriesVar (D : Type) where
  | int64 (series : MetricSeries Int64)
  | uint64 (series : MetricSeries UInt64)
  | double (series : MetricSeries D)
  | perfReadValues (series : MetricSeries PerfReadValues)
  deriving DecidableEq, Repr

/-- What a call may throw. -/
inductive FrameError where
  | badVariantAccess
  | invalidArgument (what : String)
  deriving DecidableEq, Repr

namespace MetricSeriesVar

variable {D : Type}

def size : MetricSeriesVar D → ℕ
  | .int64 series => series.size
  | .uint64 series => series.size
  | .double series => series.size
  | .perfReadValues series => series.size

def maxLength : MetricSeriesVar D → ℕ
  | .int64 series => series.maxLength
  | .uint64 series => series.maxLength
  | .double series => series.maxLength
  | .perfReadValues series => series.maxLength

variable [Inhabited D] [Add D]

/-- `std::visit` of the series, with `std::get` of the sample: the update of a series of
the type of the sample. -/
def visit (update : ∀ {T : Type} [Inhabited T] [Add T], MetricSeries T → T → MetricSeries T)
    (sampleVar : SampleVarT D) (seriesVar : MetricSeriesVar D) :
    Except FrameError (MetricSeriesVar D) :=
  match seriesVar, sampleVar with
  | .int64 series, .int64 sample => .ok (.int64 (update series sample))
  | .uint64 series, .uint64 sample => .ok (.uint64 (update series sample))
  | .double series, .double sample => .ok (.double (update series sample))
  | .perfReadValues series, .perfReadValues sample =>
    .ok (.perfReadValues (update series sample))
  | _, _ => .error .badVariantAccess

def addSample (sampleVar : SampleVarT D) (seriesVar : MetricSeriesVar D) :
    Except FrameError (MetricSeriesVar D) :=
  visit (fun series sample => series.addSample sample) sampleVar seriesVar

def incFromLastSample (deltaVar : SampleVarT D) (seriesVar : MetricSeriesVar D) :
    Except FrameError (MetricSeriesVar D) :=
  visit (fun series delta => series.incFromLastSample delta) deltaVar seriesVar

end MetricSeriesVar

/-! ## Time units -/

inductive MetricFrameTsUnitInterface where
  | unit (u : MetricFrameTsUnit)
  | fixInterval (u : MetricFrameTsUnitFixInterval)
  deriving DecidableEq, Repr

namespace MetricFrameTsUnitInterface

def length : MetricFrameTsUnitInterface → ℕ
  | .unit u => u.length
  | .fixInterval u => u.length

def maxLength : MetricFrameTsUnitInterface → ℕ
  | .unit u => u.maxLength
  | .fixInterval u => u.maxLength

def addSample (time : TimePoint) : MetricFrameTsUnitInterface →
    Except FrameError MetricFrameTsUnitInterface
  | .unit u =>
    match u.addSample time with
    | .ok u' => .ok (.unit u')
    | .error what => .error (.invalidArgument what)
  | .fixInterval u => .ok (.fixInterval (u.addSample time))

def getRange (startTime endTime : TimePoint) (startTimePolicy endTimePolicy : MatchPolicy) :
    MetricFrameTsUnitInterface → Option MetricFrameRange
  | .unit u => u.getRange startTime endTime startTimePolicy endTimePolicy
  | .fixInterval u => u.getRange startTime endTime startTimePolicy endTimePolicy

end MetricFrameTsUnitInterface

/-! ## Named series -/

structure MetricFrameMap (D : Type) where
  ts : MetricFrameTsUnitInterface
  series : OrderedMap String (MetricSeriesVar D)

namespace MetricFrameMap

variable {D : Type}

def make (maxLength : ℕ) (ts : MetricFrameTsUnitInterface) :
    Except FrameError (MetricFrameMap D) :=
  if ts.maxLength ≠ maxLength then
    .error (.invalidArgument ("TsUnit maxLength (" ++ toString ts.maxLength ++
      ") is different from MetricFrame maxLength (" ++ toString maxLength ++ ")"))
  else .ok ⟨ts, .empty⟩

/-- A call that may throw, after it has written. -/
abbrev Call (D α : Type) := EStateM FrameError (MetricFrameMap D) α

def addSeries (key : String) (seriesVar : MetricSeriesVar D) : Call D Bool := do
  let frame ← get
  if (frame.series.get? key).isSome then return false
  set { frame with series := frame.series.emplace key seriesVar }
  return true

def eraseSeries (name : String) : Call D Bool := do
  let frame ← get
  set { frame with series := frame.series.filter fun key _ => key ≠ name }
  return (frame.series.get? name).isSome

/-- The update of one series, which was found before. -/
def updateSeries (update : SampleVarT D → MetricSeriesVar D → Except FrameError (MetricSeriesVar D))
    (sample : String × SampleVarT D) : Call D Unit := do
  let frame ← get
  match frame.series.get? sample.1 with
  | none => return
  | some seriesVar =>
    let seriesVar' ← Effect.lift (update sample.2 seriesVar)
    set { frame with series := frame.series.modify sample.1 fun _ => seriesVar' }

def addTime (time : TimePoint) : Call D Unit := do
  let frame ← get
  let ts' ← Effect.lift (frame.ts.addSample time)
  set { frame with ts := ts' }

/-- What adding and incrementing have in common. -/
def updateSamples
    (update : SampleVarT D → MetricSeriesVar D → Except FrameError (MetricSeriesVar D))
    (samples : List (String × SampleVarT D)) (time : TimePoint) : Call D Bool := do
  let frame ← get
  if samples.any fun sample => (frame.series.get? sample.1).isNone then return false
  forM samples (updateSeries update)
  addTime time
  return true

section

variable {update : SampleVarT D → MetricSeriesVar D → Except FrameError (MetricSeriesVar D)}
  {samples : List (String × SampleVarT D)} {time : TimePoint} {f : MetricFrameMap D}

theorem updateSamples_unknown (h : ∃ sample ∈ samples, f.series.get? sample.1 = none) :
    updateSamples update samples time f = .ok false f := by
  obtain ⟨sample, hmem, hnone⟩ := h
  have hany : samples.any (fun sample => (f.series.get? sample.1).isNone) = true :=
    List.any_eq_true.mpr ⟨sample, hmem, by rw [hnone]; rfl⟩
  rw [updateSamples, Effect.run_get, if_pos hany]
  rfl

theorem updateSamples_known (h : ¬ ∃ sample ∈ samples, f.series.get? sample.1 = none) :
    updateSamples update samples time f
      = (do forM samples (updateSeries update); addTime time; return true : Call D Bool) f := by
  have hany : ¬ samples.any (fun sample => (f.series.get? sample.1).isNone) = true := by
    rintro hany
    obtain ⟨sample, hmem, hnone⟩ := List.any_eq_true.mp hany
    exact h ⟨sample, hmem, Option.isNone_iff_eq_none.mp hnone⟩
  rw [updateSamples, Effect.run_get, if_neg hany]

end

variable [Inhabited D] [Add D]

def addSamples (samples : List (String × SampleVarT D)) (time : TimePoint) : Call D Bool :=
  updateSamples MetricSeriesVar.addSample samples time

def incFromLastSample (delta : List (String × SampleVarT D)) (time : TimePoint) : Call D Bool :=
  updateSamples MetricSeriesVar.incFromLastSample delta time

end MetricFrameMap

/-! ## Series in a list -/

structure MetricFrameVector (D : Type) where
  ts : MetricFrameTsUnitInterface
  series : List (MetricSeriesVar D)
  deriving DecidableEq, Repr

namespace MetricFrameVector

variable {D : Type}

abbrev Call (D α : Type) := EStateM FrameError (MetricFrameVector D) α

def width (frame : MetricFrameVector D) : ℕ := frame.series.length

/-- The loop over the series: what they are when it ends, and what ended it early. -/
def updateEach
    (update : SampleVarT D → MetricSeriesVar D → Except FrameError (MetricSeriesVar D)) :
    List (MetricSeriesVar D) → List (SampleVarT D) →
      List (MetricSeriesVar D) × Option FrameError
  | series :: rest, sample :: samples =>
    match update sample series with
    | .ok series' => (series' :: (updateEach update rest samples).1, (updateEach update rest samples).2)
    | .error e => (series :: rest, some e)
  | series, _ => (series, none)

def addTime (time : TimePoint) : Call D Unit := do
  let frame ← get
  let ts' ← Effect.lift (frame.ts.addSample time)
  set { frame with ts := ts' }

/-- What adding and incrementing have in common. -/
def updateSamples
    (update : SampleVarT D → MetricSeriesVar D → Except FrameError (MetricSeriesVar D))
    (samples : List (SampleVarT D)) (time : TimePoint) : Call D Bool := do
  let frame ← get
  if samples.length ≠ frame.width then return false
  set { frame with series := (updateEach update frame.series samples).1 }
  match (updateEach update frame.series samples).2 with
  | some e => throw e
  | none =>
    addTime time
    return true

variable [Inhabited D] [Add D]

def addSamples (samples : List (SampleVarT D)) (time : TimePoint) : Call D Bool :=
  updateSamples MetricSeriesVar.addSample samples time

def incFromLastSample (delta : List (SampleVarT D)) (time : TimePoint) : Call D Bool :=
  updateSamples MetricSeriesVar.incFromLastSample delta time

end MetricFrameVector

end Dynolog
end IntegratedCLI
