import IntegratedCLI.Dynolog.MetricFrame
import IntegratedCLI.Dynolog.Ticker
import Mathlib.Data.Finset.Basic

/-!
# The CPU time monitor

The monitor computes the CPU usage of allotments, which are named sets of cores, from the
idle counters in `/proc/stat`, at three granularities.  For each granularity it keeps a
frame with one series of values for each allotment, the last counters, and the time of
the last tick.

`tick` reads the counters first, and only then takes the lock and computes.  It reads the
counters of the single cores if some allotment has cores, and it does so before it takes
the lock.  `computeUsage` is what it does under the lock; there it indexes the counters
that it has read.  An index past their end is undefined: the result is `none`.

The usage is a quotient of doubles, and is taken as the rational.
-/

namespace IntegratedCLI
namespace Dynolog

inductive Granularity where
  | minute
  | second
  | hundredMs
  deriving DecidableEq, Repr

namespace Granularity

/-- How many samples a frame keeps: six minutes of them. -/
def ringbufferSize : Granularity → ℕ
  | minute => 6
  | second => 6 * 60
  | hundredMs => 6 * 60 * 10

/-- The interval of a frame, in microseconds. -/
def interval : Granularity → ℤ
  | minute => 60000000
  | second => 1000000
  | hundredMs => 100000

end Granularity

/-- What is kept for a granularity. -/
structure CPULevel where
  frame : MetricFrameMap ℚ
  last : OrderedMap String UInt64
  timeLast : TimePoint

structure CPUTimeMonitor where
  coreCount : UInt64
  isUnitTest : Bool
  allotmentToCpuSet : OrderedMap String (List ℤ)
  allotmentsNeedPerCore : Finset String
  levels : Granularity → CPULevel

namespace CPUTimeMonitor

def newSeries (gran : Granularity) : MetricSeriesVar ℚ := .double (.make gran.ringbufferSize)

def make (coreCount : UInt64) (isUnitTest : Bool) : CPUTimeMonitor where
  coreCount := coreCount
  isUnitTest := isUnitTest
  allotmentToCpuSet := OrderedMap.empty.emplace "host" []
  allotmentsNeedPerCore := ∅
  levels gran :=
    { frame :=
        { ts := .fixInterval ⟨gran.interval, gran.ringbufferSize, 0, 0⟩
          series := OrderedMap.empty.emplace "host" (newSeries gran) }
      last := .empty
      timeLast := 0 }

variable (m : CPUTimeMonitor)

/-! ## Allotments -/

/-- What is checked under the shared lock. -/
def canRegister (allotmentId : String) : Bool :=
  allotmentId ≠ "" ∧ allotmentId ≠ "host" ∧ m.allotmentToCpuSet.get? allotmentId = none

/-- What is done under the lock, once the check has passed. -/
def insertAllotment (allotmentId : String) (cpuSet : List ℤ) : CPUTimeMonitor :=
  { m with
    allotmentToCpuSet := m.allotmentToCpuSet.put allotmentId cpuSet
    allotmentsNeedPerCore :=
      if cpuSet = [] then m.allotmentsNeedPerCore
      else insert allotmentId m.allotmentsNeedPerCore
    levels := fun gran =>
      { m.levels gran with
        frame := Effect.after (MetricFrameMap.addSeries allotmentId (newSeries gran))
          (m.levels gran).frame } }

def registerAllotment (allotmentId : String) (cpuSet : List ℤ) : CPUTimeMonitor :=
  if m.canRegister allotmentId then m.insertAllotment allotmentId cpuSet else m

def deRegisterAllotment (allotmentId : String) : CPUTimeMonitor :=
  { m with
    allotmentToCpuSet := m.allotmentToCpuSet.filter fun key _ => key ≠ allotmentId
    allotmentsNeedPerCore := m.allotmentsNeedPerCore.erase allotmentId
    levels := fun gran =>
      { m.levels gran with
        last := (m.levels gran).last.filter fun key _ => key ≠ allotmentId
        frame := Effect.after (MetricFrameMap.eraseSeries allotmentId)
          (m.levels gran).frame } }

/-! ## Reading the counters -/

/-- The file, if it could be opened, as what `readIdle` makes of each of its lines. -/
abbrev ProcStat := Option (List (Option UInt64))

/-- The lines of the single cores: each of them has to be there. -/
def readPerCore : ℕ → List (Option UInt64) → Option (List UInt64)
  | 0, _ => some []
  | n + 1, some idle :: lines => (readPerCore n lines).map (idle :: ·)
  | _ + 1, _ => none

def readProcStat (coreCount : UInt64) (procStat : ProcStat) (perCore : Bool) : List UInt64 :=
  match procStat with
  | none => []
  | some lines =>
    let ret := lines.head?.join.toList
    if perCore then (readPerCore coreCount.toNat lines.tail).elim [] (ret ++ ·) else ret

/-! ## Computing the usage -/

/-- `idleTime[idx]`, for an index in range. -/
def idleAt (idleTime : List UInt64) (idx : ℤ) : Option UInt64 :=
  if 0 ≤ idx then idleTime[idx.toNat]? else none

/-- The idle time of an allotment, and how many cores it has. -/
def readAllotment (idleTime : List UInt64) (cpuSet : List ℤ) : Option (UInt64 × UInt64) :=
  if cpuSet = [] then (idleAt idleTime 0).map fun newVal => (newVal, m.coreCount)
  else
    (cpuSet.foldlM (fun newVal cpu => (idleAt idleTime (cpu + 1)).map (newVal + ·)) 0).map
      fun newVal => (newVal, UInt64.ofNat cpuSet.length)

/-- `duration_cast<milliseconds>`. -/
def toMilliseconds (nanoseconds : ℤ) : UInt64 := UInt64.ofInt (nanoseconds.tdiv 1000000)

/-- The usage, where the counters make sense. -/
def coresUsage (coreCount idleDelta wallDelta : UInt64) : Option ℚ :=
  if wallDelta = 0 then none
  else
    let usageDelta := coreCount * wallDelta - idleDelta
    let usage : ℚ := usageDelta.toNat / wallDelta.toNat
    if usage < 0 ∨ (coreCount.toNat : ℚ) < usage then none else some usage

/-- The usage of an allotment since the last tick that saw it. -/
def usageSince (last : Option UInt64) (newVal coreCount wallDelta : UInt64) : Option ℚ :=
  match last with
  | none => none
  | some lastVal => coresUsage coreCount ((newVal - lastVal) * 10) wallDelta

/-- A round of the loop over the allotments: the last counters and the line so far. -/
def visitAllotment (idleTime : List UInt64) (wallDelta : UInt64)
    (acc : OrderedMap String UInt64 × List (String × ℚ)) (e : String × List ℤ) :
    Option (OrderedMap String UInt64 × List (String × ℚ)) :=
  (m.readAllotment idleTime e.2).map fun r =>
    (acc.1.put e.1 r.1,
      acc.2 ++ ((usageSince (acc.1.get? e.1) r.1 r.2 wallDelta).map fun usage =>
        (e.1, usage)).toList)

/-- The loop over the allotments: the last counters, and the line of the usages. -/
def usageLine (idleTime : List UInt64) (hi : TimePoint) (gran : Granularity) :
    Option (OrderedMap String UInt64 × List (String × ℚ)) :=
  let level := m.levels gran
  let wallDelta := if m.isUnitTest then 100 else toMilliseconds (hi - level.timeLast)
  m.allotmentToCpuSet.entries.foldlM (m.visitAllotment idleTime wallDelta) (level.last, [])

/-- The frame with a line, unless the line is empty. -/
def addLine (frame : MetricFrameMap ℚ) (line : List (String × ℚ)) (lo : TimePoint) :
    MetricFrameMap ℚ :=
  if line = [] then frame
  else Effect.after (MetricFrameMap.addSamples (line.map fun e => (e.1, .double e.2)) lo) frame

def makeCoresUsage (idleTime : List UInt64) (lo hi : TimePoint) (gran : Granularity) :
    Option CPUTimeMonitor :=
  (m.usageLine idleTime hi gran).map fun acc =>
    { m with
      levels := Function.update m.levels gran
        ⟨addLine (m.levels gran).frame acc.2 lo, acc.1, lo⟩ }

/-- The granularities that are due by the mask, in the order in which they are computed. -/
def dueLevels (mask : TMask) : List Granularity :=
  (if mask.isMajorTick then [.minute] else [])
    ++ (if mask.isMinorTick then [.second] else [])
    ++ (if mask.isSubminorTick 0 then [.hundredMs] else [])

/-- What a tick does under the lock. -/
def computeUsage (mask : TMask) (idleTime : List UInt64) (lo hi : TimePoint) :
    Option CPUTimeMonitor :=
  if idleTime = [] then some m
  else (dueLevels mask).foldlM (fun m gran => m.makeCoresUsage idleTime lo hi gran) m

/-! ## Queries -/

/-- The stretch of the series of an allotment that a query is about. -/
def stretch (gran : Granularity) (now : TimePoint) (secondsAgo : ℕ)
    (allotmentId : Option String) : Option (List ℚ) :=
  let frame := (m.levels gran).frame
  match frame.ts.getRange (now - secondsAgo * 1000000000) now .closest .closest with
  | none => none
  | some range =>
    match frame.series.get? (allotmentId.getD "host") with
    | some (.double series) =>
      if series.size = 0 then none
      else some (series.raw range.start.offset (range.end_.offset + 1))
    | _ => none

def getRawCPUCoresUsage (gran : Granularity) (now : TimePoint) (secondsAgo : ℕ)
    (allotmentId : Option String) : List ℚ :=
  (m.stretch gran now secondsAgo allotmentId).getD []

/-- The mean of the values. -/
def avg (values : List ℚ) : ℚ := values.sum / values.length

/-- The value at a share of the way through the sorted values. -/
def percentile (percentage : ℚ) (values : List ℚ) : Option ℚ :=
  let nthIdx := (lround (percentage * (values.length - 1 : ℕ))).toNat
  (values.mergeSort fun a b => decide (a ≤ b))[nthIdx]?

def getAvgCPUCoresUsage (gran : Granularity) (now : TimePoint) (secondsAgo : ℕ)
    (allotmentId : Option String) : Option ℚ :=
  (m.stretch gran now secondsAgo allotmentId).map avg

def getQuantileCPUCoresUsage (gran : Granularity) (now : TimePoint) (secondsAgo : ℕ) (quant : ℚ)
    (allotmentId : Option String) : Option ℚ :=
  if 0 ≤ quant ∧ quant ≤ 1 then
    (m.stretch gran now secondsAgo allotmentId).bind (percentile quant)
  else none

end CPUTimeMonitor

end Dynolog
end IntegratedCLI
