import IntegratedCLI.Lib.Dict
import IntegratedCLI.Lib.Effect
import IntegratedCLI.Ringbuffer.RingBuffer
import IntegratedCLI.Tagstack.Slicer

/-!
# The slices of intervals

`IntervalSlicer` of `hbt/src/tagstack`.  A slicer writes slices to a ring buffer, and
any number of registered consumers read them, each at its own pace: a consumer asks
for the slices of an interval of time, and a mark keeps how far it has come.  Slices
that all consumers are through with are discarded.

## What is modelled how

* The ring buffer is read and written in whole slices, of `kSliceByteSize` bytes.  It
  is the slices that it holds, the oldest first, with the tail and the sizes in bytes.
  As its size is a power of two and at least that of a slice, no drop exceeds what it
  holds: a writer drops only when it is full, and drops no more than its size.
* Time stamps, counters and sizes are 64 bit numbers.
* A call is atomic.  The callers of a slicer hold a mutex, and a write during a read is
  as one before the read if the read comes to see the slice, and as one after it if not.
* A `compare_exchange_weak` may fail for no reason; the flags `weak` say that it does.
* `HBT_DCHECK` is compiled out.
-/

namespace IntegratedCLI
namespace Tagstack

open Effect Ringbuffer

/-! ## Slices -/

/-- `sizeof(slice::Slice)`. -/
def kSliceByteSize : ℕ := 32

/-- The end of a slice, as a time stamp. -/
def Slice.endStamp (s : Slice) : ℕ := u64 s.tstampEnd

/-- An interval of time, and how slices are fitted into it. -/
structure Request where
  tstamp : ℕ
  duration : ℕ
  trim : Bool
  abortOnMissingSlices : Bool
  deriving DecidableEq, Repr

def Request.tstampEnd (q : Request) : ℕ := u64 (q.tstamp + q.duration)

/-- The exceptions. -/
inductive SlicingFailure where
  | invalidArgument
  | assertion
  | system (e : Errno)
  deriving DecidableEq, Repr

/-! ## The slices of an interval -/

namespace Request

variable (q : Request)

/-- Move until the first slice that ends after the interval has started. -/
def skip : List Slice → ℕ → Except SlicingFailure (List Slice × ℕ)
  | [], numConsumed => pure ([], numConsumed)
  | s :: ss, numConsumed =>
    if s.endStamp < q.tstamp then
      if s.duration = 0 then throw .assertion else skip ss (numConsumed + 1)
    else pure (s :: ss, numConsumed)

/-- The variables of the loop that adds slices. -/
structure Partition where
  slicesDuration : ℕ
  lastEnd : ℕ
  slices : List Slice
  numConsumed : ℕ
  deriving DecidableEq, Repr

/-- Add slices until the last one or the end of the interval.  There is no result if
one is missing that must not. -/
def addSlices : List Slice → Partition → Option Partition
  | [], p => some p
  | s :: ss, p =>
    if s.tstamp < q.tstampEnd then
      if q.abortOnMissingSlices && p.lastEnd != s.tstamp then none
      else if !q.trim && decide (q.tstampEnd < s.endStamp) then some p
      else addSlices ss
        ⟨u64 (p.slicesDuration + s.duration), s.endStamp, p.slices ++ [s], p.numConsumed + 1⟩
    else some p

/-- Trim the start of the first slice, and the duration of all slices. -/
def trimFirst : List Slice → ℕ → List Slice × ℕ
  | [], slicesDuration => ([], slicesDuration)
  | f :: ss, slicesDuration =>
    if f.tstamp < q.tstamp then
      let overlap := sub64 f.endStamp q.tstamp
      let diff := sub64 f.duration overlap
      ({ f with duration := overlap, tstamp := q.tstamp, swinType := .analysis } :: ss,
        sub64 slicesDuration diff)
    else (f :: ss, slicesDuration)

/-- Trim the end of the last slice. -/
def trimLast (delta : ℕ) : List Slice → List Slice
  | [] => []
  | [s] => [{ s with duration := sub64 s.duration delta, swoutType := .analysis }]
  | s :: ss => s :: trimLast delta ss

/-- The slices and their duration, trimmed if asked for. -/
def trimSlices (p : Partition) (lastSliceEnd : ℕ) : List Slice × ℕ :=
  if q.trim then
    let r := q.trimFirst p.slices p.slicesDuration
    if q.tstampEnd < lastSliceEnd then
      let delta := sub64 lastSliceEnd q.tstampEnd
      (trimLast delta r.1, sub64 r.2 delta)
    else r
  else (p.slices, p.slicesDuration)

/-- What is left to do after the loops. -/
def finish (p : Partition) (lastSliceEnd : ℕ) : Except SlicingFailure (Option (List Slice) × ℕ) :=
  if q.abortOnMissingSlices && decide (lastSliceEnd < q.tstampEnd) then return (none, 0)
  else
    let r := q.trimSlices p lastSliceEnd
    if q.duration < r.2 then throw .assertion
    else if q.trim && q.abortOnMissingSlices && r.2 != q.duration then throw .assertion
    -- a last slice that crosses the boundary is not consumed
    else return (some r.1, if q.tstampEnd < lastSliceEnd then p.numConsumed - 1 else p.numConsumed)

/-- What `makeIntervalIntersectingSlices` does within its transaction: the slices, if
there are any, and how many slices are consumed. -/
def intersect (unread : List Slice) : Except SlicingFailure (Option (List Slice) × ℕ) := do
  let r ← q.skip unread 0
  match r.1 with
  | [] => return (none, 0)
  | s :: ss =>
    if q.abortOnMissingSlices && decide (q.tstamp < s.tstamp) then return (none, 0)
    else
      match q.addSlices (s :: ss) ⟨0, s.tstamp, [], r.2⟩ with
      | none => return (none, 0)
      | some p =>
        match p.slices.getLast? with
        | none => return (none, 0)
        | some lastSlice => q.finish p lastSlice.endStamp

end Request

/-! ## The slicer -/

/-- The state of a slicer with the ring buffer that it writes to. -/
structure IntervalSlicer where
  logSize : ℕ
  kBytesDropIfFull : ℕ
  slices : List Slice
  tail : ℕ
  inReadTx : Bool
  numProcessedSlices : ℕ
  consumerMarks : List (String × ℕ)
  logSize_ge : 5 ≤ logSize
  logSize_le : logSize ≤ 62

namespace IntervalSlicer

abbrev Op := EStateM SlicingFailure IntervalSlicer

/-- A new slicer. -/
def init (logSize numSlicesDropIfFull : ℕ) (hge : 5 ≤ logSize) (hle : logSize ≤ 62) :
    IntervalSlicer :=
  ⟨logSize, u64 (numSlicesDropIfFull * kSliceByteSize), [], 0, false, 0, [], hge, hle⟩

/-! ### The ring buffer -/

section RingBuffer

variable (m : IntervalSlicer)

def kDataPoolByteSize : ℕ := 2 ^ m.logSize

def usedSize : ℕ := m.slices.length * kSliceByteSize

def head : ℕ := u64 (m.tail + m.usedSize)

/-- Slices leave the ring buffer. -/
def drop (n : ℕ) : IntervalSlicer :=
  { m with slices := m.slices.drop n, tail := u64 (m.tail + n * kSliceByteSize) }

end RingBuffer

/-- The producer writes a slice. -/
def producerWrite (weak : Bool) (s : Slice) : Op (Except Errno ℕ) := do
  let m ← get
  if weak then return .error .again
  else if m.kDataPoolByteSize - m.usedSize < kSliceByteSize then return .error .nospc
  else
    set { m with slices := m.slices ++ [s] }
    return .ok kSliceByteSize

/-- The producer drops bytes. -/
def producerDropN (weak : Bool) (n : ℕ) : Op PUnit := do
  let m ← get
  if m.kDataPoolByteSize < n || m.inReadTx || weak then return ⟨⟩
  else set (m.drop (n / kSliceByteSize))

/-- A consumer starts a transaction. -/
def startTx (weak : Bool) (failure : Errno → SlicingFailure) : Op PUnit := do
  let m ← get
  if m.inReadTx then throw (failure .busy)
  else if weak then throw (failure .again)
  else set { m with inReadTx := true }

/-- Where a transaction goes to for an offset, in slices from the oldest. -/
def seek (m : IntervalSlicer) (offset : ℕ) : ℕ :=
  sub64 (clamp (u64 (offset * kSliceByteSize)) m.tail m.head) m.tail / kSliceByteSize

/-! ### Writing -/

/-- Which exchanges of a try to write fail for no reason. -/
structure Attempt where
  weakWrite : Bool
  weakDrop : Bool
  deriving DecidableEq, Repr

/-- One try to write, after which slices are dropped if the ring buffer is full. -/
def tryWrite (a : Attempt) (s : Slice) : Op (Except Errno ℕ) := do
  let ret ← producerWrite a.weakWrite s
  let m ← get
  if ret = .error .nospc ∧ 0 < m.kBytesDropIfFull then
    producerDropN a.weakDrop m.kBytesDropIfFull
  return ret

/-- There are `kMaxNumRetries` tries, that is two. -/
def write (a b : Attempt) (s : Slice) : Op (Except Errno ℕ) :=
  if s.tstamp = kInvalidTimeStamp then throw .invalidArgument
  else do
    match ← tryWrite a s with
    | .ok ret => return .ok ret
    | .error _ => tryWrite b s

/-! ### Consumers -/

def registerConsumerMark (key : String) : Op PUnit := do
  let m ← get
  if (Dict.get? m.consumerMarks key).isSome then throw .invalidArgument
  else set { m with consumerMarks := Dict.put m.consumerMarks key m.numProcessedSlices }

def removeConsumerMark (key : String) : Op PUnit :=
  modify fun m => { m with consumerMarks := Dict.drop m.consumerMarks key }

/-- Drop the slices that all consumers have consumed. -/
def discardConsumed (weak : Bool) : Op PUnit := do
  let m ← get
  match (m.consumerMarks.map Prod.snd).min? with
  | none => return ⟨⟩
  | some minDiscarded =>
    let delta := sub64 minDiscarded m.numProcessedSlices
    let numBytesToDrop := u64 (delta * kSliceByteSize)
    startTx weak .system
    let m ← get
    let m := m.drop (min m.usedSize numBytesToDrop / kSliceByteSize)
    set { m with inReadTx := false, numProcessedSlices := minDiscarded }

/-- The slices of an interval from an offset on, and how many slices are consumed.  An
exception leaves the transaction open. -/
def makeIntervalIntersectingSlices (weak : Bool) (offset : ℕ) (q : Request) :
    Op (Option (List Slice) × ℕ) :=
  if q.duration = 0 then throw .invalidArgument
  else do
    startTx weak fun _ => .assertion
    let m ← get
    match q.intersect (m.slices.drop (m.seek offset)) with
    | .error failure => throw failure
    | .ok r =>
      set { m with inReadTx := false }
      return r

/-- Consume the slices of an interval. -/
def consumeSlices (weakRead weakDrop : Bool) (key : String) (q : Request) : Op (List Slice) := do
  let m ← get
  match Dict.get? m.consumerMarks key with
  | none => throw .invalidArgument
  | some offset =>
    let (slices, numConsumed) ← makeIntervalIntersectingSlices weakRead offset q
    modify fun m =>
      { m with consumerMarks := Dict.put m.consumerMarks key (u64 (offset + numConsumed)) }
    discardConsumed weakDrop
    return slices.getD []

end IntervalSlicer

end Tagstack
end IntegratedCLI
