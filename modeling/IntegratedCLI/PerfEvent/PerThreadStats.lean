import Mathlib.Data.Int.Order.Basic
import Mathlib.Data.Nat.Basic
import IntegratedCLI.Lib.Fallible
import IntegratedCLI.Tagstack.Event

/-!
# The table of threads

`hbt/src/perf_event/PerCpuThreadSwitchGenerator.h`.  For every CPU a
`CpuThreadSwitchGenerator` turns the records that the kernel writes there, about
threads that are forked, renamed, switched and exit, into events.  An event carries
a virtual id in place of the thread id, since thread ids are used again.  The
generators share one table, `PerThreadStats`, which has the information on every
virtual id and the virtual ids of the threads that are known to be running.

## What is modelled how

* The handlers are `noexcept`, so an assertion that fails in one ends the program: a
  handler is a function whose result may be a `Failure`.
* `unordered_map` is a function to `Option`.  `pid_t` and the thread ids of records
  have 32 bits, and a cast between them keeps the bits.
* What `/proc` says is an argument, `ProcFs`, and so is what a write to the output
  ring returns, which is negative where the ring has no room.
* `HBT_DCHECK` is for debug builds, and logging has no effect: both are left out, and
  so is the sort of a series of names, which nothing here reads.
-/

namespace IntegratedCLI
namespace PerfEvent

open Tagstack (Event kInvalidTimeStamp)

abbrev Pid := BitVec 32

/-- Why a handler ends the program. -/
inductive Failure where
  | alreadyCreated
  | aboutToOverflow
  | outOfRange
  | alreadyEnded
  | endsBeforeFork
  | alreadyForked
  | namedBeforeFork
  | namedAfterEnd
  deriving DecidableEq, Repr

def throwAssertIf (cond : Bool) (failure : Failure) : Except Failure PUnit :=
  if cond then throw failure else pure ()

/-! ## The table -/

structure ThreadNameChange where
  newName : String
  isExec : Bool
  deriving DecidableEq, Repr

structure ThreadInfo where
  vid : ℕ
  ppid : Pid
  ptid : Pid
  pid : Pid
  tid : Pid
  forkTimestamp : ℕ
  endTimestamp : ℕ
  cmdline : Option String
  names : List (ℕ × ThreadNameChange)
  deriving DecidableEq, Repr

structure PerThreadStats where
  nextVid : ℕ
  info : ℕ → Option ThreadInfo
  activeTids : Pid → Option ℕ

/-- What `/proc` says of a thread. -/
structure ProcFs where
  cmdLine : Pid → Option String
  comm : Pid → Option String

/-- The largest value of a virtual id, which is a tag. -/
def maxVid : ℕ := 2 ^ 32 - 1

namespace PerThreadStats

def init : PerThreadStats := ⟨1, fun _ => none, fun _ => none⟩

/-- `info.at`. -/
def infoAt (s : PerThreadStats) (vid : ℕ) : Except Failure ThreadInfo :=
  match s.info vid with
  | some tinfo => pure tinfo
  | none => throw .outOfRange

def setInfo (s : PerThreadStats) (vid : ℕ) (tinfo : ThreadInfo) : PerThreadStats :=
  { s with info := Function.update s.info vid (some tinfo) }

def createThreadInfo (s : PerThreadStats) (procFs : ProcFs) (ppid ptid pid tid : Pid) :
    Except Failure PerThreadStats := do
  let newVid := s.nextVid
  let nextVid := (s.nextVid + 1) % 2 ^ 32
  throwAssertIf (s.info newVid).isSome .alreadyCreated
  throwAssertIf (nextVid == maxVid) .aboutToOverflow
  return {
    nextVid := nextVid
    info := Function.update s.info newVid (some ⟨newVid, ppid, ptid, pid, tid, kInvalidTimeStamp,
      kInvalidTimeStamp, procFs.cmdLine tid, []⟩)
    activeTids := Function.update s.activeTids tid (some newVid) }

/-- The virtual id for a thread, and whether it has to be created.  The thread id 0 is
that of the idle threads. -/
def selectNextVid (s : PerThreadStats) (tid : Pid) : ℕ × Bool :=
  if tid = 0 then (0, false)
  else match s.activeTids tid with
    | some vid => (vid, false)
    | none => (s.nextVid, true)

def addName (s : PerThreadStats) (ts : ℕ) (vid : ℕ) (name : ThreadNameChange) :
    Except Failure PerThreadStats := do
  let tinfo ← s.infoAt vid
  return s.setInfo vid { tinfo with names := tinfo.names ++ [(ts, name)] }

def addProcFsComm (s : PerThreadStats) (procFs : ProcFs) (ts : ℕ) (vid : ℕ) (isExec : Bool) :
    Except Failure PerThreadStats := do
  let tinfo ← s.infoAt vid
  match procFs.comm tinfo.tid with
  | some comm => s.addName ts vid ⟨comm, isExec⟩
  | none => return s

def registerFork (s : PerThreadStats) (procFs : ProcFs) (ts : ℕ) (ppid ptid pid tid : Pid) :
    Except Failure PerThreadStats := do
  let vid := s.nextVid
  let s ← s.createThreadInfo procFs ppid ptid pid tid
  let tinfo ← s.infoAt vid
  (s.setInfo vid { tinfo with forkTimestamp := ts }).addProcFsComm procFs ts vid false

def registerExit (s : PerThreadStats) (ts : ℕ) (vid : ℕ) (tid : Pid) :
    Except Failure PerThreadStats := do
  let tinfo ← s.infoAt vid
  throwAssertIf (tinfo.endTimestamp != kInvalidTimeStamp) .alreadyEnded
  throwAssertIf (tinfo.forkTimestamp != kInvalidTimeStamp && ts ≤ tinfo.forkTimestamp)
    .endsBeforeFork
  let s := s.setInfo vid { tinfo with endTimestamp := ts }
  return { s with activeTids := Function.update s.activeTids tid none }

end PerThreadStats

/-! ## Records -/

def PERF_RECORD_MISC_COMM_EXEC : BitVec 16 := 0x2000#16

def PERF_RECORD_MISC_SWITCH_OUT : BitVec 16 := 0x2000#16

def PERF_RECORD_MISC_SWITCH_OUT_PREEMPT : BitVec 16 := 0x4000#16

structure Comm where
  misc : BitVec 16
  pid : Pid
  tid : Pid
  comm : String
  tstamp : ℕ
  deriving DecidableEq, Repr

/-- The record of a fork has the same fields as the one of an exit. -/
structure Exit where
  pid : Pid
  ppid : Pid
  tid : Pid
  ptid : Pid
  time : ℕ
  deriving DecidableEq, Repr

structure SwitchCpuWide where
  misc : BitVec 16
  pid : Pid
  tid : Pid
  tstamp : ℕ
  deriving DecidableEq, Repr

namespace SwitchCpuWide

def isSwitchOut (r : SwitchCpuWide) : Bool := r.misc &&& PERF_RECORD_MISC_SWITCH_OUT ≠ 0

def isSwitchOutPreempt (r : SwitchCpuWide) : Bool :=
  r.misc &&& PERF_RECORD_MISC_SWITCH_OUT_PREEMPT ≠ 0

end SwitchCpuWide

inductive Record where
  | lost (tstamp : ℕ)
  | comm (r : Comm)
  | exit (r : Exit)
  | fork (r : Exit)
  | switch (r : SwitchCpuWide)
  deriving DecidableEq, Repr

/-! ## The generator of a CPU -/

structure CpuThreadSwitchGenerator where
  tidLevel : ℕ
  compUnitId : ℕ
  lastTstamp : ℕ
  inWriteErrors : Bool
  output : List Event
  deriving DecidableEq, Repr

/-- What a call of a handler depends on besides the state: `/proc`, and what is
returned by the writes to the output, that of the end of the write errors and that
of the event. -/
structure Env where
  procFs : ProcFs
  endRet : ℤ
  ret : ℤ

/-- What a handler returns and leaves behind. -/
structure Handled where
  ret : ℤ
  stats : PerThreadStats
  gen : CpuThreadSwitchGenerator

namespace CpuThreadSwitchGenerator

/-- `output_producer_.write`. -/
def write (g : CpuThreadSwitchGenerator) (ret : ℤ) (ev : Event) : CpuThreadSwitchGenerator :=
  if 0 ≤ ret then { g with output := g.output ++ [ev] } else g

def kInvalidLevel : ℕ := 2 ^ 8 - 1

def pendingRecordLost (g : CpuThreadSwitchGenerator) (env : Env) (tstamp : ℕ) :
    ℤ × CpuThreadSwitchGenerator :=
  if g.inWriteErrors then
    let g' := g.write env.endRet ⟨tstamp, .writeErrorsEnd, kInvalidLevel, g.compUnitId, Tagstack.kNA⟩
    if 0 ≤ env.endRet then
      (env.endRet, { g' with lastTstamp := tstamp, inWriteErrors := false })
    else (env.endRet, g')
  else (0, g)

variable (s : PerThreadStats) (g : CpuThreadSwitchGenerator) (env : Env)

def handleRecordLost (tstamp : ℕ) : Except Failure Handled :=
  let p := g.pendingRecordLost env tstamp
  if p.1 < 0 then return ⟨p.1, s, p.2⟩
  else
    let g := p.2.write env.ret
      ⟨p.2.lastTstamp + 1, .writeErrorsStart, kInvalidLevel, p.2.compUnitId, Tagstack.kNA⟩
    if 0 ≤ env.ret then
      return ⟨env.ret, { s with activeTids := fun _ => none },
        { g with lastTstamp := tstamp, inWriteErrors := true }⟩
    else return ⟨env.ret, s, g⟩

def handleRecordComm (r : Comm) : Except Failure Handled :=
  let newTstamp := r.tstamp
  let p := g.pendingRecordLost env newTstamp
  if p.1 < 0 then return ⟨p.1, s, p.2⟩
  else do
    -- the bits are joined, so that every name counts as that of an exec
    let isExec : Bool := r.misc ||| PERF_RECORD_MISC_COMM_EXEC ≠ 0
    let (vid, isNewVid) := s.selectNextVid r.tid
    let s ← if isNewVid then s.createThreadInfo env.procFs (-1) (-1) r.pid r.tid else pure s
    let s ← s.addName newTstamp vid ⟨r.comm, isExec⟩
    let tinfo ← s.infoAt vid
    throwAssertIf (tinfo.forkTimestamp != kInvalidTimeStamp && newTstamp ≤ tinfo.forkTimestamp)
      .namedBeforeFork
    throwAssertIf (tinfo.endTimestamp != kInvalidTimeStamp) .namedAfterEnd
    return ⟨0, s, { p.2 with lastTstamp := newTstamp }⟩

def handleRecordExit (r : Exit) : Except Failure Handled :=
  let newTstamp := r.time
  let p := g.pendingRecordLost env newTstamp
  if p.1 < 0 then return ⟨p.1, s, p.2⟩
  else
    let (vid, isNewVid) := s.selectNextVid r.tid
    let g := p.2.write env.ret
      ⟨newTstamp, .threadDestruction, p.2.tidLevel, p.2.compUnitId, vid⟩
    if 0 ≤ env.ret then do
      let s ← if isNewVid then do
          let s ← s.createThreadInfo env.procFs r.ppid r.ptid r.pid r.tid
          s.addProcFsComm env.procFs newTstamp vid false
        else pure s
      let s ← s.registerExit newTstamp vid r.tid
      return ⟨env.ret, s, { g with lastTstamp := newTstamp }⟩
    else return ⟨env.ret, s, g⟩

def handleRecordFork (r : Exit) : Except Failure Handled :=
  let newTstamp := r.time
  let p := g.pendingRecordLost env newTstamp
  if p.1 < 0 then return ⟨p.1, s, p.2⟩
  else
    let (vid, isNewVid) := s.selectNextVid r.tid
    let g := p.2.write env.ret ⟨newTstamp, .threadCreation, p.2.tidLevel, p.2.compUnitId, vid⟩
    if 0 ≤ env.ret then do
      let s ← if !isNewVid then do
          -- it has been seen before, probably on another CPU
          let tinfo ← s.infoAt vid
          throwAssertIf (tinfo.forkTimestamp != kInvalidTimeStamp) .alreadyForked
          pure (s.setInfo vid { tinfo with forkTimestamp := newTstamp })
        else s.registerFork env.procFs newTstamp r.ppid r.ptid r.pid r.tid
      return ⟨env.ret, s, { g with lastTstamp := newTstamp }⟩
    else return ⟨env.ret, s, g⟩

def handleRecordSwitchCpuWide (r : SwitchCpuWide) : Except Failure Handled :=
  let newTstamp := r.tstamp
  let p := g.pendingRecordLost env newTstamp
  if p.1 < 0 then return ⟨p.1, s, p.2⟩
  else if r.isSwitchOut then
    let type := if r.isSwitchOutPreempt then .switchOutPreempt else .switchOutYield
    let g := p.2.write env.ret ⟨newTstamp, type, p.2.tidLevel, p.2.compUnitId, Tagstack.kNA⟩
    return ⟨env.ret, s, if 0 ≤ env.ret then { g with lastTstamp := newTstamp } else g⟩
  else do
    let (vid, isNewVid) := s.selectNextVid r.tid
    let g := p.2.write env.ret ⟨newTstamp, .switchIn, p.2.tidLevel, p.2.compUnitId, vid⟩
    let s ← if isNewVid && 0 ≤ env.ret then do
        let s ← s.createThreadInfo env.procFs (-1) (-1) r.pid r.tid
        s.addProcFsComm env.procFs newTstamp vid false
      else pure s
    return ⟨env.ret, s, if 0 ≤ env.ret then { g with lastTstamp := newTstamp } else g⟩

/-- The handler that `consume` calls for a record. -/
def handleRecord : Record → Except Failure Handled
  | .lost tstamp => handleRecordLost s g env tstamp
  | .comm r => handleRecordComm s g env r
  | .exit r => handleRecordExit s g env r
  | .fork r => handleRecordFork s g env r
  | .switch r => handleRecordSwitchCpuWide s g env r

end CpuThreadSwitchGenerator

end PerfEvent
end IntegratedCLI
