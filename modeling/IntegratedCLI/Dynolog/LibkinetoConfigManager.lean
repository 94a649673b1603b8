import Mathlib.Algebra.Group.Int.Defs
import Mathlib.Data.Int.Order.Basic
import Mathlib.Data.List.Lex
import Mathlib.Data.List.Sort
import Mathlib.Data.String.Basic
import IntegratedCLI.Lib.OrderedMap

/-!
# The manager of on-demand profiler configs

`LibkinetoConfigManager` of `dynolog/src`.  A client sets a config for processes of
a job, `setOnDemandConfig`.  The processes ask for configs from time to time,
`obtainOnDemandConfig`; this is also how they become known.  A process that has not
asked for a minute is forgotten, `runGc`.

## What is modelled how

* Every method runs under the lock of the manager, so a method is a function from
  the table of jobs to the table of jobs.
* `std::map` is an `OrderedMap`, and `std::set<int32_t>` the list of its elements in
  increasing order; a table is gone through in the order of its keys, which matters
  where a limit is reached.
* Times are numbers of nanoseconds, and the time is an argument of the methods that
  read the clock.  The trace id of a process is a hash of the host name, the pid and
  the time, and is an argument as well.
* The callbacks for instrumentation do nothing in this class.
* What is only logged is left out, and so are the instances for each GPU and the
  base config, which these methods do not read.
-/

namespace IntegratedCLI
namespace Dynolog

/-- The two types of configs, which are bits of a config type. -/
inductive LibkinetoConfigType where
  | events
  | activities
  deriving DecidableEq, Repr

namespace LibkinetoConfigType

def toInt : LibkinetoConfigType → BitVec 32
  | .events => 1
  | .activities => 2

/-- The config type has the bit. -/
def isIn (t : LibkinetoConfigType) (configType : BitVec 32) : Bool := configType &&& t.toInt ≠ 0

end LibkinetoConfigType

structure LibkinetoProcess where
  pid : ℤ
  lastRequestTime : ℤ
  eventProfilerConfig : String
  activityProfilerConfig : String
  deriving DecidableEq, Repr

structure GpuProfilerResult where
  traceIds : List String
  processesMatched : List ℤ
  eventProfilersTriggered : List ℤ
  activityProfilersTriggered : List ℤ
  eventProfilersBusy : ℕ
  activityProfilersBusy : ℕ
  deriving DecidableEq, Repr

/-- A set of pids, which is what a process is known by. -/
abbrev PidSet := List ℤ

/-- The processes of a job. -/
abbrev ProcessMap := OrderedMap PidSet LibkinetoProcess

/-- The jobs, by their ids. -/
abbrev Jobs := OrderedMap String ProcessMap

def kKeepAliveTimeSecs : ℤ := 60

/-- The elements of a vector of pids, as a set. -/
def pidSet (pids : List ℤ) : PidSet := pids.dedup.insertionSort (· ≤ ·)

def addTraceIdToConfigString (traceId config : String) : String :=
  "\n    " ++ config ++ "\n    REQUEST_TRACE_ID=" ++ traceId

/-! ## Asking for configs -/

/-- What a process is returned for events, and what it then has left. -/
def LibkinetoProcess.obtainEvents (process : LibkinetoProcess) (configType : BitVec 32) :
    String × LibkinetoProcess :=
  if LibkinetoConfigType.events.isIn configType && process.eventProfilerConfig ≠ "" then
    (process.eventProfilerConfig ++ "\n", { process with eventProfilerConfig := "" })
  else ("", process)

/-- What a process is returned for activities, and what it then has left. -/
def LibkinetoProcess.obtainActivities (process : LibkinetoProcess) (configType : BitVec 32) :
    String × LibkinetoProcess :=
  if LibkinetoConfigType.activities.isIn configType && process.activityProfilerConfig ≠ "" then
    (process.activityProfilerConfig ++ "\n", { process with activityProfilerConfig := "" })
  else ("", process)

/-- What a process is returned, and what it then has left. -/
def LibkinetoProcess.obtain (process : LibkinetoProcess) (configType : BitVec 32) :
    String × LibkinetoProcess :=
  let r := process.obtainEvents configType
  let r' := r.2.obtainActivities configType
  (r.1 ++ r'.1, r'.2)

/-- A process of the table. -/
def find (jobs : Jobs) (jobId : String) (pids : PidSet) : Option LibkinetoProcess :=
  (jobs.get? jobId).bind (·.get? pids)

/-- A process asks for its configs.  The vector of pids is that of the process, `pid`,
and its ancestors. -/
def obtainOnDemandConfig (jobs : Jobs) (jobId : String) (pid : ℤ) (ancestors : List ℤ)
    (configType : BitVec 32) (now : ℤ) : String × Jobs :=
  let pidsSet := pidSet (pid :: ancestors)
  let newProcess : LibkinetoProcess := ⟨pid, 0, "", ""⟩
  let r := ((find jobs jobId pidsSet).getD newProcess).obtain configType
  let process := { r.2 with lastRequestTime := now }
  (r.1, (jobs.emplace jobId .empty).modify jobId fun processes =>
    (processes.emplace pidsSet newProcess).modify pidsSet fun _ => process)

/-! ## Setting a config -/

/-- The limit, which is compared as a `size_t`. -/
def toSize (limit : BitVec 32) : ℕ := (limit.signExtend 64).toNat

/-- The part of `setOnDemandConfigForProcess` about events. -/
def setEventConfig (config : String) (configType limit : BitVec 32) (res : GpuProfilerResult)
    (process : LibkinetoProcess) : GpuProfilerResult × LibkinetoProcess :=
  if res.eventProfilersTriggered.length < toSize limit &&
      LibkinetoConfigType.events.isIn configType then
    if process.eventProfilerConfig = "" then
      ({ res with eventProfilersTriggered := res.eventProfilersTriggered ++ [process.pid] },
        { process with eventProfilerConfig := config })
    else ({ res with eventProfilersBusy := res.eventProfilersBusy + 1 }, process)
  else (res, process)

/-- The part of `setOnDemandConfigForProcess` about activities. -/
def setActivityConfig (traceId : ℤ → String) (config : String) (configType limit : BitVec 32)
    (res : GpuProfilerResult) (process : LibkinetoProcess) :
    GpuProfilerResult × LibkinetoProcess :=
  if res.activityProfilersTriggered.length < toSize limit &&
      LibkinetoConfigType.activities.isIn configType then
    if process.activityProfilerConfig = "" then
      let updatedConfig := addTraceIdToConfigString (traceId process.pid) config
      ({ res with
          activityProfilersTriggered := res.activityProfilersTriggered ++ [process.pid]
          traceIds := res.traceIds ++ [traceId process.pid] },
        { process with activityProfilerConfig := updatedConfig })
    else ({ res with activityProfilersBusy := res.activityProfilersBusy + 1 }, process)
  else (res, process)

def setOnDemandConfigForProcess (traceId : ℤ → String) (config : String)
    (configType limit : BitVec 32) (res : GpuProfilerResult) (process : LibkinetoProcess) :
    GpuProfilerResult × LibkinetoProcess :=
  let res := { res with processesMatched := res.processesMatched ++ [process.pid] }
  let r := setEventConfig config configType limit res process
  setActivityConfig traceId config configType limit r.1 r.2

/-- A process of the table is meant by the pids. -/
def isMatched (pids : PidSet) (key : PidSet) : Bool :=
  let traceAllPids := pids.length = 0 || (pids.length = 1 && pids.head? = some 0)
  key.any fun pid => traceAllPids || pids.contains pid

def GpuProfilerResult.none : GpuProfilerResult := ⟨[], [], [], [], 0, 0⟩

/-- What is done to a process of the job: the config is set at most once for it,
however many of the pids are its. -/
def visitProcess (pids : PidSet) (traceId : ℤ → String) (config : String)
    (configType limit : BitVec 32) (res : GpuProfilerResult) (key : PidSet)
    (process : LibkinetoProcess) : GpuProfilerResult × LibkinetoProcess :=
  if isMatched pids key then
    setOnDemandConfigForProcess traceId config configType limit res process
  else (res, process)

def setOnDemandConfig (jobs : Jobs) (jobId : String) (pids : PidSet) (config : String)
    (configType limit : BitVec 32) (traceId : ℤ → String) : GpuProfilerResult × Jobs :=
  match jobs.get? jobId with
  | .none => (.none, jobs)
  | .some processes =>
    let r := processes.walk (visitProcess pids traceId config configType limit) .none
    (r.1, jobs.modify jobId fun _ => r.2)

/-! ## Forgetting processes -/

/-- The process has not asked for a config for a while. -/
def LibkinetoProcess.isStale (process : LibkinetoProcess) (now : ℤ) : Bool :=
  kKeepAliveTimeSecs * 10 ^ 9 < now - process.lastRequestTime

def runGc (jobs : Jobs) (now : ℤ) : Jobs :=
  (jobs.mapValues fun processes => processes.filter fun _ process => !process.isStale now).filter
    fun _ processes => processes.entries ≠ []

end Dynolog
end IntegratedCLI
