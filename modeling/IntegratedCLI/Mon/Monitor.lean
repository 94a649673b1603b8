import Mathlib.Data.List.Basic
import Mathlib.Data.List.Dedup
import Mathlib.Data.List.Sort
import Mathlib.Logic.Function.Basic
import IntegratedCLI.Lib.Dict
import IntegratedCLI.Lib.Fallible

/-!
# The monitor

`Monitor` of `hbt/src/mon`.  A monitor has elements, which are readers of counters and
monitors of traces, each with a generator for every CPU or device.  The elements are
arranged in mux groups, and the groups stand in mux queues: while the monitor is
enabled, the elements of the groups at the front of a queue are enabled, and the
others are open only.  `muxRotate` rotates the queues.

After every change `sync_` brings all elements in line with the state of the monitor.

## What is modelled how

* The mutex is held in every public method, so a method is a function from the monitor
  to the monitor, which may raise an exception.
* A generator has one of three states, of which `isOpen` and `isEnabled` are read off:
  a generator that is enabled is open.  System calls succeed, those that move the
  thread to another CPU included.
* `unordered_map` is a list of entries, or a function to `Option` where the map is
  never gone through.  The order of the entries is that of insertion.
* All containers of elements are treated alike, so there is one definition with the
  kind of the container as a parameter.  The methods of the source are it applied to
  the kind.
* Readers of `bperf` are compiled only if a macro is set that nothing here sets, and
  are left out, as is what does not change the state.
-/

namespace IntegratedCLI
namespace Mon

/-- The states of the monitor, and of a generator. -/
inductive State where
  | closed
  | «open»
  | enabled
  deriving DecidableEq, Repr

/-! ## Elements -/

/-- The events of one CPU or device. -/
structure Generator where
  cpu : ℕ
  state : State
  deriving DecidableEq, Repr

namespace Generator

def isOpen (g : Generator) : Bool := g.state ≠ .closed

def isEnabled (g : Generator) : Bool := g.state = .enabled

def «open» (g : Generator) : Generator := if g.isOpen then g else { g with state := .open }

def close (g : Generator) : Generator := { g with state := .closed }

def enable (g : Generator) : Generator := if g.isOpen then { g with state := .enabled } else g

def disable (g : Generator) : Generator := if g.isEnabled then { g with state := .open } else g

end Generator

/-- An element has at least one generator. -/
structure Element where
  first : Generator
  others : List Generator
  deriving DecidableEq, Repr

namespace Element

def generators (e : Element) : List Generator := e.first :: e.others

def forGenerators (e : Element) (f : Generator → Generator) : Element :=
  ⟨f e.first, e.others.map f⟩

/-- The same for the generators of one CPU. -/
def forCpu (e : Element) (cpu : ℕ) (f : Generator → Generator) : Element :=
  e.forGenerators fun g => if g.cpu = cpu then f g else g

/-- All generators are open, or none. -/
def isOpen (e : Element) : Bool := e.first.isOpen

/-- All generators are enabled, or none. -/
def isEnabled (e : Element) : Bool := e.first.isEnabled

/-- The last generator of a CPU, which is like the others of the CPU. -/
def onCpu (e : Element) (cpu : ℕ) : Option Generator :=
  (e.generators.filter (·.cpu = cpu)).getLast?

def isOpenOnCpu (e : Element) (cpu : ℕ) : Bool := (e.onCpu cpu).elim false Generator.isOpen

def isEnabledOnCpu (e : Element) (cpu : ℕ) : Bool := (e.onCpu cpu).elim false Generator.isEnabled

def listCpus (e : Element) : List ℕ := e.generators.map Generator.cpu

def tryOpen (e : Element) : Element := if e.isOpen then e else e.forGenerators .open

def tryEnable (e : Element) : Element := if e.isEnabled then e else e.forGenerators .enable

def tryClose (e : Element) : Element := if e.isOpen then e.forGenerators .close else e

def tryDisable (e : Element) : Element := if e.isEnabled then e.forGenerators .disable else e

def tryOpenForCpu (e : Element) (cpu : ℕ) : Element :=
  if e.isOpenOnCpu cpu then e else e.forCpu cpu .open

def tryEnableForCpu (e : Element) (cpu : ℕ) : Element :=
  if e.isEnabledOnCpu cpu then e else e.forCpu cpu .enable

def tryCloseForCpu (e : Element) (cpu : ℕ) : Element :=
  if e.isOpenOnCpu cpu then e.forCpu cpu .close else e

def tryDisableForCpu (e : Element) (cpu : ℕ) : Element :=
  if e.isEnabledOnCpu cpu then e.forCpu cpu .disable else e

end Element

/-! ## The monitor -/

inductive Kind where
  | traceMonitors
  | cpuCountReaders
  | uncoreCountReaders
  | iptMonitors
  deriving DecidableEq, Repr

inductive Failure where
  | alreadyThere
  | pmuTypes
  | outOfRange
  | notInMuxQueue
  deriving DecidableEq, Repr

/-- The elements of a container, by their ids. -/
abbrev Container (ElemId : Type) := List (ElemId × Element)

structure Monitor (PmuType MuxGroupId ElemId : Type) where
  state : State
  elems : Kind → Container ElemId
  muxGroups : MuxGroupId → Option (List ElemId)
  muxQueue : List (Option PmuType × List MuxGroupId)
  muxQueuePerPmuType : Bool

namespace Monitor

variable {PmuType MuxGroupId ElemId : Type} [DecidableEq PmuType] [DecidableEq MuxGroupId]
  [DecidableEq ElemId]

def init (muxQueuePerPmuType : Bool) : Monitor PmuType MuxGroupId ElemId :=
  ⟨.closed, fun _ => [], fun _ => none, [], muxQueuePerPmuType⟩

/-! ### Bringing the elements in line -/

section Sync

/-- Elements are changed whose list is the one for the state. -/
def pass (listOf : ElemId → State) (s : State) (f : Element → Element) (c : Container ElemId) :
    Container ElemId :=
  c.map fun e => if listOf e.1 = s then (e.1, f e.2) else e

/-- First the elements to close, then those to open, then those to enable. -/
def commitElemChange (listOf : ElemId → State) (c : Container ElemId) : Container ElemId :=
  let c := pass listOf .closed (fun e => e.tryDisable.tryClose) c
  let c := pass listOf .open (fun e => e.tryDisable.tryOpen) c
  pass listOf .enabled (fun e => e.tryOpen.tryEnable) c

/-- The same on one CPU. -/
def commitElemChangeForCpu (listOf : ElemId → State) (c : Container ElemId) (cpu : ℕ) :
    Container ElemId :=
  let c := pass listOf .closed (fun e => (e.tryDisableForCpu cpu).tryCloseForCpu cpu) c
  let c := pass listOf .open (fun e => (e.tryDisableForCpu cpu).tryOpenForCpu cpu) c
  pass listOf .enabled (fun e => (e.tryOpenForCpu cpu).tryEnableForCpu cpu) c

/-- The CPUs of all elements, in order. -/
def cpusOf (c : Container ElemId) : List ℕ :=
  (c.flatMap fun e => e.2.listCpus).dedup.insertionSort (· ≤ ·)

def commitElemChangeOnLocalCpu (listOf : ElemId → State) (c : Container ElemId) :
    Container ElemId :=
  (cpusOf c).foldl (commitElemChangeForCpu listOf) c

variable (m : Monitor PmuType MuxGroupId ElemId)

/-- The groups at the front of a queue. -/
def getEnabledMuxGroupId : List MuxGroupId := m.muxQueue.filterMap fun q => q.2.head?

/-- `mux_groups_.at`. -/
def muxGroupAt (g : MuxGroupId) : Except Failure (List ElemId) :=
  match m.muxGroups g with
  | some ids => pure ids
  | none => throw .outOfRange

/-- The ids of the elements whose group is at the front of a queue. -/
def enabledElems : Except Failure (List ElemId) := do
  let ids ← m.getEnabledMuxGroupId.mapM m.muxGroupAt
  return ids.flatten

/-- The list that an element is put on. -/
def listOf (enabledElems : List ElemId) (k : ElemId) : State :=
  match m.state with
  | .closed => .closed
  | .open => .open
  | .enabled => if k ∈ enabledElems then .enabled else .open

def syncElems (kind : Kind) (onLocalCpu : Bool) :
    Except Failure (Monitor PmuType MuxGroupId ElemId) := do
  let ids ← m.enabledElems
  let c := if onLocalCpu then commitElemChangeOnLocalCpu (m.listOf ids) (m.elems kind)
    else commitElemChange (m.listOf ids) (m.elems kind)
  return { m with elems := Function.update m.elems kind c }

def sync (uncoreLocal coreLocal : Bool) : Except Failure (Monitor PmuType MuxGroupId ElemId) :=
  if m.muxQueue.length = 0 then pure m
  else do
    let m ← m.syncElems .traceMonitors false
    let m ← m.syncElems .cpuCountReaders coreLocal
    let m ← m.syncElems .uncoreCountReaders uncoreLocal
    m.syncElems .iptMonitors false

end Sync

/-! ### The queues -/

section Queues

variable (m : Monitor PmuType MuxGroupId ElemId)

/-- The queue with its last group moved to the front. -/
def rotate (queue : List MuxGroupId) : List MuxGroupId :=
  match queue.getLast? with
  | some g => g :: queue.dropLast
  | none => []

/-- The loop of `muxRotate`, and whether it went through all queues. -/
def rotateQueues : List (Option PmuType × List MuxGroupId) →
    List (Option PmuType × List MuxGroupId) × Bool
  | [] => ([], true)
  | q :: qs =>
    -- the method returns at an empty queue
    if q.2 = [] then (q :: qs, false)
    else
      let r := rotateQueues qs
      ((q.1, rotate q.2) :: r.1, r.2)

def muxRotate (uncoreLocal coreLocal : Bool) :
    Except Failure (Monitor PmuType MuxGroupId ElemId) :=
  let r := rotateQueues m.muxQueue
  let m := { m with muxQueue := r.1 }
  if r.2 then m.sync uncoreLocal coreLocal else pure m

/-- `mux_queue_[pmu_type].push_back`. -/
def pushGroup (p : Option PmuType) (g : MuxGroupId) :
    List (Option PmuType × List MuxGroupId) :=
  Dict.put m.muxQueue p ((Dict.get? m.muxQueue p).getD [] ++ [g])

def addMuxEntry (g : MuxGroupId) (k : ElemId) (p : Option PmuType) :
    Except Failure (Monitor PmuType MuxGroupId ElemId) :=
  let ids := (m.muxGroups g).getD []
  { m with
    muxQueue := if ids = [] then m.pushGroup p g else m.muxQueue
    muxGroups := Function.update m.muxGroups g (some (if k ∈ ids then ids else ids ++ [k]))
      : Monitor PmuType MuxGroupId ElemId }.sync false false

/-- Remove an element from its group, and the group with its last element.  There is no
result if the element is not in the group. -/
def removeMuxEntry (g : MuxGroupId) (k : ElemId) :
    Except Failure (Option (Monitor PmuType MuxGroupId ElemId)) :=
  match m.muxGroups g with
  | none => pure none
  | some ids =>
    if k ∉ ids then pure none
    else do
      let ids := ids.erase k
      let m ← if ids = [] then
          if m.muxQueue.all fun q => g ∉ q.2 then throw .notInMuxQueue
          else pure { m with
            muxGroups := Function.update m.muxGroups g none
            muxQueue := m.muxQueue.map fun q => (q.1, q.2.erase g) }
        else pure { m with muxGroups := Function.update m.muxGroups g (some ids) }
      let m ← m.sync false false
      return some m

/-- The type of the queue for a metric with events of the types. -/
def getPmuTypeOfMetric (pmuTypes : List PmuType) : Except Failure (Option PmuType) :=
  if m.muxQueuePerPmuType then
    match pmuTypes with
    | [] => throw .pmuTypes
    | p :: ps => if ps.all (· = p) then pure (some p) else throw .pmuTypes
  else pure none

end Queues

/-! ### The methods -/

section Methods

variable (m : Monitor PmuType MuxGroupId ElemId)

def toState (s : State) : Except Failure (Bool × Monitor PmuType MuxGroupId ElemId) :=
  if m.state = s then pure (false, m)
  else do
    let m ← { m with state := s : Monitor PmuType MuxGroupId ElemId }.sync false false
    return (true, m)

/-- Add an element to a container and to a group. -/
def emplace (kind : Kind) (g : MuxGroupId) (k : ElemId)
    (pmuType : Except Failure (Option PmuType)) (cpu : ℕ) (cpus : List ℕ) :
    Except Failure (Bool × Monitor PmuType MuxGroupId ElemId) :=
  if (Dict.get? (m.elems kind) k).isSome then throw .alreadyThere
  else do
    let p ← pmuType
    let m ← m.addMuxEntry g k p
    let elem : Element := ⟨⟨cpu, .closed⟩, cpus.map fun cpu => ⟨cpu, .closed⟩⟩
    let m ← { m with
      elems := Function.update m.elems kind (Dict.put (m.elems kind) k elem)
        : Monitor PmuType MuxGroupId ElemId }.sync false false
    return (true, m)

def emplaceTraceMonitor (g : MuxGroupId) (k : ElemId) (cpu : ℕ) (cpus : List ℕ) :=
  m.emplace .traceMonitors g k (pure none) cpu cpus

def emplaceCpuCountReader (g : MuxGroupId) (k : ElemId) (pmuTypes : List PmuType) (cpu : ℕ)
    (cpus : List ℕ) :=
  m.emplace .cpuCountReaders g k (m.getPmuTypeOfMetric pmuTypes) cpu cpus

/-- An exception is caught, and no reader is returned. -/
def emplaceUncoreCountReader (g : MuxGroupId) (k : ElemId) (pmuTypes : List PmuType) (cpu : ℕ)
    (cpus : List ℕ) :=
  tryCatch (m.emplace .uncoreCountReaders g k (m.getPmuTypeOfMetric pmuTypes) cpu cpus)
    fun _ => pure (false, m)

def emplaceIptMonitor (g : MuxGroupId) (k : ElemId) (cpu : ℕ) (cpus : List ℕ) :=
  m.emplace .iptMonitors g k (pure none) cpu cpus

/-- Remove an element from its group and its container. -/
def erase (kind : Kind) (g : MuxGroupId) (k : ElemId) :
    Except Failure (Bool × Monitor PmuType MuxGroupId ElemId) :=
  if (Dict.get? (m.elems kind) k).isNone then pure (false, m)
  else do
    match ← m.removeMuxEntry g k with
    | none => return (false, m)
    | some m =>
      let m ← { m with
        elems := Function.update m.elems kind (Dict.drop (m.elems kind) k)
          : Monitor PmuType MuxGroupId ElemId }.sync false false
      return (true, m)

def eraseCpuCountReader (g : MuxGroupId) (k : ElemId) := m.erase .cpuCountReaders g k

def eraseUncoreCountReader (g : MuxGroupId) (k : ElemId) := m.erase .uncoreCountReaders g k

end Methods

/-! ### Calls -/

inductive Call (PmuType MuxGroupId ElemId : Type) where
  | emplaceTraceMonitor (g : MuxGroupId) (k : ElemId) (cpu : ℕ) (cpus : List ℕ)
  | emplaceCpuCountReader (g : MuxGroupId) (k : ElemId) (pmuTypes : List PmuType) (cpu : ℕ)
    (cpus : List ℕ)
  | emplaceUncoreCountReader (g : MuxGroupId) (k : ElemId) (pmuTypes : List PmuType) (cpu : ℕ)
    (cpus : List ℕ)
  | emplaceIptMonitor (g : MuxGroupId) (k : ElemId) (cpu : ℕ) (cpus : List ℕ)
  | eraseCpuCountReader (g : MuxGroupId) (k : ElemId)
  | eraseUncoreCountReader (g : MuxGroupId) (k : ElemId)
  | «open»
  | close
  | enable
  | disable
  | muxRotate (uncoreLocal coreLocal : Bool)
  | sync (uncoreLocal coreLocal : Bool)

/-- What a call returns, and the monitor after it. -/
def perform (m : Monitor PmuType MuxGroupId ElemId) :
    Call PmuType MuxGroupId ElemId → Except Failure (Bool × Monitor PmuType MuxGroupId ElemId)
  | .emplaceTraceMonitor g k cpu cpus => m.emplaceTraceMonitor g k cpu cpus
  | .emplaceCpuCountReader g k pmuTypes cpu cpus => m.emplaceCpuCountReader g k pmuTypes cpu cpus
  | .emplaceUncoreCountReader g k pmuTypes cpu cpus =>
    m.emplaceUncoreCountReader g k pmuTypes cpu cpus
  | .emplaceIptMonitor g k cpu cpus => m.emplaceIptMonitor g k cpu cpus
  | .eraseCpuCountReader g k => m.eraseCpuCountReader g k
  | .eraseUncoreCountReader g k => m.eraseUncoreCountReader g k
  | .open => m.toState .open
  | .close => m.toState .closed
  | .enable => m.toState .enabled
  | .disable => m.toState .open
  | .muxRotate uncoreLocal coreLocal => (true, ·) <$> m.muxRotate uncoreLocal coreLocal
  | .sync uncoreLocal coreLocal => (true, ·) <$> m.sync uncoreLocal coreLocal

end Monitor

end Mon
end IntegratedCLI
