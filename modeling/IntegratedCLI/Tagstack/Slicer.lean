import Mathlib.Data.List.Basic
import Mathlib.Logic.Function.Basic
import Mathlib.Tactic.Common
import IntegratedCLI.Tagstack.Event

/-!
# The slicer

`Slicer` turns a merged stream of events into one timeline of slices for each
compute unit, as `hbt/src/tagstack/Slicer.h` does.  A state is kept for every
stack that has been seen.  It is active in some groups, or linked in the list of
dormant states of its bottom tag, or neither.

* `TagStackState`, `Slicer`: the data.  `states` only ever grows, so a pointer to
  a state is its index in the list; the vectors with one entry for each group are
  functions of the group.
* `processEvent` handles one event, through the same functions as the source and
  in the same order.
* `processNext` is the loop, over the events that have been queued.

## Checks

The checks that are always compiled in end the run in a `Fault` that names them.
Linking a state that is already linked is one as well: the intrusive list has no
meaning from there on.  The checks that only a debug build makes are left out.

## Uninitialized tags

A stack that is made while an event is handled has some number `n` of set tags,
and no two such stacks have the same number.  An event therefore arrives with
the memory `junk n` that the array of the stack with `n` tags is made in.
-/

namespace IntegratedCLI
namespace Tagstack

/-! ## Slices -/

inductive TransitionType where
  | na
  | analysis
  | threadPreempted
  | threadYield
  | phaseChange
  deriving DecidableEq, Repr

/-- A slice of execution time of a tag stack. -/
structure Slice where
  tstamp : ℕ
  duration : ℕ
  stackId : ℕ
  swinType : TransitionType
  swoutType : TransitionType
  deriving DecidableEq, Repr

def Slice.tstampEnd (s : Slice) : ℕ := s.tstamp + s.duration

/-! ## States of tag stacks -/

def kInvalidTagStackId : ℕ := 2 ^ 64 - 1

/-- What is known of a tag stack.  `cumActiveTime` is a 64 bit time. -/
structure TagStackStats where
  stackId : ℕ
  parentStackId : ℕ
  stack : Stack
  cumActiveTime : ℕ
  numSwins : ℕ
  numSwouts : ℕ
  deriving DecidableEq, Repr

structure SwitchIn where
  tstamp : ℕ
  type : TransitionType
  deriving DecidableEq, Repr

def SwitchIn.none : SwitchIn := ⟨kInvalidTimeStamp, .na⟩

/-- A state: its stats, the hook that links it in the dormant list of a tag, and
its last switch in, one for each group. -/
structure TagStackState where
  stats : TagStackStats
  hook : Option ℕ
  lastSwin : ℕ → SwitchIn

/-- The checks that end a run. -/
inductive Fault where
  /-- The compute unit of the event has no group. -/
  | groupOutOfRange
  /-- The group already has an active state. -/
  | groupActive
  /-- The state is already switched in. -/
  | switchedIn
  | invalidTimeStamp
  | noStates
  /-- The group has no active state. -/
  | groupInactive
  /-- The active state of the group is not switched in. -/
  | notSwitchedIn
  /-- A state is switched out before it was switched in. -/
  | switchOutBeforeIn
  /-- An aliased or empty stack is looked for among the dormant states. -/
  | aliased
  /-- A state is put in a dormant list while it is linked in one. -/
  | alreadyLinked
  deriving DecidableEq, Repr

namespace TagStackState

/-- A state that has never been active. -/
def mk' (stackId parentStackId : ℕ) (s : Stack) : TagStackState :=
  ⟨⟨stackId, parentStackId, s, 0, 0, 0⟩, Option.none, fun _ => SwitchIn.none⟩

def isLinked (ss : TagStackState) : Bool := ss.hook.isSome

def markSwitchIn (ss : TagStackState) (groupIdx tstamp : ℕ) (swinType : TransitionType) :
    Except Fault TagStackState :=
  if (ss.lastSwin groupIdx).tstamp ≠ kInvalidTimeStamp then .error .switchedIn
  else .ok { ss with
    lastSwin := Function.update ss.lastSwin groupIdx ⟨tstamp, swinType⟩
    stats := { ss.stats with numSwins := ss.stats.numSwins + 1 } }

def markSwitchOut (ss : TagStackState) (groupIdx tstamp : ℕ) : Except Fault TagStackState :=
  if tstamp < (ss.lastSwin groupIdx).tstamp then .error .switchOutBeforeIn
  else .ok { ss with
    lastSwin := Function.update ss.lastSwin groupIdx SwitchIn.none
    stats := { ss.stats with
      cumActiveTime :=
        (ss.stats.cumActiveTime + (tstamp - (ss.lastSwin groupIdx).tstamp)) % 2 ^ 64
      numSwouts := ss.stats.numSwouts + 1 } }

/-- Forget the last switch ins, and keep the stats. -/
def restart (ss : TagStackState) : TagStackState :=
  { ss with lastSwin := fun _ => SwitchIn.none }

end TagStackState

instance : Inhabited TagStackState := ⟨.mk' 0 0 ⟨[], 0, false⟩⟩

/-! ## The slicer -/

structure SlicerStats where
  numProcessed : ℕ
  numErrorStart : ℕ
  numErrorEnd : ℕ
  numErrorOutSync : ℕ
  numDropped : ℕ
  numOutOfOrder : ℕ
  numSlicesCompleted : ℕ
  numLogicErrors : ℕ
  deriving DecidableEq, Repr

/-- An event, with the memory the stacks made for it are made in. -/
structure Arrival where
  ev : Event
  junk : ℕ → Tags
  junk_length : ∀ n, (junk n).length = kMaxNumLevels

/-- An event that arrives over memory that holds unknown tags. -/
def Arrival.clean (ev : Event) : Arrival := ⟨ev, fun _ => makeNaTags, fun _ => rfl⟩

/-- The events the slicer is made for: the group exists, the level has room for a
tag above it, and the time stamp is one. -/
structure Arrival.InRange (numGroups : ℕ) (a : Arrival) : Prop where
  compUnitId_lt : a.ev.compUnitId < numGroups
  level_lt : a.ev.level + 1 < kMaxNumLevels
  tstamp_lt : a.ev.tstamp < kInvalidTimeStamp

instance (numGroups : ℕ) (a : Arrival) : Decidable (a.InRange numGroups) :=
  decidable_of_iff (a.ev.compUnitId < numGroups ∧ a.ev.level + 1 < kMaxNumLevels ∧
      a.ev.tstamp < kInvalidTimeStamp)
    ⟨fun h => ⟨h.1, h.2.1, h.2.2⟩, fun h => ⟨h.1, h.2, h.3⟩⟩

/-- The state of a slicer.  `numResets` counts the calls of `resetState`; the
code does not keep it and nothing in the model reads it. -/
structure Slicer where
  numGroups : ℕ
  groupedSlices : ℕ → List Slice
  lastTs : ℕ
  activeStates : ℕ → Option ℕ
  dormantStates : ℕ → List ℕ
  states : List TagStackState
  nextStackId : ℕ
  numActiveWriteErrors : ℕ
  stats : SlicerStats
  numResets : ℕ

/-- The stack of a thread that nothing runs on top of.  Its array is initialized
from one tag, so the rest of it is zero. -/
def Stack.ofThread (tag : ℕ) : Stack := ⟨tag :: List.replicate (kMaxNumLevels - 1) 0, 1, true⟩

namespace Slicer

/-- A slicer with nothing done. -/
def init (numGroups : ℕ) : Slicer :=
  ⟨numGroups, fun _ => [], 0, fun _ => none, fun _ => [], [], 0, 0,
    ⟨0, 0, 0, 0, 0, 0, 0, 0⟩, 0⟩

/-- The state a pointer points to. -/
def state (sl : Slicer) (p : ℕ) : TagStackState := sl.states.getD p default

def setState (sl : Slicer) (p : ℕ) (ss : TagStackState) : Slicer :=
  { sl with states := sl.states.set p ss }

/-- The state of a stack, if it has one. -/
def findState (sl : Slicer) (s : Stack) : Option ℕ :=
  sl.states.findIdx? fun ss => ss.stats.stack.eqv s

/-- Record that an event has been handled. -/
def handled (sl : Slicer) (ev : Event) : Slicer :=
  { sl with
    lastTs := ev.tstamp
    stats := { sl.stats with numProcessed := sl.stats.numProcessed + 1 } }

/-! ### Dormant lists -/

def pushFront (sl : Slicer) (tag p : ℕ) : Except Fault Slicer :=
  if (sl.state p).isLinked then .error .alreadyLinked
  else .ok { sl.setState p { sl.state p with hook := some tag } with
    dormantStates := Function.update sl.dormantStates tag (p :: sl.dormantStates tag) }

def unlink (sl : Slicer) (p : ℕ) : Slicer :=
  match (sl.state p).hook with
  | none => sl
  | some tag => { sl.setState p { sl.state p with hook := none } with
      dormantStates := Function.update sl.dormantStates tag ((sl.dormantStates tag).erase p) }

/-! ### Activation and completion -/

def activateStackState (sl : Slicer) (groupIdx p ts : ℕ) (swinType : TransitionType) :
    Except Fault Slicer :=
  match sl.activeStates groupIdx with
  | some _ => .error .groupActive
  | none =>
    match (sl.state p).markSwitchIn groupIdx ts swinType with
    | .error f => .error f
    | .ok ss => .ok { sl.setState p ss with
        activeStates := Function.update sl.activeStates groupIdx (some p) }

/-- Switch out the active state of a group, and write a slice if it took any
time. -/
def completeSlice (sl : Slicer) (groupIdx ts : ℕ) (swoutType : TransitionType) :
    Except Fault Slicer :=
  if ts = kInvalidTimeStamp then .error .invalidTimeStamp
  else if sl.states = [] then .error .noStates
  else
    match sl.activeStates groupIdx with
    | none => .error .groupInactive
    | some p =>
      let lastSwin := (sl.state p).lastSwin groupIdx
      if lastSwin.tstamp = kInvalidTimeStamp then .error .notSwitchedIn
      else if ts < lastSwin.tstamp then .error .switchOutBeforeIn
      else
        let dur := ts - lastSwin.tstamp
        let slices :=
          if 0 < dur then
            sl.groupedSlices groupIdx ++
              [⟨lastSwin.tstamp, dur, (sl.state p).stats.stackId, lastSwin.type, swoutType⟩]
          else sl.groupedSlices groupIdx
        match (sl.state p).markSwitchOut groupIdx ts with
        | .error f => .error f
        | .ok ss => .ok { sl.setState p ss with
            groupedSlices := Function.update sl.groupedSlices groupIdx slices
            stats := { sl.stats with numSlicesCompleted := sl.stats.numSlicesCompleted + 1 } }

/-- Put a state for a stack among the states, unless there is one.  The stack id
is spent either way. -/
def emplaceState (sl : Slicer) (parentSid : ℕ) (s : Stack) : Slicer × ℕ :=
  match sl.findState s with
  | some p => ({ sl with nextStackId := sl.nextStackId + 1 }, p)
  | none =>
    ({ sl with
        nextStackId := sl.nextStackId + 1
        states := sl.states ++ [.mk' sl.nextStackId parentSid s] }, sl.states.length)

/-- Create the state of a stack with `n` set tags, after those of its parents
that do not exist yet. -/
def createStackState (sl : Slicer) (junk : ℕ → Tags) : ℕ → Stack → Slicer × ℕ
  | 0, s => sl.emplaceState kInvalidTagStackId s
  | n + 1, s =>
    let parentStack := s.copyTruncated n s.knownNumLevels (junk n)
    match sl.findState parentStack with
    | some p => sl.emplaceState (sl.state p).stats.stackId s
    | none =>
      let r := createStackState sl junk n parentStack
      r.1.emplaceState (r.1.state r.2).stats.stackId s

def activateStackStateExactMatch (sl : Slicer) (junk : ℕ → Tags) (groupIdx : ℕ)
    (newStack : Stack) (tstamp : ℕ) (swinType : TransitionType) : Except Fault Slicer :=
  match sl.findState newStack with
  | none =>
    let r := sl.createStackState junk newStack.numSetTags newStack
    r.1.activateStackState groupIdx r.2 tstamp swinType
  | some p => (sl.unlink p).activateStackState groupIdx p tstamp swinType

/-- Whether a stack can appear in multiple groups at the same time. -/
def isAliased (kHandleTID0 : Bool) (s : Stack) : Bool :=
  let isTid0 := s.numSetTags == 1 && s.tagAt 0 == 0
  let isEmptyCallStack := s.numSetTags == 0
  if kHandleTID0 then isTid0 || isEmptyCallStack || s.hasNAs
  else isEmptyCallStack || s.hasNAs

def activateStackStateThatContains (sl : Slicer) (kHandleTID0 : Bool) (junk : ℕ → Tags)
    (groupIdx : ℕ) (stack : Stack) (numLevels tstamp : ℕ) (swinType : TransitionType) :
    Except Fault Slicer :=
  if isAliased kHandleTID0 stack then .error .aliased
  else if stack.numSetTags = 0 then .error .aliased
  else
    match (sl.dormantStates (stack.tagAt 0)).find?
        fun p => (sl.state p).stats.stack.contains stack numLevels with
    | some p => (sl.unlink p).activateStackState groupIdx p tstamp swinType
    | none =>
      sl.activateStackStateExactMatch junk groupIdx ⟨stack.tags, stack.numSetTags, false⟩ tstamp
        swinType

/-- Drop every active state and every dormant list.  The states remain. -/
def resetState (sl : Slicer) : Slicer :=
  { sl with
    activeStates := fun _ => none
    dormantStates := fun _ => []
    states := sl.states.map fun ss => { ss.restart with hook := none }
    numResets := sl.numResets + 1 }

/-! ### The handlers of an event -/

/-- Handle the start and the end of an error window, and drop what lies in one.
The number of open windows is an unsigned 32 bit number. -/
def handleWriteErrors (sl : Slicer) (ev : Event) : Option Slicer :=
  if ev.type = .writeErrorsEnd then
    let sl := sl.handled ev
    some { sl with
      stats := { sl.stats with numErrorEnd := sl.stats.numErrorEnd + 1 }
      numActiveWriteErrors := (sl.numActiveWriteErrors + (2 ^ 32 - 1)) % 2 ^ 32 }
  else if ev.type = .writeErrorsStart then
    let sl := (sl.handled ev).resetState
    some { sl with
      stats := { sl.stats with numErrorStart := sl.stats.numErrorStart + 1 }
      numActiveWriteErrors := (sl.numActiveWriteErrors + 1) % 2 ^ 32 }
  else if sl.numActiveWriteErrors ≠ 0 then
    let sl := sl.handled ev
    some { sl with stats := { sl.stats with numDropped := sl.stats.numDropped + 1 } }
  else none

/-- Handle the creation and the destruction of a thread. -/
def handleThreadLifetime (sl : Slicer) (ev : Event) (junk : ℕ → Tags) :
    Option (Except Fault Slicer) :=
  if ev.isThreadLifetime then
    if ev.level ≠ 0 then
      let sl := sl.handled ev
      some (.ok { sl with
        stats := { sl.stats with
          numDropped := sl.stats.numDropped + 1
          numLogicErrors := sl.stats.numLogicErrors + 1 } })
    else if ev.type = .threadCreation then
      let s := Stack.ofThread ev.tag
      let r := sl.createStackState junk s.numSetTags s
      match r.1.pushFront (s.tagAt 0) r.2 with
      | .error f => some (.error f)
      | .ok sl => some (.ok (sl.handled ev))
    else some (.ok (sl.handled ev))
  else none

def eventToTransitionType (ev : Event) : TransitionType :=
  match ev.type with
  | .start | .end => .phaseChange
  | .switchIn | .switchOutYield => .threadYield
  | .switchOutPreempt => .threadPreempted
  | _ => .na

/-- Make the active state of the event's group dormant, if there is one, and
complete its slice. -/
def handleLastState (sl : Slicer) (kHandleTID0 : Bool) (ev : Event) : Except Fault Slicer :=
  match sl.activeStates ev.compUnitId with
  | none => .ok sl
  | some p =>
    let pushed :=
      if isAliased kHandleTID0 (sl.state p).stats.stack then .ok sl
      else sl.pushFront ((sl.state p).stats.stack.tagAt 0) p
    match pushed with
    | .error f => .error f
    | .ok sl =>
      match sl.completeSlice ev.compUnitId ev.tstamp (eventToTransitionType ev) with
      | .error f => .error f
      | .ok sl => .ok { sl with
          activeStates := Function.update sl.activeStates ev.compUnitId none }

/-- The stack that was active in the event's group, as far as it is known. -/
def lastStack (sl : Slicer) (ev : Event) : Stack :=
  match sl.activeStates ev.compUnitId with
  | some p => (sl.state p).stats.stack
  | none => Stack.ofLevels (ev.level + if ev.isOut then 1 else 0) ev.isPhase

/-- Whether a pop does not fit the stack it pops from. -/
def eventOutPreConditionError (ev : Event) (lastStack : Stack) : Bool :=
  lastStack.knownNumLevels && 0 < lastStack.numSetTags && lastStack.numSetTags ≤ ev.level

/-- Whether a push finds a tag where it would put one. -/
def eventInPreConditionError (ev : Event) (lastStack : Stack) : Bool :=
  ev.level < lastStack.numSetTags && lastStack.tagAt ev.level != kNA

/-- The state the event's group goes on to, from the stack that was active. -/
def activateNext (sl : Slicer) (kHandleTID0 : Bool) (ev : Event) (junk : ℕ → Tags)
    (lastStack : Stack) : Except Fault Slicer :=
  if ev.isOut then
    sl.activateStackStateExactMatch junk ev.compUnitId
      (lastStack.copyTruncated ev.level true (junk ev.level)) ev.tstamp (eventToTransitionType ev)
  else
    let bottomStack := lastStack.copyFillUpTo ev.level ev.tag
      (lastStack.knownNumLevels || ev.isPhase) (junk (ev.level + 1))
    if isAliased kHandleTID0 bottomStack || ev.isPhase then
      sl.activateStackStateExactMatch junk ev.compUnitId bottomStack ev.tstamp
        (eventToTransitionType ev)
    else
      sl.activateStackStateThatContains kHandleTID0 junk ev.compUnitId bottomStack (ev.level + 1)
        ev.tstamp (eventToTransitionType ev)

/-- Handle an event that pushes or pops a tag. -/
def handleTransition (sl : Slicer) (kHandleTID0 : Bool) (ev : Event) (junk : ℕ → Tags) :
    Except Fault Slicer :=
  match sl.handleLastState kHandleTID0 ev with
  | .error f => .error f
  | .ok sl' =>
    let lastStack := sl.lastStack ev
    if ev.isOut && eventOutPreConditionError ev lastStack then
      let sl' := (sl'.handled ev).resetState
      .ok { sl' with stats := { sl'.stats with numErrorOutSync := sl'.stats.numErrorOutSync + 1 } }
    else if !ev.isOut && eventInPreConditionError ev lastStack then
      .ok (sl'.handled ev).resetState
    else
      match sl'.activateNext kHandleTID0 ev junk lastStack with
      | .error f => .error f
      | .ok sl' => .ok (sl'.handled ev)

/-- Start over from an event that lies before the last one. -/
def handleOutOfOrder (sl : Slicer) (ev : Event) : Slicer :=
  if ev.tstamp < sl.lastTs then
    { sl.resetState with
      lastTs := ev.tstamp
      stats := { sl.stats with numOutOfOrder := sl.stats.numOutOfOrder + 1 } }
  else sl

/-- Handle one event. -/
def processEvent (kHandleTID0 : Bool) (sl : Slicer) (a : Arrival) : Except Fault Slicer :=
  if sl.numGroups ≤ a.ev.compUnitId then .error .groupOutOfRange
  else
    let sl := sl.handleOutOfOrder a.ev
    match sl.handleWriteErrors a.ev with
    | some sl => .ok sl
    | none =>
      match sl.handleThreadLifetime a.ev a.junk with
      | some r => r
      | none => sl.handleTransition kHandleTID0 a.ev a.junk

/-- Process the queued events up to `stopTs`, at most `maxNumEvents` of them. -/
def processNext (kHandleTID0 : Bool) (stopTs : ℕ) :
    ℕ → List Arrival × Slicer → Except Fault (List Arrival × Slicer)
  | 0, s => .ok s
  | _ + 1, ([], sl) => .ok ([], sl)
  | maxNumEvents + 1, (a :: events, sl) =>
    if stopTs < a.ev.tstamp then .ok (a :: events, sl)
    else
      match sl.processEvent kHandleTID0 a with
      | .error f => .error f
      | .ok sl' => processNext kHandleTID0 stopTs maxNumEvents (events, sl')

/-- Calls of `processNext`, each with its limit on the number of events and its
stop time. -/
def processCalls (kHandleTID0 : Bool) :
    List Arrival × Slicer → List (ℕ × ℕ) → Except Fault (List Arrival × Slicer)
  | s, [] => .ok s
  | s, (maxNumEvents, stopTs) :: calls =>
    match processNext kHandleTID0 stopTs maxNumEvents s with
    | .error f => .error f
    | .ok s' => processCalls kHandleTID0 s' calls

/-- Handle events one after the other. -/
def processEvents (kHandleTID0 : Bool) : Slicer → List Arrival → Except Fault Slicer
  | sl, [] => .ok sl
  | sl, a :: as =>
    match sl.processEvent kHandleTID0 a with
    | .error f => .error f
    | .ok sl' => processEvents kHandleTID0 sl' as

/-! ### The loop handles the events that are due, in order -/

variable (kHandleTID0 : Bool)

theorem processEvents_append (sl : Slicer) (as bs : List Arrival) :
    processEvents kHandleTID0 sl (as ++ bs) =
      (processEvents kHandleTID0 sl as).bind fun sl' => processEvents kHandleTID0 sl' bs := by
  induction as generalizing sl with
  | nil => rfl
  | cons a as ih =>
    rw [List.cons_append, processEvents, processEvents]
    cases sl.processEvent kHandleTID0 a with
    | error f => rfl
    | ok sl' => exact ih sl'

/-- A call handles the events at the front of the queue that are due, as many as
it may. -/
theorem processNext_eq (stopTs n : ℕ) (as : List Arrival) (sl : Slicer) :
    ∃ k, processNext kHandleTID0 stopTs n (as, sl) =
      (processEvents kHandleTID0 sl (as.take k)).map fun sl' => (as.drop k, sl') := by
  induction n generalizing as sl with
  | zero => exact ⟨0, rfl⟩
  | succ n ih =>
    cases as with
    | nil => exact ⟨0, rfl⟩
    | cons a as =>
      by_cases hstop : stopTs < a.ev.tstamp
      · exact ⟨0, by rw [processNext, if_pos hstop]; rfl⟩
      · cases hev : sl.processEvent kHandleTID0 a with
        | error f =>
          refine ⟨1, ?_⟩
          rw [processNext, if_neg hstop, hev, List.take_succ_cons, processEvents, hev]
          rfl
        | ok sl' =>
          obtain ⟨k, hk⟩ := ih as sl'
          refine ⟨k + 1, ?_⟩
          rw [processNext, if_neg hstop, hev, List.take_succ_cons, processEvents, hev]
          exact hk

theorem processCalls_eq (calls : List (ℕ × ℕ)) (as : List Arrival) (sl : Slicer) :
    ∃ k, processCalls kHandleTID0 (as, sl) calls =
      (processEvents kHandleTID0 sl (as.take k)).map fun sl' => (as.drop k, sl') := by
  induction calls generalizing as sl with
  | nil => exact ⟨0, rfl⟩
  | cons call calls ih =>
    obtain ⟨n, stopTs⟩ := call
    obtain ⟨k, hk⟩ := processNext_eq kHandleTID0 stopTs n as sl
    cases hev : processEvents kHandleTID0 sl (as.take k) with
    | error f =>
      refine ⟨k, ?_⟩
      rw [processCalls, hk, hev]
      rfl
    | ok sl' =>
      obtain ⟨j, hj⟩ := ih (as.drop k) sl'
      refine ⟨k + j, ?_⟩
      have htake : as.take (k + j) = as.take k ++ (as.drop k).take j := List.take_add
      rw [processCalls, hk, hev, htake, processEvents_append, hev, ← List.drop_drop]
      exact hj

end Slicer

end Tagstack
end IntegratedCLI
