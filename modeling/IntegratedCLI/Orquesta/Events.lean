import IntegratedCLI.Orquesta.Statuses

/-!
# Events

An event has a name and a status.  In `events.py` a name is a string that is put
together piece by piece: a head such as `"workflow_%s"` or `"action_%s"`, and
then the suffixes that the state machines append to it to say in which situation
the event arrives.  Here a name is the head with the list of its suffixes, so
that appending a suffix is appending to the list, and a name of the source is
the concatenation of its pieces.

The three lists at the end are the legal names.  A state machine raises
`InvalidEvent` for a name that is not in its list.
-/

namespace IntegratedCLI
namespace Orquesta

/-- The engine commands, with the events they are processed by. -/
inductive EngineCommand where
  | taskContinue | taskFail | taskNoop | taskRetry
  deriving DecidableEq, Repr

/-- What the name of an event begins with.  The status is missing for an event
that was made with the status `None`. -/
inductive EventHead where
  | workflow (status : Option Status)
  | task (status : Option Status)
  | remediated
  | action (status : Option Status)
  | operation (command : EngineCommand)
  deriving DecidableEq, Repr

/-- What the state machines append to the name of an event. -/
inductive Suffix where
  | taskActive | taskDormant
  | itemsIncomplete | itemsCompleted | itemsPaused | itemsCanceled | itemsFailed
  | workflowActive | workflowDormant | workflowCompleted
  | isIncomplete | isCompleted | isPaused | isCanceled
  deriving DecidableEq, Repr

structure EventName where
  head : EventHead
  suffixes : List Suffix
  deriving DecidableEq, Repr

namespace EventName

/-- The name with one more suffix at its end. -/
def append (n : EventName) (sfx : Suffix) : EventName :=
  { n with suffixes := n.suffixes ++ [sfx] }

def workflow (st : Status) (sfx : List Suffix) : EventName := ⟨.workflow (some st), sfx⟩

def task (st : Status) (sfx : List Suffix) : EventName := ⟨.task (some st), sfx⟩

def remediated (sfx : List Suffix) : EventName := ⟨.remediated, sfx⟩

def action (st : Status) (sfx : List Suffix) : EventName := ⟨.action (some st), sfx⟩

def operation (command : EngineCommand) : EventName := ⟨.operation command, []⟩

end EventName

open EventName Status Suffix

/-! ## The legal names -/

def workflowExecutionEvents : List EventName :=
  [workflow requested [], workflow scheduled [], workflow delayed [], workflow running [],
  workflow running [workflowCompleted], workflow pausing [],
  workflow pausing [taskActive, itemsIncomplete],
  workflow pausing [taskDormant, itemsIncomplete], workflow pausing [workflowActive],
  workflow pausing [workflowDormant], workflow paused [],
  workflow paused [taskActive, itemsIncomplete], workflow paused [taskDormant, itemsIncomplete],
  workflow paused [workflowActive], workflow paused [workflowDormant], workflow resuming [],
  workflow resuming [workflowCompleted], workflow succeeded [], workflow failed [],
  workflow canceling [], workflow canceling [taskActive, itemsIncomplete],
  workflow canceling [taskDormant, itemsIncomplete], workflow canceling [workflowActive],
  workflow canceling [workflowDormant], workflow canceled [],
  workflow canceled [taskActive, itemsIncomplete],
  workflow canceled [taskDormant, itemsIncomplete], workflow canceled [workflowActive],
  workflow canceled [workflowDormant]]

/-- The task events that say whether the workflow is active, too. -/
def taskConditionalEvents : List EventName :=
  [task pending [], task paused [], task succeeded [], task failed [], remediated [],
  task canceled [], task retrying []]

def taskExecutionEvents : List EventName :=
  [task requested [], task scheduled [], task delayed [], task running [], task pending [],
  task pending [workflowActive], task pending [workflowDormant], task pausing [], task paused [],
  task paused [workflowActive], task paused [workflowDormant], task resuming [],
  task succeeded [], task succeeded [workflowActive, isIncomplete],
  task succeeded [workflowActive, isCompleted], task succeeded [workflowActive, isPaused],
  task succeeded [workflowActive, isCanceled], task succeeded [workflowDormant, isIncomplete],
  task succeeded [workflowDormant, isCompleted], task succeeded [workflowDormant, isPaused],
  task succeeded [workflowDormant, isCanceled], task failed [], task failed [workflowActive],
  task failed [workflowDormant], remediated [], remediated [workflowActive, isIncomplete],
  remediated [workflowActive, isCompleted], remediated [workflowActive, isPaused],
  remediated [workflowActive, isCanceled], remediated [workflowDormant, isIncomplete],
  remediated [workflowDormant, isCompleted], remediated [workflowDormant, isPaused],
  remediated [workflowDormant, isCanceled], task canceling [], task canceled [],
  task canceled [workflowActive], task canceled [workflowDormant], task retrying [],
  task retrying [workflowActive], task retrying [workflowDormant]]

def actionExecutionEvents : List EventName :=
  [action requested [], action scheduled [], action delayed [], action running [],
  action pending [], action pending [taskActive, itemsIncomplete],
  action pending [taskDormant, itemsIncomplete], action pending [taskDormant, itemsCompleted],
  action pending [taskDormant, itemsPaused], action pending [taskDormant, itemsCanceled],
  action pending [taskDormant, itemsFailed], action pausing [], action paused [],
  action paused [taskActive, itemsIncomplete], action paused [taskDormant, itemsIncomplete],
  action paused [taskDormant, itemsCompleted], action paused [taskDormant, itemsPaused],
  action paused [taskDormant, itemsCanceled], action paused [taskDormant, itemsFailed],
  action resuming [], action succeeded [], action succeeded [taskActive, itemsIncomplete],
  action succeeded [taskDormant, itemsIncomplete],
  action succeeded [taskDormant, itemsCompleted], action succeeded [taskDormant, itemsPaused],
  action succeeded [taskDormant, itemsCanceled], action succeeded [taskDormant, itemsFailed],
  action failed [], action failed [taskActive, itemsIncomplete],
  action failed [taskDormant, itemsIncomplete], action failed [taskDormant, itemsCompleted],
  action failed [taskDormant, itemsPaused], action failed [taskDormant, itemsCanceled],
  action failed [taskDormant, itemsFailed], action expired [],
  action expired [taskActive, itemsIncomplete], action expired [taskDormant, itemsIncomplete],
  action expired [taskDormant, itemsCompleted], action expired [taskDormant, itemsPaused],
  action expired [taskDormant, itemsCanceled], action expired [taskDormant, itemsFailed],
  action abandoned [], action abandoned [taskActive, itemsIncomplete],
  action abandoned [taskDormant, itemsIncomplete],
  action abandoned [taskDormant, itemsCompleted], action abandoned [taskDormant, itemsPaused],
  action abandoned [taskDormant, itemsCanceled], action abandoned [taskDormant, itemsFailed],
  action canceling [], action canceled [], action canceled [taskActive, itemsIncomplete],
  action canceled [taskDormant, itemsIncomplete], action canceled [taskDormant, itemsCompleted],
  action canceled [taskDormant, itemsPaused], action canceled [taskDormant, itemsCanceled],
  action canceled [taskDormant, itemsFailed]]

def engineOperationEvents : List EventName :=
  [operation .taskContinue, operation .taskFail, operation .taskNoop, operation .taskRetry]

end Orquesta
end IntegratedCLI
