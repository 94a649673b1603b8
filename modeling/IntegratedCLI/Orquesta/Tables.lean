import IntegratedCLI.Orquesta.Events

/-!
# The tables of the state machines

`WORKFLOW_STATE_MACHINE_DATA` and `TASK_STATE_MACHINE_DATA` of `machines.py`: for
a status, the row of the events that are recognized in it, each with the status
it leads to.  A status may have an empty row, and it may have no row at all; the
state machines tell the two apart.  An event that is not in the row of the
current status changes nothing.
-/

namespace IntegratedCLI
namespace Orquesta

open EventName Status Suffix

/-! ## Workflows -/

def workflowRowUnset : List (EventName × Status) :=
  [(workflow requested [], requested), (workflow scheduled [], scheduled),
   (workflow delayed [], delayed), (workflow running [], running), (workflow failed [], failed)]

def workflowRowRequested : List (EventName × Status) :=
  [(workflow scheduled [], scheduled), (workflow delayed [], delayed),
   (workflow running [], running), (workflow pausing [workflowDormant], paused),
   (workflow paused [workflowDormant], paused), (workflow canceling [workflowDormant], canceled),
   (workflow canceled [workflowDormant], canceled), (workflow failed [], failed)]

def workflowRowScheduled : List (EventName × Status) :=
  [(workflow delayed [], delayed), (workflow running [], running),
   (workflow pausing [workflowDormant], paused), (workflow paused [workflowDormant], paused),
   (workflow canceling [workflowDormant], canceled),
   (workflow canceled [workflowDormant], canceled), (workflow failed [], failed)]

def workflowRowDelayed : List (EventName × Status) :=
  [(workflow scheduled [], scheduled), (workflow running [], running),
   (workflow pausing [workflowDormant], paused), (workflow paused [workflowDormant], paused),
   (workflow canceling [workflowDormant], canceled),
   (workflow canceled [workflowDormant], canceled), (workflow failed [], failed)]

def workflowRowRunning : List (EventName × Status) :=
  [(workflow pausing [workflowActive], pausing), (workflow pausing [workflowDormant], paused),
   (workflow paused [workflowActive], pausing), (workflow paused [workflowDormant], paused),
   (workflow canceling [workflowActive], canceling),
   (workflow canceling [workflowDormant], canceled),
   (workflow canceled [workflowActive], canceling),
   (workflow canceled [workflowDormant], canceled), (workflow failed [], failed),
   (workflow succeeded [], succeeded), (task pending [workflowActive], pausing),
   (task pending [workflowDormant], paused), (task pausing [], running),
   (task paused [workflowActive], running), (task paused [workflowDormant], paused),
   (task succeeded [workflowActive, isIncomplete], running),
   (task succeeded [workflowActive, isCompleted], running),
   (task succeeded [workflowActive, isPaused], pausing),
   (task succeeded [workflowActive, isCanceled], canceling),
   (task succeeded [workflowDormant, isIncomplete], running),
   (task succeeded [workflowDormant, isCompleted], succeeded),
   (task succeeded [workflowDormant, isPaused], paused),
   (task succeeded [workflowDormant, isCanceled], canceled),
   (task failed [workflowActive], failed), (task failed [workflowDormant], failed),
   (remediated [workflowActive, isIncomplete], running),
   (remediated [workflowActive, isCompleted], running),
   (remediated [workflowActive, isPaused], pausing),
   (remediated [workflowActive, isCanceled], canceling),
   (remediated [workflowDormant, isIncomplete], running),
   (remediated [workflowDormant, isCompleted], succeeded),
   (remediated [workflowDormant, isPaused], paused),
   (remediated [workflowDormant, isCanceled], canceled), (task canceling [], canceling),
   (task canceled [workflowActive], canceling), (task canceled [workflowDormant], canceled)]

def workflowRowPausing : List (EventName × Status) :=
  [(workflow pausing [workflowActive], pausing), (workflow pausing [workflowDormant], paused),
   (workflow paused [workflowActive], pausing), (workflow paused [workflowDormant], paused),
   (workflow canceling [workflowActive], canceling),
   (workflow canceling [workflowDormant], canceled),
   (workflow canceled [workflowActive], canceling),
   (workflow canceled [workflowDormant], canceled), (workflow running [], running),
   (workflow resuming [], resuming), (workflow failed [], failed),
   (task pending [workflowActive], pausing), (task pending [workflowDormant], paused),
   (task paused [workflowActive], pausing), (task paused [workflowDormant], paused),
   (task succeeded [workflowActive, isIncomplete], pausing),
   (task succeeded [workflowActive, isCompleted], pausing),
   (task succeeded [workflowActive, isPaused], pausing),
   (task succeeded [workflowActive, isCanceled], pausing),
   (task succeeded [workflowDormant, isIncomplete], paused),
   (task succeeded [workflowDormant, isCompleted], paused),
   (task succeeded [workflowDormant, isPaused], paused),
   (task succeeded [workflowDormant, isCanceled], canceled),
   (task failed [workflowActive], failed), (task failed [workflowDormant], failed),
   (remediated [workflowActive, isIncomplete], pausing),
   (remediated [workflowActive, isCompleted], pausing),
   (remediated [workflowActive, isPaused], pausing),
   (remediated [workflowActive, isCanceled], canceling),
   (remediated [workflowDormant, isIncomplete], paused),
   (remediated [workflowDormant, isCompleted], paused),
   (remediated [workflowDormant, isPaused], paused),
   (remediated [workflowDormant, isCanceled], canceled), (task canceling [], canceling),
   (task canceled [workflowActive], canceling), (task canceled [workflowDormant], canceled),
   (task retrying [workflowActive], pausing), (task retrying [workflowDormant], paused)]

def workflowRowPaused : List (EventName × Status) :=
  [(workflow running [], running), (workflow running [workflowCompleted], succeeded),
   (workflow resuming [], resuming), (workflow resuming [workflowCompleted], succeeded),
   (workflow canceling [workflowDormant], canceled),
   (workflow canceled [workflowDormant], canceled), (workflow failed [], failed),
   (task running [], running), (task resuming [], running)]

def workflowRowResuming : List (EventName × Status) :=
  [(workflow pausing [workflowActive], pausing), (workflow pausing [workflowDormant], paused),
   (workflow paused [workflowActive], pausing), (workflow paused [workflowDormant], paused),
   (workflow canceling [workflowActive], canceling),
   (workflow canceling [workflowDormant], canceled),
   (workflow canceled [workflowActive], canceling),
   (workflow canceled [workflowDormant], canceled), (workflow running [], running),
   (workflow failed [], failed), (task running [], running),
   (task pending [workflowActive], pausing), (task pending [workflowDormant], paused),
   (task succeeded [workflowActive, isIncomplete], running),
   (task succeeded [workflowActive, isCompleted], running),
   (task succeeded [workflowDormant, isIncomplete], running),
   (task succeeded [workflowDormant, isCompleted], succeeded),
   (task succeeded [workflowDormant, isPaused], paused),
   (task succeeded [workflowDormant, isCanceled], canceled),
   (task failed [workflowActive], failed), (task failed [workflowDormant], failed),
   (remediated [workflowActive, isIncomplete], running),
   (remediated [workflowActive, isCompleted], running),
   (remediated [workflowDormant, isIncomplete], running),
   (remediated [workflowDormant, isCompleted], succeeded),
   (remediated [workflowDormant, isPaused], paused),
   (remediated [workflowDormant, isCanceled], canceled), (task canceling [], canceling),
   (task canceled [workflowActive], canceling), (task canceled [workflowDormant], canceled)]

def workflowRowCanceling : List (EventName × Status) :=
  [(workflow canceling [workflowActive], canceling),
   (workflow canceling [workflowDormant], canceled),
   (workflow canceled [workflowActive], canceling),
   (workflow canceled [workflowDormant], canceled), (workflow failed [], failed),
   (task pending [workflowActive], canceling), (task pending [workflowDormant], canceled),
   (task paused [workflowActive], canceling), (task paused [workflowDormant], canceled),
   (task succeeded [workflowActive, isIncomplete], canceling),
   (task succeeded [workflowActive, isCompleted], canceling),
   (task succeeded [workflowDormant, isIncomplete], canceled),
   (task succeeded [workflowDormant, isCompleted], canceled),
   (task succeeded [workflowDormant, isPaused], canceled),
   (task succeeded [workflowDormant, isCanceled], canceled),
   (task failed [workflowActive], canceling), (task failed [workflowDormant], canceled),
   (remediated [workflowActive, isIncomplete], canceling),
   (remediated [workflowActive, isCompleted], canceling),
   (remediated [workflowDormant, isIncomplete], canceled),
   (remediated [workflowDormant, isCompleted], canceled),
   (remediated [workflowDormant, isPaused], canceled),
   (remediated [workflowDormant, isCanceled], canceled),
   (task canceled [workflowActive], canceling), (task canceled [workflowDormant], canceled),
   (task retrying [workflowActive], canceling), (task retrying [workflowDormant], canceled)]

def workflowRowCanceled : List (EventName × Status) :=
  []

def workflowRowSucceeded : List (EventName × Status) :=
  [(workflow failed [], failed)]

def workflowRowFailed : List (EventName × Status) :=
  []

/-- The row of a workflow status. -/
def workflowStateMachineData : Status → Option (List (EventName × Status))
  | unset => some workflowRowUnset
  | requested => some workflowRowRequested
  | scheduled => some workflowRowScheduled
  | delayed => some workflowRowDelayed
  | running => some workflowRowRunning
  | pausing => some workflowRowPausing
  | paused => some workflowRowPaused
  | resuming => some workflowRowResuming
  | canceling => some workflowRowCanceling
  | canceled => some workflowRowCanceled
  | succeeded => some workflowRowSucceeded
  | failed => some workflowRowFailed
  | _ => none

/-! ## Tasks -/

def taskRowUnset : List (EventName × Status) :=
  [(action requested [], requested), (action scheduled [], scheduled),
   (action delayed [], delayed), (action running [], running), (action pending [], pending),
   (operation .taskContinue, succeeded), (operation .taskNoop, succeeded),
   (operation .taskFail, failed)]

def taskRowRequested : List (EventName × Status) :=
  [(action scheduled [], scheduled), (action delayed [], delayed), (action running [], running),
   (action pending [], pending), (action pausing [], pausing), (action paused [], paused),
   (action canceling [], canceling), (action canceled [], canceled), (action failed [], failed),
   (action expired [], expired), (action abandoned [], abandoned)]

def taskRowScheduled : List (EventName × Status) :=
  [(action delayed [], delayed), (action running [], running), (action pending [], pending),
   (action pausing [], pausing), (action paused [], paused), (action canceling [], canceling),
   (action canceled [], canceled), (action failed [], failed), (action expired [], expired),
   (action abandoned [], abandoned)]

def taskRowDelayed : List (EventName × Status) :=
  [(action scheduled [], scheduled), (action running [], running), (action pending [], pending),
   (action pausing [], pausing), (action paused [], paused), (action canceling [], canceling),
   (action canceled [], canceled), (action failed [], failed), (action expired [], expired),
   (action abandoned [], abandoned)]

def taskRowRunning : List (EventName × Status) :=
  [(action running [], running), (action pending [], pending),
   (action pending [taskActive, itemsIncomplete], pausing),
   (action pending [taskDormant, itemsPaused], paused),
   (action pending [taskDormant, itemsCanceled], canceled),
   (action pending [taskDormant, itemsFailed], failed),
   (action pending [taskDormant, itemsIncomplete], paused),
   (action pending [taskDormant, itemsCompleted], paused), (action pausing [], pausing),
   (action paused [], paused), (action paused [taskActive, itemsIncomplete], pausing),
   (action paused [taskDormant, itemsPaused], paused),
   (action paused [taskDormant, itemsCanceled], canceled),
   (action paused [taskDormant, itemsFailed], failed),
   (action paused [taskDormant, itemsIncomplete], paused),
   (action paused [taskDormant, itemsCompleted], paused), (action canceling [], canceling),
   (action canceled [], canceled), (action canceled [taskActive, itemsIncomplete], canceling),
   (action canceled [taskDormant, itemsPaused], canceled),
   (action canceled [taskDormant, itemsCanceled], canceled),
   (action canceled [taskDormant, itemsFailed], canceled),
   (action canceled [taskDormant, itemsIncomplete], canceled),
   (action canceled [taskDormant, itemsCompleted], canceled), (action failed [], failed),
   (action failed [taskDormant, itemsPaused], failed),
   (action failed [taskDormant, itemsCanceled], canceled),
   (action failed [taskDormant, itemsFailed], failed),
   (action failed [taskDormant, itemsIncomplete], failed),
   (action failed [taskDormant, itemsCompleted], failed), (action expired [], failed),
   (action expired [taskDormant, itemsPaused], failed),
   (action expired [taskDormant, itemsCanceled], canceled),
   (action expired [taskDormant, itemsFailed], failed),
   (action expired [taskDormant, itemsIncomplete], failed),
   (action expired [taskDormant, itemsCompleted], failed), (action abandoned [], failed),
   (action abandoned [taskDormant, itemsPaused], failed),
   (action abandoned [taskDormant, itemsCanceled], canceled),
   (action abandoned [taskDormant, itemsFailed], failed),
   (action abandoned [taskDormant, itemsIncomplete], failed),
   (action abandoned [taskDormant, itemsCompleted], failed), (action succeeded [], succeeded),
   (action succeeded [taskActive, itemsIncomplete], running),
   (action succeeded [taskDormant, itemsCanceled], canceled),
   (action succeeded [taskDormant, itemsPaused], paused),
   (action succeeded [taskDormant, itemsFailed], failed),
   (action succeeded [taskDormant, itemsIncomplete], running),
   (action succeeded [taskDormant, itemsCompleted], succeeded),
   (workflow pausing [taskActive, itemsIncomplete], pausing),
   (workflow pausing [taskDormant, itemsIncomplete], paused),
   (workflow paused [taskActive, itemsIncomplete], pausing),
   (workflow paused [taskDormant, itemsIncomplete], paused),
   (workflow canceling [taskActive, itemsIncomplete], canceling),
   (workflow canceling [taskDormant, itemsIncomplete], canceled),
   (workflow canceled [taskActive, itemsIncomplete], canceling),
   (workflow canceled [taskDormant, itemsIncomplete], canceled)]

def taskRowPending : List (EventName × Status) :=
  [(action canceled [], canceled), (action failed [], failed), (action expired [], failed),
   (action abandoned [], failed), (action succeeded [], succeeded)]

def taskRowPausing : List (EventName × Status) :=
  [(action pending [taskDormant, itemsPaused], paused),
   (action pending [taskDormant, itemsCanceled], canceled),
   (action pending [taskDormant, itemsFailed], failed),
   (action pending [taskDormant, itemsIncomplete], paused),
   (action pending [taskDormant, itemsCompleted], paused), (action paused [], paused),
   (action paused [taskDormant, itemsPaused], paused),
   (action paused [taskDormant, itemsCanceled], canceled),
   (action paused [taskDormant, itemsFailed], failed),
   (action paused [taskDormant, itemsIncomplete], paused),
   (action paused [taskDormant, itemsCompleted], paused), (action resuming [], resuming),
   (action canceling [], canceling), (action canceled [], canceled),
   (action canceled [taskDormant, itemsPaused], canceled),
   (action canceled [taskDormant, itemsCanceled], canceled),
   (action canceled [taskDormant, itemsFailed], canceled),
   (action canceled [taskDormant, itemsIncomplete], canceled),
   (action canceled [taskDormant, itemsCompleted], canceled), (action failed [], failed),
   (action failed [taskDormant, itemsPaused], failed),
   (action failed [taskDormant, itemsCanceled], canceled),
   (action failed [taskDormant, itemsFailed], failed),
   (action failed [taskDormant, itemsIncomplete], failed),
   (action failed [taskDormant, itemsCompleted], failed), (action expired [], failed),
   (action expired [taskDormant, itemsPaused], failed),
   (action expired [taskDormant, itemsCanceled], canceled),
   (action expired [taskDormant, itemsFailed], failed),
   (action expired [taskDormant, itemsIncomplete], failed),
   (action expired [taskDormant, itemsCompleted], failed), (action abandoned [], failed),
   (action abandoned [taskDormant, itemsPaused], failed),
   (action abandoned [taskDormant, itemsCanceled], canceled),
   (action abandoned [taskDormant, itemsFailed], failed),
   (action abandoned [taskDormant, itemsIncomplete], failed),
   (action abandoned [taskDormant, itemsCompleted], failed),
   (action succeeded [taskDormant, itemsPaused], paused),
   (action succeeded [taskDormant, itemsCanceled], canceled),
   (action succeeded [taskDormant, itemsFailed], failed),
   (action succeeded [taskDormant, itemsIncomplete], paused),
   (action succeeded [taskDormant, itemsCompleted], succeeded)]

def taskRowPaused : List (EventName × Status) :=
  [(action running [], running), (action resuming [], resuming),
   (action canceling [], canceling), (action canceled [], canceled)]

def taskRowResuming : List (EventName × Status) :=
  [(action running [], running), (action canceling [], canceling),
   (action canceled [], canceled)]

def taskRowRetrying : List (EventName × Status) :=
  [(action running [], running), (action canceling [], canceling),
   (action canceled [], canceled), (workflow canceling [], canceled),
   (workflow canceled [], canceled)]

def taskRowCanceling : List (EventName × Status) :=
  [(action pending [taskDormant, itemsPaused], canceled),
   (action pending [taskDormant, itemsCanceled], canceled),
   (action pending [taskDormant, itemsFailed], canceled),
   (action pending [taskDormant, itemsIncomplete], canceled),
   (action pending [taskDormant, itemsCompleted], canceled), (action paused [], canceled),
   (action paused [taskDormant, itemsPaused], canceled),
   (action paused [taskDormant, itemsCanceled], canceled),
   (action paused [taskDormant, itemsFailed], canceled),
   (action paused [taskDormant, itemsIncomplete], canceled),
   (action paused [taskDormant, itemsCompleted], canceled), (action canceled [], canceled),
   (action canceled [taskDormant, itemsPaused], canceled),
   (action canceled [taskDormant, itemsCanceled], canceled),
   (action canceled [taskDormant, itemsFailed], canceled),
   (action canceled [taskDormant, itemsIncomplete], canceled),
   (action canceled [taskDormant, itemsCompleted], canceled), (action failed [], failed),
   (action failed [taskDormant, itemsPaused], canceled),
   (action failed [taskDormant, itemsCanceled], canceled),
   (action failed [taskDormant, itemsFailed], canceled),
   (action failed [taskDormant, itemsIncomplete], canceled),
   (action failed [taskDormant, itemsCompleted], canceled), (action expired [], failed),
   (action expired [taskDormant, itemsPaused], canceled),
   (action expired [taskDormant, itemsCanceled], canceled),
   (action expired [taskDormant, itemsFailed], canceled),
   (action expired [taskDormant, itemsIncomplete], canceled),
   (action expired [taskDormant, itemsCompleted], canceled), (action abandoned [], failed),
   (action abandoned [taskDormant, itemsPaused], canceled),
   (action abandoned [taskDormant, itemsCanceled], canceled),
   (action abandoned [taskDormant, itemsFailed], canceled),
   (action abandoned [taskDormant, itemsIncomplete], canceled),
   (action abandoned [taskDormant, itemsCompleted], canceled),
   (action succeeded [taskDormant, itemsPaused], canceled),
   (action succeeded [taskDormant, itemsCanceled], canceled),
   (action succeeded [taskDormant, itemsFailed], canceled),
   (action succeeded [taskDormant, itemsIncomplete], canceled),
   (action succeeded [taskDormant, itemsCompleted], succeeded)]

def taskRowCanceled : List (EventName × Status) :=
  []

def taskRowSucceeded : List (EventName × Status) :=
  [(operation .taskRetry, retrying)]

def taskRowFailed : List (EventName × Status) :=
  [(operation .taskRetry, retrying)]

/-- The row of a task status. -/
def taskStateMachineData : Status → Option (List (EventName × Status))
  | unset => some taskRowUnset
  | requested => some taskRowRequested
  | scheduled => some taskRowScheduled
  | delayed => some taskRowDelayed
  | running => some taskRowRunning
  | pending => some taskRowPending
  | pausing => some taskRowPausing
  | paused => some taskRowPaused
  | resuming => some taskRowResuming
  | retrying => some taskRowRetrying
  | canceling => some taskRowCanceling
  | canceled => some taskRowCanceled
  | succeeded => some taskRowSucceeded
  | failed => some taskRowFailed
  | _ => none

end Orquesta
end IntegratedCLI
