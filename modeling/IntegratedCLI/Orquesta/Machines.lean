import IntegratedCLI.Orquesta.WorkflowState

/-!
# The state machines

`TaskStateMachine` gives a task state entry its next status, and
`WorkflowStateMachine` the workflow.  Both append to the name of an event what the
situation is, check the name against the list of the legal ones, and look it up in
the row of the current status.

The workflow machine does one thing after the lookup: if the new status is a
completed one and a staged join can no longer be reached, it sets the status to
`FAILED` instead.
-/

namespace IntegratedCLI
namespace Orquesta

open Effect Status

/-- An event that a conductor is given or makes. -/
inductive Event where
  | workflow (status : Option Status)
  | task (id : String) (route : ℕ) (status : Status)
  | action (status : Option Status) (result : Json)
  | item (itemId : ℕ) (status : Option Status) (result accumulatedResult : Json)
  | operation (command : EngineCommand)
  deriving Repr

namespace Event

def name : Event → EventName
  | workflow st => ⟨.workflow st, []⟩
  | task _ _ st => ⟨.task (some st), []⟩
  | action st _ => ⟨.action st, []⟩
  | item _ st _ _ => ⟨.action st, []⟩
  | operation c => .operation c

def status : Event → Option Status
  | workflow st => st
  | task _ _ st => some st
  | action st _ => st
  | item _ st _ _ => st
  | operation .taskContinue => some .succeeded
  | operation .taskNoop => some .succeeded
  | operation .taskFail => some .failed
  | operation .taskRetry => some .retrying

def result : Event → Json
  | action _ result => result
  | item _ _ result _ => result
  | _ => .null

end Event

/-! ## Tasks -/

namespace TaskStateMachine

/-- The row lookup at the end of every handler: the next status, if there is a
change. -/
def transition (current : Status) (name : EventName) : Except PyError (Option Status) :=
  match taskStateMachineData current with
  | none => throw (.invalidTaskStatusTransition current name)
  | some row => return row.lookup name

/-- The statuses of an item event for which the other items count. -/
def itemRequirements : List Status :=
  [resuming, pending, paused, succeeded, failed, expired, abandoned, canceled]

/-- The suffixes that the other items of the task give to the name of an event. -/
def itemSuffix (items : List (Option Status)) : List Suffix :=
  let has := fun (sts : List Status) => items.any fun st => st.any (· ∈ sts)
  let active := has activeStatuses
  let incomplete := items.any fun st => !st.any (· ∈ completedStatuses)
  let activity : Suffix := if active then .taskActive else .taskDormant
  if !active && has [pending, paused] then [activity, .itemsPaused]
  else if !active && has [canceled] then [activity, .itemsCanceled]
  else if !active && has abendedStatuses then [activity, .itemsFailed]
  else [activity, if incomplete then .itemsIncomplete else .itemsCompleted]

/-- The name of an item event with what the other items of the task are doing. -/
def addContextToTaskItemEvent (s : Conductor) (t : String) (r : ℕ) (itemId : ℕ) (event : Event) :
    Except PyError EventName :=
  if event.status.any (· ∈ itemRequirements) then
    match s.getStagedTask t r with
    | none => throw (.typeError "'NoneType' object is not subscriptable")
    | some x =>
      match x.items with
      | none => throw (.keyError "items")
      | some items =>
        if itemId < items.length then
          return { event.name with
            suffixes := event.name.suffixes ++ itemSuffix (items.eraseIdx itemId) }
        else throw .indexError
  else return event.name

/-- The name of a workflow event with what the items of the task are doing. -/
def addContextToWorkflowEvent (s : Conductor) (t : String) (r : ℕ) (event : Event) : EventName :=
  match (s.getStagedTask t r).bind StagedTaskOf.items with
  | none => event.name
  | some items =>
    if event.status.any (· ∈ pauseStatuses ++ cancelStatuses) then
      let active := items.any fun st => st.any (· ∈ activeStatuses)
      let incomplete := items.any fun st => !st.any (· ∈ completedStatuses)
      (event.name.append (if active then .taskActive else .taskDormant)).append
        (if incomplete then .itemsIncomplete else .itemsCompleted)
    else event.name

/-- The status that the event takes the entry to, if it changes it. -/
def nextStatus (s : Conductor) (e : TaskState) (event : Event) : Except PyError (Option Status) :=
  match event with
  | .workflow _ =>
    if event.name ∈ workflowExecutionEvents then
      transition e.statusOrUnset (addContextToWorkflowEvent s e.id e.route event)
    else throw (.invalidEvent event.name)
  | .item itemId _ _ _ =>
    if event.name ∈ actionExecutionEvents ++ engineOperationEvents then do
      transition e.statusOrUnset (← addContextToTaskItemEvent s e.id e.route itemId event)
    else throw (.invalidEvent event.name)
  | .action _ _ | .operation _ =>
    if event.name ∈ actionExecutionEvents ++ engineOperationEvents then
      transition e.statusOrUnset event.name
    else throw (.invalidEvent event.name)
  | .task _ _ _ => throw (.invalidEventType event.name)

/-- Process the event for the entry at the position. -/
def processEvent (idx : ℕ) (event : Event) : M Unit := do
  let s ← get
  match s.sequence[idx]? with
  | none => throw .indexError
  | some e =>
    match nextStatus s e event with
    | .error x => throw x
    | .ok none => pure ()
    | .ok (some st) => modify (Conductor.updateEntry idx fun e => { e with status := some st })

end TaskStateMachine

/-! ## Workflows -/

namespace WorkflowStateMachine

/-- The row lookup: the next status, if the event is recognized. -/
def transition (current : Status) (name : EventName) : Except PyError (Option Status) :=
  match workflowStateMachineData current with
  | none => throw (.invalidWorkflowStatusTransition current name)
  | some row => return row.lookup name

/-- The name of a task event: an abended task with a transition to go on with is
remediated, and the names of some events say what the other tasks are doing. -/
def addContextToTaskEvent (wf : Workflow) (s : Conductor) (t : String) (r : ℕ) (st : Status) :
    EventName :=
  let hasNextTasks := s.hasNextTasks wf t r
  let remediated := st ∈ abendedStatuses ∧ (hasNextTasks || s.hasBarrierNext wf t r)
  let name : EventName := if remediated then .remediated [] else .task st []
  let activity : Suffix := if s.hasActiveTasks then .workflowActive else .workflowDormant
  let conditional := if name ∈ taskConditionalEvents then name.append activity else name
  if ¬ (st = succeeded ∨ remediated) then conditional
  else if s.hasCancelingTasks || s.hasCanceledTasks then conditional.append .isCanceled
  else if s.hasPausingTasks || s.hasPausedTasks then conditional.append .isPaused
  else if s.hasStagedTasks || hasNextTasks then conditional.append .isIncomplete
  else conditional.append .isCompleted

/-- If a staged join cannot be reached although the workflow is completed, then
the workflow has failed. -/
def failUnreachable (wf : Workflow) : M Unit := do
  let s ← get
  if s.status ∈ completedStatuses then
    let unreachable := s.getUnreachableBarriers wf
    if unreachable = [] then pure ()
    else
      modify (Conductor.setStatus .failed)
      forM unreachable fun x =>
        modify (Conductor.logError (.unreachableJoin x.id x.route) (some x.id) (some x.route) none)
  else pure ()

/-- Process the event that the task has the status `st`. -/
def processTaskEvent (wf : Workflow) (t : String) (r : ℕ) (st : Status) : M Unit := do
  let s ← get
  let name := addContextToTaskEvent wf s t r st
  if name ∈ taskExecutionEvents then
    match transition s.status name with
    | .error x => throw x
    | .ok none => pure ()
    | .ok (some new) =>
      modify (Conductor.setStatus new)
      failUnreachable wf
  else throw (.invalidEvent name)

/-- The name of a workflow event. -/
def addContextToWorkflowEvent (s : Conductor) (st : Option Status) : EventName :=
  let name : EventName := ⟨.workflow st, []⟩
  let name :=
    if st.any (· ∈ pauseStatuses ++ cancelStatuses) then
      name.append (if s.hasActiveTasks then .workflowActive else .workflowDormant)
    else name
  if s.status = paused ∧ st.any (· ∈ [running, resuming]) ∧ !s.hasActiveTasks ∧
      !s.hasStagedTasks ∧ !s.hasPausedTasks then
    name.append .workflowCompleted
  else name

/-- Process the event that the status `st` is requested for the workflow. -/
def processWorkflowEvent (st : Option Status) : M Unit := do
  let s ← get
  let name := addContextToWorkflowEvent s st
  if name ∈ workflowExecutionEvents then
    match transition s.status name with
    | .error x => throw x
    | .ok none => pure ()
    | .ok (some new) => modify (Conductor.setStatus new)
  else throw (.invalidEvent name)

end WorkflowStateMachine

end Orquesta
end IntegratedCLI
