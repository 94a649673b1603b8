import IntegratedCLI.Lib.Run
import IntegratedCLI.Orquesta.Machines

/-!
# The conductor

The methods of `WorkflowConductor`: making the state of a new workflow,
`request_workflow_status`, `update_task_state`, `get_next_tasks`, and the restore
of a serialized state.

`update_task_state` is one long method that calls itself for a retry and for the
engine commands it finds among the next tasks.  Its parts are definitions of
their own here, in the order in which it goes through them:

* `openEntry` finds the entry of the task, or makes one;
* `recordEvent` takes the task off staging, records the status of an item, and
  logs a failed execution;
* `restage` stages a task that is to be retried;
* `completeTask` takes a completed task off staging and makes its context, and
  `needsRetry` evaluates its retry;
* `stageTransitions` evaluates the transitions of a completed task and stages its
  next tasks, one after the other (`stageTransition`);
* the workflow machine processes the task event, and the engine commands that
  were found are processed in turn.

A call of the recursion that is deeper than `recursionLimit` raises
`RecursionError`.
-/

namespace IntegratedCLI
namespace Orquesta

open Effect Status

def recursionLimit : ℕ := 1000

/-! ## Contexts -/

/-- Merge the context with the index into the dictionary `r`. -/
def mergeContext (r : Ref) (i : ℕ) : M Unit := do
  let s ← get
  match s.contexts[i]? with
  | none => throw .indexError
  | some c => modify fun s => { s with dicts := s.dicts.merge r c }

/-- The contexts with the indices, merged from left to right into a new dictionary. -/
def getTaskContext (idxs : List ℕ) : M (List (String × Json)) := do
  let s ← get
  let r := s.dicts.length
  modify fun s => { s with dicts := s.dicts ++ [[]] }
  forM idxs (mergeContext r)
  let s ← get
  return s.dicts.fields r

def getTaskInitialContext (t : String) (r : ℕ) : M (List (String × Json)) := do
  let s ← get
  match s.getStagedTask t r with
  | some x => getTaskContext (s.list x.ctxsIn)
  | none =>
    match s.getTaskStateEntry t r with
    | some e => getTaskContext (s.list e.ctxsIn)
    | none => throw (.valueError "Unable to determine context for task.")

/-- Put the fields on the heap as a new dictionary. -/
def loadDict (vars : List (String × Json)) : M Ref := do
  let s ← get
  let (d, dicts) := Dicts.loadFields vars s.dicts
  modify fun s => { s with dicts := dicts ++ [d] }
  return dicts.length

/-- A new context at the end of the contexts, and its index. -/
def appendContext (vars : List (String × Json)) : M ℕ := do
  let r ← loadDict vars
  let s ← get
  modify fun s => { s with contexts := s.contexts ++ [r] }
  return s.contexts.length

/-! ## The status of the workflow -/

/-- Request a status for the workflow.  The active tasks are told first. -/
def requestWorkflowStatus (st : Option Status) : M Unit := do
  let s ← get
  let current := s.status
  forM (s.getTasksByStatus activeStatuses) fun (_, i) =>
    TaskStateMachine.processEvent i (.workflow st)
  WorkflowStateMachine.processWorkflowEvent st
  let updated := (← get).status
  if st = some paused ∧ current = pausing ∧ updated = pausing then return
  else if st = some canceled ∧ current = canceling ∧ updated = canceling then return
  else if st ≠ some current ∧ current = updated then
    throw (.invalidWorkflowStatusTransition current ⟨.workflow st, []⟩)
  else return

/-! ## Making a new task state entry -/

/-- An integer, or the value of an expression for one. -/
def evaluateInt (wf : Workflow) (ctx : EvalContext) (raise : PyError) : IntSpec → Except PyError ℤ
  | .int n => return n
  | .expr text => do
    let v ← (wf.evaluator.evaluate ctx (.str text)).mapError PyError.evaluation
    match v.asInt with
    | some n => return n
    | none => throw raise

/-- The retry of a new entry, with its delay and its count evaluated. -/
def setupRetry (wf : Workflow) (spec : RetrySpec) (ctxs : Ref) : M Retry := do
  let s ← get
  let vars ← getTaskContext (s.list ctxs)
  let ctx : EvalContext := ⟨vars, none, none, none⟩
  let delay ← match spec.delay with
    | none => pure none
    | some d => some <$> lift (evaluateInt wf ctx (.valueError "The retry delay is not an integer.") d)
  let count ←
    lift (evaluateInt wf ctx (.valueError "The retry count is not an integer.") spec.count)
  return ⟨spec.when, count, delay, 0⟩

/-- Append an entry to the sequence; it is the last one of its task and route. -/
def pushEntry (e : TaskState) (s : Conductor) : Conductor :=
  { s with
    sequence := s.sequence ++ [e]
    tasks := Dict.put s.tasks ⟨e.id, e.route⟩ s.sequence.length }

/-- Start a new entry for the task with the contexts and the back references of
the staged task. -/
def addTaskState (wf : Workflow) (t : String) (r : ℕ) (ctxs prev : Ref) : M Unit := do
  if !wf.graph.hasTask t then throw (.invalidTask t)
  else
    let s ← get
    let (ctxs, s) := s.orRoot ctxs
    let (prev, s) := s.orEmpty prev
    set s
    match wf.graph.getTaskRetrySpec t with
    | none => modify (pushEntry ⟨t, r, ctxs, none, prev, [], none, none, false⟩)
    | some spec => do
      let x ← setupRetry wf spec ctxs
      let s ← get
      let (x, s) := s.allocRetry x
      set (pushEntry ⟨t, r, ctxs, none, prev, [], none, some x, false⟩ s)

/-- Start a new entry from the staged task. -/
def startEntry (wf : Workflow) (t : String) (staged : Option StagedTask) : M Unit :=
  match staged with
  | none => throw (.typeError "'NoneType' object is not subscriptable")
  | some x => addTaskState wf t x.route x.ctxsIn x.prev

/-- A task without an entry and an engine command start a new one. -/
def ensureEntry (wf : Workflow) (t : String) (r : ℕ) (staged : Option StagedTask) : M Unit := do
  let s ← get
  if (s.getTaskStateEntry t r).isNone || isReserved t then startEntry wf t staged else pure ()

/-- A completed task that starts again has a new entry. -/
def renewEntry (wf : Workflow) (t : String) (r : ℕ) (staged : Option StagedTask)
    (event : Event) : M Unit := do
  let s ← get
  match s.getTaskStateEntry t r with
  | none => throw (.keyError t)
  | some e =>
    if e.status.any (· ∈ completedStatuses) && event.status.any (· ∈ startingStatuses) then
      startEntry wf t staged
    else pure ()

/-- The position of the entry that the event is for. -/
def openEntry (wf : Workflow) (t : String) (r : ℕ) (event : Event) : M ℕ := do
  let staged := (← get).getStagedTask t r
  ensureEntry wf t r staged
  renewEntry wf t r staged event
  let s ← get
  match s.taskStateIdx t r with
  | none => throw (.keyError t)
  | some idx => return idx

/-! ## Recording the event -/

/-- Take a task without items off staging. -/
def unstageOnEvent (t : String) (r : ℕ) (event : Event) : M Unit := do
  let s ← get
  if event.status.isSome && (s.getStagedTask t r).any (fun x => x.items.isNone) then
    modify (Conductor.removeStagedTask t r)
  else pure ()

/-- Record the status of the item that the event is for in the staged task. -/
def recordItem (t : String) (r : ℕ) (staged : Option StagedTask) (event : Event) : M Unit := do
  match staged, event with
  | some x, .item itemId st _ _ =>
    match x.items with
    | none => throw (.keyError "items")
    | some items =>
      if itemId < items.length then
        let s ← get
        match s.stagedIdx t r with
        | none => pure ()
        | some i =>
          modify (Conductor.updateStaged i fun x => { x with items := some (items.set itemId st) })
      else throw .indexError
  | _, _ => pure ()

def logFailed (t : String) (event : Event) : M Unit :=
  if event.status = some failed then
    let result := match event.result with
      | .null => none
      | j => some j
    modify (Conductor.logEntry ⟨.executionFailed, some t, none, none, result⟩)
  else pure ()

def recordEvent (t : String) (r : ℕ) (event : Event) : M Unit := do
  let staged := (← get).getStagedTask t r
  unstageOnEvent t r event
  recordItem t r staged event
  logFailed t event

/-! ## A task that is retried -/

/-- Count the retry and stage the task again, with the objects of its entry. -/
def restage (t : String) (r : ℕ) (idx : ℕ) : M Unit := do
  let s ← get
  match s.sequence[idx]? with
  | none => throw .indexError
  | some e =>
    match e.retry with
    | none => throw (.keyError "retry")
    | some x =>
      modify fun s => { s with
        retries := s.retries.modify x fun retry => { retry with tally := retry.tally + 1 } }
      modify (Conductor.removeStagedTask t r)
      modify (Conductor.addStagedTask t r e.ctxsIn e.prev true (some x))

/-! ## A task that is completed -/

/-- Take the task off staging.  A task with items that abended stays for a rerun. -/
def closeStaged (spec : TaskSpec) (t : String) (r : ℕ) (st : Status) : M Unit := do
  if spec.hasItems && decide (st ∈ abendedStatuses) then
    let s ← get
    match s.stagedIdx t r with
    | none => throw (.typeError "'NoneType' object does not support item assignment")
    | some i => modify (Conductor.updateStaged i fun x => { x with completed := true })
  else modify (Conductor.removeStagedTask t r)

/-- The result of the task. -/
def makeTaskResult (spec : TaskSpec) (event : Event) : Json :=
  if spec.hasItems then
    let result := match event with
      | .item _ _ _ accumulated => accumulated
      | event => event.result
    if result.truthy then result else .list []
  else event.result

/-- The context in which the retry and the transitions of the entry are evaluated. -/
def makeTaskContext (idx : ℕ) (result : Json) : M EvalContext := do
  let s ← get
  match s.sequence[idx]? with
  | none => throw .indexError
  | some e =>
    let vars ← getTaskContext (s.list e.ctxsIn)
    return ⟨vars, some ⟨e.id, e.route, some result⟩, none, some (← get).serialize⟩

def completeTask (spec : TaskSpec) (t : String) (r : ℕ) (idx : ℕ) (st : Status) (event : Event) :
    M EvalContext := do
  closeStaged spec t r st
  makeTaskContext idx (makeTaskResult spec event)

/-- Whether the entry is to be retried. -/
def evaluateTaskRetry (wf : Workflow) (s : Conductor) (idx : ℕ) (ctx : EvalContext) :
    Except PyError Bool :=
  match s.sequence[idx]? with
  | none => throw .indexError
  | some e =>
    match e.retry with
    | none => return false
    | some x =>
      let retry := s.retry x
      if retry.count ≤ retry.tally then return false
      else
        match retry.when with
        | none => return decide (e.statusOrUnset ∈ abendedStatuses)
        | some text => do
          let v ← (wf.evaluator.evaluate ctx (.str text)).mapError PyError.evaluation
          return v.truthy

/-- Whether a retry is due.  It is evaluated in an active workflow only. -/
def needsRetry (wf : Workflow) (idx : ℕ) (ctx : EvalContext) : M Bool := do
  let s ← get
  if s.status ∈ activeStatuses then lift (evaluateTaskRetry wf s idx ctx) else return false

/-! ## The transitions of a completed task -/

/-- What the loop over the transitions collects: the engine commands, whether one
of them is `fail`, and the positions of the staged tasks that are ready. -/
structure Outgoing where
  commands : List (String × ℕ)
  manualFail : Bool
  readyNext : List ℕ

/-- The route that the transition leads to.  A task with more than one transition
into it and no join has a route for each way to it. -/
def evaluateRoute (wf : Workflow) (edge : Edge) (r : ℕ) : M ℕ := do
  let split ← lift (wf.spec.isSplitTask edge.dst)
  if !split || wf.graph.inCycle edge.dst then return r
  else
    let s ← get
    match s.routes[r]? with
    | none => throw .indexError
    | some old =>
      let tid : TransitionId := ⟨edge.src, edge.key⟩
      if tid ∈ old then return r
      else
        modify fun s => { s with routes := s.routes ++ [old ++ [tid]] }
        return s.routes.length

/-- Whether all criteria of the transition hold. -/
def evaluateCriteria (wf : Workflow) (edge : Edge) (ctx : EvalContext) :
    Except EvaluationError Bool := do
  let values ← edge.criteria.mapM fun c => wf.evaluator.evaluate ctx (.str c)
  return values.all Json.truthy

/-- Stage the next task, or extend it where it is staged; its position. -/
def stageNext (t : String) (edge : Edge) (idx : ℕ) (route : ℕ) (ctxs : List ℕ) : M ℕ := do
  let s ← get
  let backref : TransitionId := ⟨t, edge.key⟩
  match s.stagedIdx edge.dst route with
  | some i =>
    match s.staged[i]? with
    | none => throw .indexError
    | some x =>
      if 0 ∉ ctxs then throw (.valueError "list.remove(x): x not in list")
      else
        modify fun s => { s with
          lists := s.lists.modify x.ctxsIn (· ++ ctxs.erase 0)
          prevs := s.prevs.modify x.prev fun p => Dict.put p backref idx }
        modify (Conductor.updateStaged i fun x => { x with items := none, completed := false })
        return i
  | none =>
    let (l, s) := s.allocList ctxs
    let (p, s) := s.allocPrev [(backref, idx)]
    set (s.addStagedTask edge.dst route l p false none)
    return s.staged.length

/-- A satisfied transition: finalize its context and stage the next task. -/
def takeTransition (wf : Workflow) (spec : TaskSpec) (t : String) (r idx : ℕ) (ctx : EvalContext)
    (out : Outgoing) (edge : Edge) : M Outgoing := do
  let tid : TransitionId := ⟨edge.dst, edge.key⟩
  let (vars, errors) ← lift (spec.finalizeContext wf.evaluator edge.dst edge.ref ctx)
  if !errors.isEmpty then
    modify (Conductor.logErrors errors (some t) (some r) (some tid))
    requestWorkflowStatus (some failed)
    return out
  else
    let s ← get
    let ctxsIn := (s.sequence[idx]?).elim [] fun e => s.list e.ctxsIn
    let ctxs ←
      if vars.isEmpty then pure ctxsIn
      else do
        let new ← appendContext vars
        modify (Conductor.updateEntry idx fun e => { e with ctxsOut := some (tid, new) })
        pure (ctxsIn ++ [new])
    let route ← evaluateRoute wf edge r
    let i ← stageNext t edge idx route ctxs
    -- the inbound criteria are those of the route that the task is on
    let s ← get
    let ready := decide (s.getInboundCriteriaStatus wf edge.dst r = .satisfied)
    modify (Conductor.updateStaged i fun x => { x with ready := ready })
    if isReserved edge.dst then
      return { out with
        commands := out.commands ++ [(edge.dst, route)]
        manualFail := out.manualFail || edge.dst = "fail" }
    else if ready then return { out with readyNext := out.readyNext ++ [i] }
    else return out

/-- One transition of the completed task. -/
def stageTransition (wf : Workflow) (spec : TaskSpec) (t : String) (r idx : ℕ) (ctx : EvalContext)
    (out : Outgoing) (edge : Edge) : M Outgoing := do
  let tid : TransitionId := ⟨edge.dst, edge.key⟩
  match evaluateCriteria wf edge ctx with
  | .error e =>
    modify (Conductor.logError (.evaluation e) (some t) (some r) (some tid))
    requestWorkflowStatus (some failed)
    return out
  | .ok met =>
    modify (Conductor.updateEntry idx fun e => { e with next := Dict.put e.next tid met })
    if met then takeTransition wf spec t r idx ctx out edge else return out

/-- The transitions of the completed task, in order.  The result is the list of the
engine commands among the next tasks. -/
def stageTransitions (wf : Workflow) (spec : TaskSpec) (t : String) (r idx : ℕ)
    (ctx : EvalContext) : M (List (String × ℕ)) := do
  let edges := wf.graph.getNextTransitions t
  if edges.isEmpty then modify (Conductor.updateEntry idx fun e => { e with term := true })
  else pure ()
  let out ← edges.foldlM (stageTransition wf spec t r idx ctx) ⟨[], false, []⟩
  if out.manualFail then
    forM out.readyNext fun i =>
      modify (Conductor.updateStaged i fun x => { x with runOnFail := true })
  else pure ()
  return out.commands

/-! ## Updating the state of a task -/

/-- Tell the workflow what status the entry has. -/
def notifyWorkflow (wf : Workflow) (t : String) (r idx : ℕ) : M Unit := do
  let s ← get
  match (s.sequence[idx]?).bind TaskStateOf.status with
  | none => throw (.keyError "status")
  | some st => WorkflowStateMachine.processTaskEvent wf t r st

/-- Mark the entry as a terminal one if the workflow is completed. -/
def markTerminal (idx : ℕ) : M Unit := do
  let s ← get
  if s.status ∈ completedStatuses then
    modify (Conductor.updateEntry idx fun e => { e with term := true })
  else pure ()

def statusAt (idx : ℕ) : M Status := do
  return ((← get).sequence[idx]?).elim .unset TaskStateOf.statusOrUnset

/-- After the task machine: stage the next tasks, tell the workflow, and process
the engine commands with `command`. -/
def finishUpdate (wf : Workflow) (spec : TaskSpec) (t : String) (r idx : ℕ) (old new : Status)
    (ctx : EvalContext) (command : String × ℕ → M Unit) : M Unit := do
  let commands ←
    if new ∈ completedStatuses ∧ new ≠ old then stageTransitions wf spec t r idx ctx else pure []
  notifyWorkflow wf t r idx
  forM commands command
  markTerminal idx

/-- `update_task_state`, to the given depth. -/
def updateTaskStateTo (wf : Workflow) : ℕ → String → ℕ → Event → M Unit
  | 0, _, _, _ => throw .recursionError
  | n + 1, t, r, event => do
    if !wf.graph.hasTask t then throw (.invalidTask t)
    else
      let s ← get
      let spec ← lift (wf.spec.getTask t)
      if (s.getStagedTask t r).isNone && (s.getTaskStateEntry t r).isNone then
        throw (.invalidTaskStateEntry t)
      else
        let idx ← openEntry wf t r event
        recordEvent t r event
        let old ← statusAt idx
        TaskStateMachine.processEvent idx event
        let new ← statusAt idx
        if new = retrying then restage t r idx else pure ()
        let command := fun (c : String × ℕ) =>
          updateTaskStateTo wf n c.1 c.2 (.operation ((engineEventMap.lookup c.1).getD .taskNoop))
        if new ∈ completedStatuses then
          let ctx ← completeTask spec t r idx new event
          if ← needsRetry wf idx ctx then updateTaskStateTo wf n t r (.operation .taskRetry)
          else finishUpdate wf spec t r idx old new ctx command
        else finishUpdate wf spec t r idx old new ⟨[], none, none, none⟩ command

def updateTaskState (wf : Workflow) (t : String) (r : ℕ) (event : Event) : M Unit :=
  updateTaskStateTo wf recursionLimit t r event

/-! ## The next tasks -/

/-- A task to run. -/
structure NextTask where
  id : String
  route : ℕ
  ctx : EvalContext
  spec : TaskSpec
  actions : List TaskSpec.ActionSpec
  delay : Option ℤ
  itemsCount : Option ℕ
  concurrency : Option Json
  deriving Repr

/-- The delay of the task, if it has one.  A delay of zero is none. -/
def evaluateDelay (wf : Workflow) (spec : TaskSpec) (ctx : EvalContext) :
    Except PyError (Option ℤ) :=
  match spec.delay with
  | none | some (.int 0) => return none
  | some d => do
    let message := "The value of task delay is not type of integer."
    return some (← evaluateInt wf ctx (.typeError message) d)

/-- The details of a staged task. -/
def getTask (wf : Workflow) (t : String) (r : ℕ) : M NextTask := do
  let vars ← tryCatch (getTaskInitialContext t r) fun e =>
    match e with
    | .valueError _ => getTaskContext [0]
    | e => throw e
  let ctx : EvalContext := ⟨vars, some ⟨t, r, none⟩, none, some (← get).serialize⟩
  let spec ← lift (wf.spec.getTask t)
  let actions ← lift (spec.render wf.evaluator ctx)
  let delay ← lift (evaluateDelay wf spec ctx)
  match spec.withItems with
  | none => return ⟨t, r, ctx, spec, actions, delay, none, none⟩
  | some items =>
    let concurrency ← lift ((wf.evaluator.evaluate ctx items.concurrency).mapError .evaluation)
    return ⟨t, r, ctx, spec, actions, delay, some actions.length, some concurrency⟩

/-- The actions of the items that may start now. -/
def availableActions (actions : List TaskSpec.ActionSpec) (items : List (Option Status))
    (concurrency : Json) : Except PyError (List TaskSpec.ActionSpec × Json) :=
  let all := actions.zip items
  let notrun := (all.filter fun p => p.2 = some .unset).map Prod.fst
  let active := (all.filter fun p => p.2.any (· ∈ activeStatuses)).length
  match concurrency with
  | .null => return (notrun, .null)
  | j =>
    match j.asInt with
    | none => throw (.typeError "'<=' not supported")
    | some n =>
      let availability := (if n ≤ 0 then 1 else n) - active
      return (if 0 < availability then notrun.take availability.toNat else [],
        if n ≤ 0 then .num 1 else j)

/-- Trim the actions of a task with items to those that may start. -/
def evaluateTaskActions (task : NextTask) : M NextTask := do
  match task.itemsCount with
  | none => return task
  | some count =>
    let s ← get
    match s.stagedIdx task.id task.route with
    | none => throw (.typeError "argument of type 'NoneType' is not iterable")
    | some i =>
      let items := ((s.staged[i]?).bind StagedTaskOf.items).getD []
      let items := if items.isEmpty then List.replicate count (some .unset) else items
      modify (Conductor.updateStaged i fun x => { x with items := some items })
      let (actions, concurrency) ←
        lift (availableActions task.actions items (task.concurrency.getD .null))
      return { task with actions := actions, concurrency := some concurrency }

/-- The details of a staged task to run, if it has something to run. -/
def nextTask (wf : Workflow) (x : StagedTask) : M (Option NextTask) := do
  let task ← getTask wf x.id x.route
  let task ← evaluateTaskActions task
  let s ← get
  let task := match x.retry with
    | some retry => { task with delay := some ((s.retry retry).delay.getD 0) }
    | none => task
  if !task.actions.isEmpty || task.itemsCount = some 0 then return some task else return none

/-- One staged task: its details are added, or the error is logged. -/
def collectNext (wf : Workflow) (acc : Bool × List NextTask) (x : StagedTask) :
    M (Bool × List NextTask) :=
  tryCatch
    (do
      match ← nextTask wf x with
      | some task => return (acc.1, acc.2 ++ [task])
      | none => return acc)
    fun e => do
      modify (Conductor.logError e (some x.id) (some x.route) none)
      return (true, acc.2)

def getNextTasks (wf : Workflow) : M (List NextTask) := do
  let s ← get
  let staged := s.getStagedTasks
  let remediation := if s.status = failed then staged.filter StagedTaskOf.runOnFail else []
  if s.status ∉ runningStatuses ∧ remediation.isEmpty then return []
  else
    let (failOnRendering, tasks) ←
      (if remediation.isEmpty then staged else remediation).foldlM (collectNext wf) (false, [])
    if failOnRendering then
      requestWorkflowStatus (some failed)
      return []
    else
      return tasks.insertionSort fun a b => a.id < b.id ∨ a.id = b.id ∧ a.route ≤ b.route

/-! ## A new conductor -/

/-- Stage the tasks that nothing leads to. -/
def stageRoots (wf : Workflow) : M Unit :=
  forM wf.graph.roots fun t => do
    let s ← get
    let (l, s) := s.allocList [0]
    let (p, s) := s.allocPrev []
    set (s.addStagedTask t 0 l p true none)

/-- Merge the fields into the dictionary. -/
def mergeFields (r : Ref) (vars : List (String × Json)) : M Unit := do
  let r' ← loadDict vars
  modify fun s => { s with dicts := s.dicts.merge r r' }

/-- Make the state of a workflow: render its inputs and variables into the first
context, and stage the first tasks. -/
def makeWorkflowState (wf : Workflow) : M Unit := do
  let initCtx ← loadDict wf.parentCtx
  let (inputs, inputErrors) :=
    WorkflowSpec.renderInput wf.evaluator wf.inputs wf.spec.input wf.parentCtx
  mergeFields initCtx inputs
  let s ← get
  let (vars, varErrors) :=
    WorkflowSpec.renderVars wf.evaluator wf.spec.vars (s.dicts.fields initCtx) []
  mergeFields initCtx vars
  let errors := inputErrors ++ varErrors
  if !errors.isEmpty then
    modify (Conductor.logErrors errors none none none)
    requestWorkflowStatus (some failed)
  else pure ()
  let s ← get
  if s.status ∈ abendedStatuses then return
  else
    modify fun s => { s with contexts := s.contexts ++ [initCtx], routes := s.routes ++ [[]] }
    stageRoots wf

/-- A new workflow state. -/
def Conductor.empty : Conductor := ⟨[], [], [], [], .unset, [], [], [], [], [], []⟩

def Conductor.init (wf : Workflow) : Conductor := after (makeWorkflowState wf) .empty

/-! ## Restoring a serialized state -/

/-- Put the contexts on the heap, as new dictionaries. -/
def Dicts.loadContexts : List (List (String × Json)) → Dicts → List Ref × Dicts
  | [], h => ([], h)
  | c :: cs, h =>
    let (d, h) := Dicts.loadFields c h
    let (rs, h') := loadContexts cs (h ++ [d])
    (h.length :: rs, h')

/-- The conductor of a serialized state: every list, dictionary and retry of the
data is an object of its own. -/
def Conductor.deserialize (data : Serialized) (errors : List LogEntry) : Conductor :=
  let (contexts, dicts) := Dicts.loadContexts data.contexts []
  let n := data.sequence.length
  { contexts := contexts
    routes := data.routes
    sequence := data.sequence.zipIdx.map fun (e, i) => e.map (fun _ => i) (fun _ => i) fun _ => i
    staged := data.staged.zipIdx.map fun (x, j) =>
      x.map (fun _ => n + j) (fun _ => n + j) fun _ => n + j
    status := data.status
    tasks := data.tasks
    errors := errors
    lists := data.sequence.map TaskStateOf.ctxsIn ++ data.staged.map StagedTaskOf.ctxsIn
    prevs := data.sequence.map TaskStateOf.prev ++ data.staged.map StagedTaskOf.prev
    retries := data.sequence.map (fun e => e.retry.getD ⟨none, 0, none, 0⟩) ++
      data.staged.map fun x => x.retry.getD ⟨none, 0, none, 0⟩
    dicts := dicts }

/-- Serialize the conductor and make a new one of the data. -/
def Conductor.restored (s : Conductor) : Conductor := .deserialize s.serialize s.errors

/-! ## Calls -/

/-- A call of one of the methods that a client runs a workflow with. -/
inductive Call where
  | requestWorkflowStatus (status : Option Status)
  | updateTaskState (task : String) (route : ℕ) (event : Event)
  | getNextTasks

/-- Run the call.  What it wrote before an exception stays. -/
def step (wf : Workflow) (s : Conductor) : Call → Conductor
  | .requestWorkflowStatus st => after (requestWorkflowStatus st) s
  | .updateTaskState t r event => after (updateTaskState wf t r event) s
  | .getNextTasks => after (getNextTasks wf) s

end Orquesta
end IntegratedCLI
