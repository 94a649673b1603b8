import IntegratedCLI.Orquesta.Json
import IntegratedCLI.Orquesta.Tables

/-!
# The state of a conductor

`Conductor` is the state of a `WorkflowConductor` and of its `WorkflowState`: the
contexts, the routes, the sequence of the tasks that were started, the tasks that
are staged, the status and the errors.

Some lists and dictionaries are referred to from more than one place.  A task
state entry takes the list of its contexts and its back references from the
staged entry it was started from, and a retry puts them, and the record of the
retry, back into a staged entry.  These are objects, so an entry holds a
reference (`Ref`) to them and the objects are kept on the side, in `lists`,
`prevs` and `retries`; the contexts are in `dicts`.

The serialized form (`Serialized`) has the objects in the place of the references.
The two forms share the records `TaskStateOf` and `StagedTaskOf`, which leave open
what stands for the list of contexts, the back references and the retry.
-/

namespace IntegratedCLI
namespace Orquesta

/-! ## Identifiers -/

/-- A task and a number: the `task__tN` of a transition, where `N` is the key of
the edge.  Depending on the dictionary it is the next task or the previous one. -/
structure TransitionId where
  task : String
  key : ℕ
  deriving DecidableEq, Repr

/-- The `task__rN` of a task state entry. -/
structure TaskKey where
  id : String
  route : ℕ
  deriving DecidableEq, Repr

/-! ## Exceptions and log entries -/

/-- An `ExpressionEvaluationException`, of the evaluator that raised it. -/
structure EvaluationError where
  typeName : String
  message : String
  deriving DecidableEq, Repr

/-- The exceptions that the conductor raises or logs. -/
inductive PyError where
  | invalidTask (task : String)
  | invalidEvent (name : EventName)
  | invalidEventType (name : EventName)
  | invalidTaskStatusTransition (status : Status) (event : EventName)
  | invalidWorkflowStatusTransition (status : Status) (event : EventName)
  | invalidTaskStateEntry (task : String)
  | unreachableJoin (task : String) (route : ℕ)
  | evaluation (e : EvaluationError)
  | keyError (key : String)
  | indexError
  | typeError (message : String)
  | valueError (message : String)
  | recursionError
  | workflowIsActiveAndNotRerunable
  | invalidTaskRerunRequest (tasks : List TaskKey)
  | attributeError (message : String)
  | workflowContextError (message : String)
  deriving DecidableEq, Repr

/-- What an entry of the error log says. -/
inductive LogMessage where
  | exception (e : PyError)
  | executionFailed
  deriving DecidableEq, Repr

/-- An entry of the error log.  A field that is not given is left out. -/
structure LogEntry where
  message : LogMessage
  taskId : Option String
  route : Option ℕ
  transition : Option TransitionId
  result : Option Json
  deriving Repr

namespace LogEntry

def equal (a b : LogEntry) : Bool :=
  decide (a.message = b.message ∧ a.taskId = b.taskId ∧ a.route = b.route ∧
    a.transition = b.transition) &&
  match a.result, b.result with
  | none, none => true
  | some x, some y => x.equal y
  | _, _ => false

end LogEntry

/-! ## Tasks -/

/-- The retry of an entry: the condition, the count and the delay after their
evaluation, and the number of retries so far. -/
structure Retry where
  when : Option String
  count : ℤ
  delay : Option ℤ
  tally : ℕ
  deriving DecidableEq, Repr

/-- An entry of the sequence. -/
structure TaskStateOf (L P R : Type) where
  id : String
  route : ℕ
  ctxsIn : L
  ctxsOut : Option (TransitionId × ℕ)
  prev : P
  next : List (TransitionId × Bool)
  status : Option Status
  retry : Option R
  term : Bool
  deriving Repr

/-- An entry of the staged tasks. -/
structure StagedTaskOf (L P R : Type) where
  id : String
  route : ℕ
  ctxsIn : L
  prev : P
  ready : Bool
  items : Option (List (Option Status))
  completed : Bool
  runOnFail : Bool
  retry : Option R
  deriving Repr

abbrev TaskState := TaskStateOf Ref Ref Ref

abbrev StagedTask := StagedTaskOf Ref Ref Ref

/-- The back references of a task: the entry that each inbound transition came
from. -/
abbrev Prev := List (TransitionId × ℕ)

section Map

variable {L P R L' P' R' : Type} (f : L → L') (g : P → P') (h : R → R')

def TaskStateOf.map (e : TaskStateOf L P R) : TaskStateOf L' P' R' :=
  { e with ctxsIn := f e.ctxsIn, prev := g e.prev, retry := e.retry.map h }

def StagedTaskOf.map (x : StagedTaskOf L P R) : StagedTaskOf L' P' R' :=
  { x with ctxsIn := f x.ctxsIn, prev := g x.prev, retry := x.retry.map h }

end Map

/-- The status of the task, `UNSET` before its first event. -/
def TaskStateOf.statusOrUnset {L P R : Type} (e : TaskStateOf L P R) : Status :=
  e.status.getD .unset

/-- Whether an item of the staged task is running. -/
def StagedTaskOf.anyItemsRunning {L P R : Type} (x : StagedTaskOf L P R) : Bool :=
  (x.items.getD []).any fun st => st.any (· ∈ activeStatuses)

/-- Whether the staged task is given out by `get_next_tasks`. -/
def StagedTaskOf.open {L P R : Type} (x : StagedTaskOf L P R) : Bool := x.ready && !x.completed

/-! ## The conductor -/

structure Conductor where
  contexts : List Ref
  routes : List (List TransitionId)
  sequence : List TaskState
  staged : List StagedTask
  status : Status
  tasks : List (TaskKey × ℕ)
  errors : List LogEntry
  lists : List (List ℕ)
  prevs : List Prev
  retries : List Retry
  dicts : Dicts
  deriving Repr

/-- The data that `WorkflowState.serialize` returns. -/
structure Serialized where
  contexts : List (List (String × Json))
  routes : List (List TransitionId)
  sequence : List (TaskStateOf (List ℕ) Prev Retry)
  staged : List (StagedTaskOf (List ℕ) Prev Retry)
  status : Status
  tasks : List (TaskKey × ℕ)
  deriving Repr

abbrev M := EStateM PyError Conductor

/-! ## Expressions -/

/-- The task that an expression refers to as the current one. -/
structure CurrentTask where
  id : String
  route : ℕ
  result : Option Json
  deriving Repr

/-- What an expression is evaluated in: the variables, and the entries that the
source keeps under `__current_task`, `__current_item` and `__state`. -/
structure EvalContext where
  vars : List (String × Json)
  currentTask : Option CurrentTask
  currentItem : Option Json
  state : Option Serialized
  deriving Repr

/-- The evaluators of expressions in strings.  A string without an expression is
its own value. -/
abbrev Evaluator := String → EvalContext → Except EvaluationError Json

namespace Evaluator

mutual

/-- The value of a statement: the strings in it are evaluated.  The name of a
field that does not evaluate to a string stays as it is. -/
def evaluate (ev : Evaluator) (ctx : EvalContext) : Json → Except EvaluationError Json
  | .str s => ev s ctx
  | .list xs => do return .list (← evaluateList ev ctx xs)
  | .dict fields => do return .dict (← evaluateFields ev ctx fields)
  | j => return j

def evaluateList (ev : Evaluator) (ctx : EvalContext) :
    List Json → Except EvaluationError (List Json)
  | [] => return []
  | x :: xs => do
    let v ← evaluate ev ctx x
    return v :: (← evaluateList ev ctx xs)

def evaluateFields (ev : Evaluator) (ctx : EvalContext) :
    List (String × Json) → Except EvaluationError (List (String × Json))
  | [] => return []
  | (k, x) :: fields => do
    let name ← ev k ctx
    let v ← evaluate ev ctx x
    let rest ← evaluateFields ev ctx fields
    let key := match name with
      | .str k' => k'
      | _ => k
    -- of two fields with one name the later one counts
    return (key, (rest.lookup key).getD v) :: Dict.drop rest key

end

@[simp] theorem evaluate_null (ev : Evaluator) (ctx : EvalContext) :
    ev.evaluate ctx .null = .ok .null := by
  simp [evaluate, pure, Except.pure]

end Evaluator

end Orquesta
end IntegratedCLI
