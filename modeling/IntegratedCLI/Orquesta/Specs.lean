import Mathlib.Algebra.GroupWithZero.Nat
import Mathlib.Data.List.Sort
import IntegratedCLI.Orquesta.State

/-!
# Workflow specifications

The parts of `specs/native/v1/models.py` that the composer and the conductor
read: tasks with their transitions, joins, items and retries, and how a task is
rendered and how the context of a transition is finalized.

A specification is taken as it is after its inline forms were parsed: `do` is the
list of the names, an inline `publish` or `input` is the dictionary it stands
for, and `with` has the names before ` in ` apart from the expression after it.
The checks of `inspect` are not part of the conductor and are not assumed.
-/

namespace IntegratedCLI
namespace Orquesta

/-- The `join` of a task and the `barrier` of its node: `all` is `"*"`. -/
inductive Barrier where
  | all
  | count (n : ℕ)
  deriving DecidableEq, Repr

/-- A number in a specification, or an expression for one. -/
inductive IntSpec where
  | int (n : ℕ)
  | expr (text : String)
  deriving DecidableEq, Repr

/-- The retry of a task. -/
structure RetrySpec where
  when : Option String
  count : IntSpec
  delay : Option IntSpec
  deriving DecidableEq, Repr

structure ItemsSpec where
  keys : Option (List String)
  items : Json
  concurrency : Json
  deriving Repr

/-- A transition under `next`. -/
structure TaskTransitionSpec where
  when : Option String
  publish : List (String × Json)
  doTasks : List String
  deriving Repr

structure TaskSpec where
  delay : Option IntSpec
  join : Option Barrier
  withItems : Option ItemsSpec
  action : Json
  input : Json
  retry : Option RetrySpec
  next : List TaskTransitionSpec
  deriving Repr

/-- A specification.  The defaults of the inputs are `null` where none is given. -/
structure WorkflowSpec where
  input : List (String × Json)
  vars : List (String × Json)
  tasks : List (String × TaskSpec)
  deriving Repr

/-- The engine command that a reserved task name stands for. -/
def engineEventMap : List (String × EngineCommand) :=
  [("continue", .taskContinue), ("fail", .taskFail), ("noop", .taskNoop), ("retry", .taskRetry)]

/-- Whether the name is one of an engine command. -/
def isReserved (t : String) : Bool := (engineEventMap.lookup t).isSome

namespace TaskSpec

/-- The specification of an engine command: nothing is given. -/
def empty : TaskSpec := ⟨none, none, none, .null, .null, none, []⟩

def hasItems (ts : TaskSpec) : Bool := ts.withItems.isSome

/-- An action to run, and the item it is for. -/
structure ActionSpec where
  action : Json
  input : Json
  itemId : Option ℕ
  deriving Repr

/-- The action and its input in the given context. -/
def renderAction (ev : Evaluator) (ts : TaskSpec) (ctx : EvalContext) (itemId : Option ℕ) :
    Except PyError ActionSpec := do
  let action ← (ev.evaluate ctx ts.action).mapError .evaluation
  let input ← (ev.evaluate ctx ts.input).mapError .evaluation
  return ⟨action, input, itemId⟩

/-- The current item, under the names that the specification gives. -/
def itemValue (keys : Option (List String)) (item : Json) : Json :=
  match keys, item with
  | some ks, .list xs => .dict (ks.zip xs)
  | some [k], x => .dict [(k, x)]
  | _, x => x

/-- The actions of the task. -/
def render (ev : Evaluator) (ts : TaskSpec) (ctx : EvalContext) :
    Except PyError (List ActionSpec) :=
  match ts.withItems with
  | none => do return [← renderAction ev ts ctx none]
  | some spec => do
    match ← (ev.evaluate ctx spec.items).mapError PyError.evaluation with
    | .list items =>
      items.zipIdx.mapM fun (item, idx) =>
        renderAction ev ts { ctx with currentItem := some (itemValue spec.keys item) } (some idx)
    | _ => throw (.typeError "The value is not type of list.")

/-- The variables that a transition publishes, evaluated one after the other, and
the errors on the way.  A variable is visible to the ones after it. -/
def publishVars (ev : Evaluator) :
    List (String × Json) → EvalContext → List (String × Json) × List EvaluationError
  | [], _ => ([], [])
  | (name, value) :: rest, ctx =>
    match ev.evaluate ctx value with
    | .ok v =>
      let (vars, errors) := publishVars ev rest { ctx with vars := Dict.put ctx.vars name v }
      ((name, v) :: vars, errors)
    | .error e =>
      let (vars, errors) := publishVars ev rest ctx
      (vars, e :: errors)

/-- The new context of the transition `ref` to `nextTask`, and the errors. -/
def finalizeContext (ev : Evaluator) (ts : TaskSpec) (nextTask : String) (ref : ℕ)
    (ctx : EvalContext) : Except PyError (List (String × Json) × List EvaluationError) :=
  match ts.next[ref]? with
  | none => throw .indexError
  | some transition =>
    if nextTask ∈ transition.doTasks then
      let (vars, errors) := publishVars ev transition.publish ctx
      return (vars.foldl (fun d (e : String × Json) => Dict.put d e.1 e.2) [], errors)
    else return ([], [])

end TaskSpec

namespace WorkflowSpec

variable (spec : WorkflowSpec)

def hasTask (t : String) : Bool := isReserved t || (spec.tasks.lookup t).isSome

def getTask (t : String) : Except PyError TaskSpec :=
  if isReserved t then return .empty
  else match spec.tasks.lookup t with
    | some ts => return ts
    | none => throw (.keyError t)

/-- An outbound transition of a task: the next task, the condition and the index
of the transition under `next`. -/
structure NextTask where
  name : String
  condition : Option String
  ref : ℕ
  deriving DecidableEq, Repr

/-- The transitions of a task, sorted by the name of the next task. -/
def nextTasksOf (ts : TaskSpec) : List NextTask :=
  (ts.next.zipIdx.flatMap fun (transition, idx) =>
    transition.doTasks.map fun t => ⟨t, transition.when, idx⟩).insertionSort
      fun a b => a.name ≤ b.name

def getNextTasks (t : String) : Except PyError (List NextTask) := do
  return nextTasksOf (← spec.getTask t)

/-- The names of the tasks with a transition to `t`, once for each transition. -/
def getPrevTasks (t : String) : List String :=
  spec.tasks.flatMap fun (name, ts) =>
    let ts := if isReserved name then .empty else ts
    ((nextTasksOf ts).filter fun n => n.name = t).map fun _ => name

def getStartTasks : List String :=
  ((spec.tasks.map Prod.fst).filter fun t => (spec.getPrevTasks t).isEmpty).insertionSort (· ≤ ·)

def isJoinTask (t : String) : Except PyError Bool := do return (← spec.getTask t).join.isSome

def isSplitTask (t : String) : Except PyError Bool := do
  return !(← spec.isJoinTask t) && 1 < (spec.getPrevTasks t).length

/-- The search of `in_cycle`: `queue` is still to be visited. -/
def searchCycle (t : String) : ℕ → List String → List String → Except PyError Bool
  | _, [], _ => return false
  | 0, _ :: _, _ => throw .recursionError
  | n + 1, x :: queue, traversed =>
    if x = t then return true
    else if x ∈ traversed then searchCycle t n queue traversed
    else do
      let next ← spec.getNextTasks x
      searchCycle t n (queue ++ next.map NextTask.name) (traversed ++ [x])

/-- The number of transitions, which bounds the length of every search. -/
def size : ℕ := (spec.tasks.map fun e => (nextTasksOf e.2).length).sum

def inCycle (t : String) : Except PyError Bool := do
  let next ← spec.getNextTasks t
  spec.searchCycle t (2 * spec.size + 1) (next.map NextTask.name) []

/-- Render the inputs given at run time over the defaults. -/
def renderInput (ev : Evaluator) (inputs : List (String × Json)) :
    List (String × Json) → List (String × Json) → List (String × Json) × List EvaluationError
  | [], vars => (vars, [])
  | (name, default) :: rest, vars =>
    match ev.evaluate ⟨vars, none, none, none⟩ ((inputs.lookup name).getD default) with
    | .ok v => renderInput ev inputs rest (Dict.put vars name v)
    | .error e =>
      let (vars, errors) := renderInput ev inputs rest vars
      (vars, e :: errors)

/-- Render the variables of the workflow. -/
def renderVars (ev : Evaluator) :
    List (String × Json) → List (String × Json) → List (String × Json) →
      List (String × Json) × List EvaluationError
  | [], _, rendered => (rendered, [])
  | (name, value) :: rest, vars, rendered =>
    match ev.evaluate ⟨vars, none, none, none⟩ value with
    | .ok v => renderVars ev rest (Dict.put vars name v) (Dict.put rendered name v)
    | .error e =>
      let (rendered, errors) := renderVars ev rest vars rendered
      (rendered, e :: errors)

end WorkflowSpec

end Orquesta
end IntegratedCLI
