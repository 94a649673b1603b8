import IntegratedCLI.Lib.Effect
import IntegratedCLI.Orquesta.Graphing

/-!
# The workflow state

The methods of `WorkflowState`, and the methods of the conductor that only read
the state.  A `Workflow` is what a conductor is made from: the specification, the
graph that the composer makes of it, the inputs, the context of the parent and
the evaluator of expressions.

`tasks` gives the position in the sequence of the last entry of a task and route;
an entry is a last occurrence when `tasks` has its position.  A staged task is
found by its task and route, and the first one found counts; the code that keeps
hold of a staged task after that is given its position.
-/

namespace IntegratedCLI
namespace Orquesta

structure Workflow where
  spec : WorkflowSpec
  graph : WorkflowGraph
  inputs : List (String × Json)
  parentCtx : List (String × Json)
  evaluator : Evaluator
  composed : ∃ fuel, compose fuel spec = .ok (some graph)

/-- How the criteria of the transitions into a task stand. -/
inductive InboundCriteria where
  | wip | satisfied | notSatisfied
  deriving DecidableEq, Repr

namespace Conductor

/-! ## Task state entries -/

section Queries

variable (s : Conductor)

/-- The position of the last entry of the task on the route. -/
def taskStateIdx (t : String) (r : ℕ) : Option ℕ := s.tasks.lookup ⟨t, r⟩

def getTaskStateEntry (t : String) (r : ℕ) : Option TaskState :=
  (s.taskStateIdx t r).bind fun idx => s.sequence[idx]?

/-- Whether the entry at the position is a last occurrence. -/
def isLast (i : ℕ) : Bool := i ∈ s.tasks.map Prod.snd

/-- The last occurrences with one of the statuses, with their positions. -/
def getTasksByStatus (sts : List Status) : List (TaskState × ℕ) :=
  s.sequence.zipIdx.filter fun p => p.1.status.any (· ∈ sts) && s.isLast p.2

def hasTasksIn (sts : List Status) : Bool := !(s.getTasksByStatus sts).isEmpty

def hasActiveTasks : Bool := s.hasTasksIn activeStatuses

def hasPausingTasks : Bool := s.hasTasksIn [.pausing]

def hasPausedTasks : Bool := s.hasTasksIn [.paused, .pending]

def hasCancelingTasks : Bool := s.hasTasksIn [.canceling]

def hasCanceledTasks : Bool := s.hasTasksIn [.canceled]

/-! ## Staged tasks -/

/-- The staged tasks that are ready and not completed. -/
def getStagedTasks : List StagedTask := s.staged.filter StagedTaskOf.open

def hasStagedTasks : Bool := !s.getStagedTasks.isEmpty

/-- The position of the first staged entry of the task on the route. -/
def stagedIdx (t : String) (r : ℕ) : Option ℕ :=
  s.staged.findIdx? fun x => x.id = t ∧ x.route = r

def getStagedTask (t : String) (r : ℕ) : Option StagedTask :=
  (s.stagedIdx t r).bind fun i => s.staged[i]?

/-! ## Inbound criteria -/

variable (wf : Workflow)

/-- The inbound tasks, each once. -/
def inboundTasks (t : String) : List String :=
  ((wf.graph.getPrevTransitions t).map Edge.src).dedup

/-- Whether one of the transitions of `q` into `t` was satisfied by the last entry
of `q` on the route; `none` when there is no entry. -/
def inboundEvaluation (t : String) (r : ℕ) (q : String) : Option Bool :=
  (s.getTaskStateEntry q r).map fun e =>
    (wf.graph.getPrevTransitions t).any fun edge =>
      edge.src = q && (e.next.lookup ⟨t, edge.key⟩).getD false

/-- How many inbound tasks the task waits for. -/
def requirement (t : String) : ℕ :=
  match wf.graph.getBarrier t with
  | some .all => (inboundTasks wf t).length
  | some (.count n) => if n = 0 then 1 else n
  | none => 1

def getInboundCriteriaStatus (t : String) (r : ℕ) : InboundCriteria :=
  let evaluation := (inboundTasks wf t).map (s.inboundEvaluation wf t r)
  if requirement wf t ≤ evaluation.count (some true) then .satisfied
  else if none ∈ evaluation ∧ (s.hasActiveTasks || s.hasStagedTasks) then .wip
  else .notSatisfied

/-- The staged joins that are not ready and cannot become so. -/
def getUnreachableBarriers : List StagedTask :=
  s.staged.filter fun x => wf.graph.inBarriers x.id && !x.ready &&
    decide (s.getInboundCriteriaStatus wf x.id x.route = .notSatisfied)

/-! ## Next tasks -/

/-- Whether a transition of the completed task is satisfied, the one to `continue`
apart.  With `evalJoinReady` a join that cannot be reached does not count. -/
def hasNext (t : String) (r : ℕ) (evalJoinReady : Bool) : Bool :=
  match s.getTaskStateEntry t r with
  | none => false
  | some e =>
    e.status.any (· ∈ completedStatuses) &&
    (wf.graph.getNextTransitions t).any fun edge =>
      edge.dst ≠ "continue" && (e.next.lookup ⟨edge.dst, edge.key⟩).getD false &&
      !(wf.graph.hasBarrier edge.dst && evalJoinReady &&
        decide (s.getInboundCriteriaStatus wf edge.dst r = .notSatisfied))

def hasBarrierNext (t : String) (r : ℕ) : Bool := s.hasNext wf t r false

def hasNextTasks (t : String) (r : ℕ) : Bool := s.hasNext wf t r true

/-! ## Objects -/

def list (r : Ref) : List ℕ := (s.lists[r]?).getD []

def prev (r : Ref) : Prev := (s.prevs[r]?).getD []

def retry (r : Ref) : Retry := (s.retries[r]?).getD ⟨none, 0, none, 0⟩

/-- The serialized form of the workflow state. -/
def serialize : Serialized where
  contexts := s.contexts.map s.dicts.fields
  routes := s.routes
  sequence := s.sequence.map (TaskStateOf.map s.list s.prev s.retry)
  staged := s.staged.map (StagedTaskOf.map s.list s.prev s.retry)
  status := s.status
  tasks := s.tasks

end Queries

/-! ## Updates -/

def setStatus (st : Status) (s : Conductor) : Conductor := { s with status := st }

/-- Change the task state entry at the position. -/
def updateEntry (idx : ℕ) (f : TaskState → TaskState) (s : Conductor) : Conductor :=
  { s with sequence := s.sequence.modify idx f }

/-- Change the staged entry at the position. -/
def updateStaged (i : ℕ) (f : StagedTask → StagedTask) (s : Conductor) : Conductor :=
  { s with staged := s.staged.modify i f }

/-- Unstage the task, unless an item of it is running. -/
def removeStagedTask (t : String) (r : ℕ) (s : Conductor) : Conductor :=
  match s.stagedIdx t r with
  | none => s
  | some i =>
    if (s.staged[i]?).any StagedTaskOf.anyItemsRunning then s
    else { s with staged := s.staged.eraseIdx i }

/-- A new list of contexts. -/
def allocList (l : List ℕ) (s : Conductor) : Ref × Conductor :=
  (s.lists.length, { s with lists := s.lists ++ [l] })

def allocPrev (p : Prev) (s : Conductor) : Ref × Conductor :=
  (s.prevs.length, { s with prevs := s.prevs ++ [p] })

def allocRetry (x : Retry) (s : Conductor) : Ref × Conductor :=
  (s.retries.length, { s with retries := s.retries ++ [x] })

/-- The list itself, or a new `[0]` in the place of an empty one. -/
def orRoot (l : Ref) (s : Conductor) : Ref × Conductor :=
  if s.list l = [] then s.allocList [0] else (l, s)

/-- The dictionary itself, or a new one in the place of an empty one. -/
def orEmpty (p : Ref) (s : Conductor) : Ref × Conductor :=
  if s.prev p = [] then s.allocPrev [] else (p, s)

/-- Stage the task, at the end of the staged tasks. -/
def addStagedTask (t : String) (r : ℕ) (ctxs prev : Ref) (ready : Bool) (retry : Option Ref)
    (s : Conductor) : Conductor :=
  let (ctxs, s) := s.orRoot ctxs
  { s with staged := s.staged ++ [⟨t, r, ctxs, prev, ready, none, false, false, retry⟩] }

/-- Log an error, unless the same entry is in the log. -/
def logEntry (entry : LogEntry) (s : Conductor) : Conductor :=
  if s.errors.any entry.equal then s else { s with errors := s.errors ++ [entry] }

def logError (e : PyError) (t : Option String) (r : Option ℕ) (tid : Option TransitionId)
    (s : Conductor) : Conductor :=
  s.logEntry ⟨.exception e, t, r, tid, none⟩

def logErrors (es : List EvaluationError) (t : Option String) (r : Option ℕ)
    (tid : Option TransitionId) (s : Conductor) : Conductor :=
  es.foldl (fun s e => s.logError (.evaluation e) t r tid) s

end Conductor

end Orquesta
end IntegratedCLI
