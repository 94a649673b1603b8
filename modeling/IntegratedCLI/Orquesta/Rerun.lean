import IntegratedCLI.Orquesta.Conducting

/-!
# Running a workflow again

`request_workflow_rerun`: a completed workflow resumes, with the tasks that are to be
run again staged.  These are the ones that are asked for, or else the terminal tasks
that abended.

A task without items has a new entry, which is started right away, and is staged
with the same objects as the entry, copies of the ones of the old entry.  A task with
items is still staged, and its items are reset.

The record of the reruns and the output of the workflow are left out: nothing that is
modelled reads them.
-/

namespace IntegratedCLI
namespace Orquesta

open Effect Status

/-- A request to run a task again. -/
structure RerunRequest where
  task : String
  route : ℕ
  resetItems : Bool
  deriving DecidableEq, Repr

/-- The requests by task and route.  Of two for one task the later one counts. -/
abbrev RerunRequests := List (TaskKey × RerunRequest)

def rerunRequests (requests : List RerunRequest) : RerunRequests :=
  requests.foldl (fun d q => Dict.put d ⟨q.task, q.route⟩ q) []

namespace Conductor

/-- The positions of the last entry of the task and of the entries that a transition of
the task led to. -/
def getTaskSequence (t : String) (r : ℕ) (s : Conductor) : List ℕ :=
  (s.taskStateIdx t r).toList ++ s.sequence.zipIdx.flatMap fun (e, i) =>
    ((s.prev e.prev).filter fun p => (s.sequence[p.2]?).any fun q => q.id = t ∧ q.route = r).map
      fun _ => i

/-- The entries that are marked as terminal, with their positions. -/
def getTerminalTasks (s : Conductor) : List (TaskState × ℕ) := s.sequence.zipIdx.filter (·.1.term)

/-- Take the mark of a terminal task away. -/
def popTerm (i : ℕ) (s : Conductor) : Conductor :=
  s.updateEntry i fun e => { e with term := false }

/-- The requests that do not follow from the others: more than the tasks of some other
request follow on their task. -/
def collapseTaskRerunRequests (tasks : RerunRequests) (s : Conductor) : List TaskKey :=
  let result := tasks.map fun (k, q) => (k, s.getTaskSequence q.task q.route)
  if 1 < tasks.length then
    (result.filter fun (_, i) => result.any fun (_, j) => i.any (· ∉ j)).map Prod.fst
  else result.map Prod.fst

/-- The tasks to run again, in order. -/
def rerunnableCandidates (tasks : RerunRequests) (s : Conductor) : List TaskKey :=
  let candidates :=
    if tasks = [] then
      ((s.getTerminalTasks.filter fun p => p.1.status.any (· ∈ abendedStatuses)).map
        fun p => ⟨p.1.id, p.1.route⟩).dedup
    else (tasks.map Prod.fst).filter (· ∈ s.collapseTaskRerunRequests tasks)
  candidates.insertionSort fun a b => a.id < b.id ∨ a.id = b.id ∧ a.route ≤ b.route

/-- The last terminal entry of every task that has a satisfied transition. -/
def continuableCandidates (s : Conductor) : List ℕ :=
  let candidates := s.getTerminalTasks.filter fun p => p.1.next.any Prod.snd
  (candidates.foldl (fun d p => Dict.put d (⟨p.1.id, p.1.route⟩ : TaskKey) p.2) []).map Prod.snd

end Conductor

/-- Reset an item that abended, or every item. -/
def resetItem (resetItems : Bool) (st : Option Status) : Option Status :=
  if resetItems || st.any (· ∈ abendedStatuses) then some .unset else st

/-- Put the items of the staged task back. -/
def resetStagedItems (t : String) (r : ℕ) (resetItems : Bool) : M Unit := do
  let s ← get
  match s.stagedIdx t r with
  | none => throw (.attributeError "'NoneType' object has no attribute 'get'")
  | some i => modify (Conductor.updateStaged i fun x =>
      { x with items := x.items.map (List.map (resetItem resetItems)) })

/-- Start a new entry and stage it, with copies of the contexts and back references. -/
def startAgain (wf : Workflow) (t : String) (r : ℕ) (ctxs : List ℕ) (prev : Prev) : M Unit := do
  let s ← get
  let (l, s) := s.allocList ctxs
  let (p, s) := s.allocPrev prev
  set s
  addTaskState wf t r l p
  modify (Conductor.addStagedTask t r l p true none)

/-- The staged entry is no longer marked as completed. -/
def reopenStaged (t : String) (r : ℕ) (s : Conductor) : Conductor :=
  match s.stagedIdx t r with
  | none => s
  | some i => s.updateStaged i fun x => { x with completed := false }

def requestTaskRerun (wf : Workflow) (t : String) (r : ℕ) (resetItems : Bool) : M Unit := do
  let s ← get
  match s.taskStateIdx t r with
  | none => throw (.keyError t)
  | some idx =>
    match s.sequence[idx]? with
    | none => throw .indexError
    | some e =>
      let spec ← lift (wf.spec.getTask t)
      modify (Conductor.popTerm idx)
      modify (reopenStaged t r)
      modify fun s => { s with errors := s.errors.filter fun entry => entry.taskId ≠ some t }
      if spec.hasItems then resetStagedItems t r resetItems
      else startAgain wf t r (s.list e.ctxsIn) (s.prev e.prev)
      modify fun s => (s.getTaskSequence t r).foldl (fun s i => s.popTerm i) s

def requestWorkflowRerun (wf : Workflow) (requests : List RerunRequest) : M Unit := do
  let s ← get
  if s.status ∉ completedStatuses then throw .workflowIsActiveAndNotRerunable
  else
    let tasks := rerunRequests requests
    let invalid := (tasks.map Prod.fst).filter fun k => k ∉ s.tasks.map Prod.fst
    if invalid ≠ [] then throw (.invalidTaskRerunRequest invalid)
    else
      forM (s.rerunnableCandidates tasks) fun k =>
        requestTaskRerun wf k.id k.route ((Dict.get? tasks k).elim false RerunRequest.resetItems)
      modify fun s => s.continuableCandidates.foldl (fun s i => s.popTerm i) s
      modify (Conductor.setStatus .resuming)

/-! ## Calls -/

/-- A call of a client, which may also ask for a rerun. -/
inductive ClientCall where
  | call (c : Call)
  | requestWorkflowRerun (requests : List RerunRequest)

/-- Run the call.  What it wrote before an exception stays. -/
def clientStep (wf : Workflow) (s : Conductor) : ClientCall → Conductor
  | .call c => step wf s c
  | .requestWorkflowRerun requests => after (requestWorkflowRerun wf requests) s

end Orquesta
end IntegratedCLI
