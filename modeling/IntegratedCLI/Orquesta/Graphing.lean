import IntegratedCLI.Orquesta.Specs

/-!
# The workflow graph and its composition

`WorkflowGraph` is the multigraph of `graphing.py`: nodes with a barrier and a
retry, and edges with a key that tells the edges between two tasks apart, the
criteria of the transition and its index under `next`.

`compose` is the native composer.  It takes tasks off a queue, beginning with the
tasks that nothing leads to, adds the node of each with its barrier and its
retry, and adds the transitions to its next tasks.  A transition to `retry` is
not an edge: it gives the node a retry of its own.  A loop of the source that is
not bounded is given `fuel`.
-/

namespace IntegratedCLI
namespace Orquesta

/-- The attributes of a node. -/
structure Node where
  barrier : Option Barrier
  retry : Option RetrySpec
  deriving Repr

structure Edge where
  src : String
  dst : String
  key : ℕ
  criteria : List String
  ref : ℕ
  deriving DecidableEq, Repr

structure WorkflowGraph where
  nodes : List (String × Node)
  edges : List Edge
  deriving Repr

namespace WorkflowGraph

variable (g : WorkflowGraph)

def hasTask (t : String) : Bool := (g.nodes.lookup t).isSome

/-- The attributes of the task.  An edge of a multigraph joins two of its nodes, so
this is asked of nodes only. -/
def node (t : String) : Node := (g.nodes.lookup t).getD ⟨none, none⟩

/-- The tasks that no transition leads to, in the order of their names. -/
def roots : List String :=
  ((g.nodes.map Prod.fst).filter fun t => !g.edges.any fun e => e.dst = t).insertionSort (· ≤ ·)

def getNextTransitions (t : String) : List Edge :=
  (g.edges.filter fun e => e.src = t).insertionSort fun a b => a.dst ≤ b.dst

def getPrevTransitions (t : String) : List Edge := g.edges.filter fun e => e.dst = t

def getBarrier (t : String) : Option Barrier := (g.node t).barrier

def hasBarrier (t : String) : Bool := (g.getBarrier t).isSome

/-- Whether `get_barriers` has the task: a barrier of zero tasks does not count. -/
def inBarriers (t : String) : Bool :=
  match g.getBarrier t with
  | some .all => true
  | some (.count n) => n ≠ 0
  | none => false

def getTaskRetrySpec (t : String) : Option RetrySpec := (g.node t).retry

def successors (t : String) : List String := (g.edges.filter fun e => e.src = t).map Edge.dst

/-- The tasks that `ts` lead to in at most `n` transitions. -/
def closure : ℕ → List String → List String
  | 0, ts => ts
  | n + 1, ts => closure n (ts ++ ts.flatMap g.successors).dedup

/-- Whether the task is on a cycle. -/
def inCycle (t : String) : Bool := t ∈ g.closure g.nodes.length (g.successors t)

/-! ## Building a graph -/

def addTask (t : String) : WorkflowGraph :=
  if g.hasTask t then g else { g with nodes := Dict.put g.nodes t ⟨none, none⟩ }

def updateTask (t : String) (f : Node → Node) : WorkflowGraph :=
  { g with nodes := Dict.put g.nodes t (f (g.node t)) }

def setBarrier (t : String) (b : Barrier) : WorkflowGraph :=
  g.updateTask t fun node => { node with barrier := some b }

def setRetry (t : String) (r : RetrySpec) : WorkflowGraph :=
  g.updateTask t fun node => { node with retry := some r }

def hasTransition (src dst : String) (criteria : List String) (ref : ℕ) : Bool :=
  g.edges.any fun e => e.src = src ∧ e.dst = dst ∧ e.criteria = criteria ∧ e.ref = ref

/-- A new edge, with the next key between the two tasks. -/
def addTransition (src dst : String) (criteria : List String) (ref : ℕ) : WorkflowGraph :=
  let g := (g.addTask src).addTask dst
  let key := (g.edges.filter fun e => e.src = src ∧ e.dst = dst).length
  { g with edges := g.edges ++ [⟨src, dst, key, criteria, ref⟩] }

end WorkflowGraph

/-! ## The composer -/

/-- The state of the loop of `_compose_wf_graph`. -/
structure Composition where
  queue : List (String × List String)
  graph : WorkflowGraph
  trackSplits : List (String × List String)

namespace Composition

variable (spec : WorkflowSpec)

/-- Queue the next task, unless the splits on the way to it were seen before. -/
def enqueue (c : Composition) (t : String) (splits : List String) : Composition :=
  let existing := (c.trackSplits.lookup t).getD []
  if existing = [] then
    { c with queue := c.queue ++ [(t, splits)], trackSplits := Dict.put c.trackSplits t splits }
  else if splits.all (· ∈ existing) then c
  else
    { c with queue := c.queue ++ [(t, splits)]
             trackSplits := Dict.put c.trackSplits t (existing ++ splits) }

/-- Whether the task is to be queued: it has no node, or is on no cycle. -/
def queues (c : Composition) (t : String) : Except PyError Bool :=
  if c.graph.hasTask t then (!·) <$> spec.inCycle t else pure true

/-- Whether the ways into the task split there. -/
def splitsAt (t : String) : Except PyError Bool := do
  if ← spec.isSplitTask t then (!·) <$> spec.inCycle t else pure false

/-- The transition of `t` to one of its next tasks. -/
def addNext (t : String) (splits : List String) (c : Composition) (n : WorkflowSpec.NextTask) :
    Except PyError Composition :=
  if n.name = "retry" then
    let when := n.condition.getD "<% completed() %>"
    return { c with graph := c.graph.setRetry t ⟨some when, .int 3, none⟩ }
  else do
    let c := if ← queues spec c n.name then c.enqueue n.name splits else c
    let criteria := n.condition.toList
    -- updating an edge that is found writes the values that it was found by
    if c.graph.hasTransition t n.name criteria n.ref then return c
    else return { c with graph := c.graph.addTransition t n.name criteria n.ref }

/-- One task taken off the queue. -/
def visit (c : Composition) (t : String) (splits : List String) : Except PyError Composition := do
  let ts ← spec.getTask t
  let g := c.graph.addTask t
  let g := match ts.join with
    | some b => g.setBarrier t b
    | none => g
  let splits := if ← splitsAt spec t then splits ++ [t] else splits
  let g := match ts.retry with
    | some r => g.setRetry t r
    | none => g
  let next ← spec.getNextTasks t
  next.foldlM (addNext spec t splits) { c with graph := g }

def loop : ℕ → Composition → Except PyError (Option WorkflowGraph)
  | 0, c => return if c.queue = [] then some c.graph else none
  | n + 1, c =>
    match c.queue with
    | [] => return some c.graph
    | (t, splits) :: queue => do loop n (← visit spec { c with queue := queue } t splits)

end Composition

/-- Compose the graph of the specification, if that takes at most `fuel` tasks
off the queue. -/
def compose (fuel : ℕ) (spec : WorkflowSpec) : Except PyError (Option WorkflowGraph) :=
  Composition.loop spec fuel ⟨spec.getStartTasks.map fun t => (t, []), ⟨[], []⟩, []⟩

end Orquesta
end IntegratedCLI
