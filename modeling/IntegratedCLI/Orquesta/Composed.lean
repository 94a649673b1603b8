import IntegratedCLI.Lib.Fallible
import IntegratedCLI.Orquesta.WorkflowState

/-!
# What the composer makes

A graph that `compose` returns fits the specification:

* an edge is a transition of the specification, from a task that is not an engine
  command, and no edge leads to `retry` (`edge_sound`);
* two edges between the same tasks have different keys (`keys_distinct`), and each
  comes from a transition of its own (`refs_distinct`);
* a node is a task of the specification or an engine command, its barrier is the
  `join` of the task (`node_sound`), and an engine command has no retry.

`Sound` says this of the state of the composer's loop.  A node there may be still
in the queue; the nodes that are not are settled.
-/

namespace IntegratedCLI
namespace Orquesta

namespace WorkflowSpec

variable {spec : WorkflowSpec} {t : String} {ts : TaskSpec}

theorem getTask_reserved (h : isReserved t = true) : spec.getTask t = .ok .empty := by
  simp [getTask, h, pure, Except.pure]

theorem mem_nextTasksOf {n : NextTask} (h : n ∈ nextTasksOf ts) :
    ∃ tr, ts.next[n.ref]? = some tr ∧ n.name ∈ tr.doTasks ∧ n.condition = tr.when := by
  unfold nextTasksOf at h
  rw [List.mem_insertionSort, List.mem_flatMap] at h
  obtain ⟨⟨tr, idx⟩, htr, h⟩ := h
  obtain ⟨name, hname, rfl⟩ := List.mem_map.mp h
  exact ⟨tr, List.mem_zipIdx_iff_getElem?.mp htr, hname, rfl⟩

theorem nextTasksOf_empty : nextTasksOf .empty = [] := rfl

end WorkflowSpec

/-- The edge is a transition of the specification. -/
def EdgeSound (spec : WorkflowSpec) (e : Edge) : Prop :=
  ∃ ts, spec.getTask e.src = .ok ts ∧
    ∃ n ∈ WorkflowSpec.nextTasksOf ts,
      n.name = e.dst ∧ n.ref = e.ref ∧ n.condition.toList = e.criteria ∧ e.dst ≠ "retry"

/-- The node is as the specification has it. -/
def NodeSound (spec : WorkflowSpec) (g : WorkflowGraph) (t : String) : Prop :=
  ∃ ts, spec.getTask t = .ok ts ∧ g.getBarrier t = ts.join ∧
    (isReserved t = true → g.getTaskRetrySpec t = none)

namespace WorkflowGraph

variable {g : WorkflowGraph} {t u : String}

@[simp] theorem hasTask_put {node : Node} {edges : List Edge} :
    (⟨Dict.put g.nodes t node, edges⟩ : WorkflowGraph).hasTask u = true ↔
      u = t ∨ g.hasTask u = true := by
  unfold hasTask
  rw [Dict.lookup_put]
  by_cases h : u = t <;> simp [h]

theorem node_put {node : Node} {edges : List Edge} :
    (⟨Dict.put g.nodes t node, edges⟩ : WorkflowGraph).node u =
      if u = t then node else g.node u := by
  unfold WorkflowGraph.node
  rw [Dict.lookup_put]
  by_cases h : u = t <;> simp [h]

theorem node_of_not_hasTask (h : g.hasTask t = false) : g.node t = ⟨none, none⟩ := by
  unfold hasTask at h
  unfold WorkflowGraph.node
  rw [Option.isSome_eq_false_iff, Option.isNone_iff_eq_none] at h
  rw [h, Option.getD_none]

@[simp] theorem hasTask_addTask : (g.addTask t).hasTask u = true ↔ u = t ∨ g.hasTask u = true := by
  unfold addTask
  split
  · rename_i h
    constructor
    · exact Or.inr
    · rintro (rfl | hu)
      · exact h
      · exact hu
  · exact hasTask_put

@[simp] theorem node_addTask : (g.addTask t).node u = g.node u := by
  unfold addTask
  split
  · rfl
  · rename_i h
    rw [node_put]
    split
    · rename_i hu
      rw [hu, node_of_not_hasTask (by simpa using h)]
    · rfl

@[simp] theorem edges_addTask : (g.addTask t).edges = g.edges := by
  unfold addTask
  split <;> rfl

variable {f : Node → Node}

@[simp] theorem hasTask_updateTask :
    (g.updateTask t f).hasTask u = true ↔ u = t ∨ g.hasTask u = true := hasTask_put

theorem node_updateTask :
    (g.updateTask t f).node u = if u = t then f (g.node t) else g.node u := node_put

@[simp] theorem edges_updateTask : (g.updateTask t f).edges = g.edges := rfl

end WorkflowGraph

namespace Composition

variable {spec : WorkflowSpec}

/-- What holds of the state of the composer between two tasks of the queue. -/
structure Sound (spec : WorkflowSpec) (c : Composition) : Prop where
  edges : ∀ e ∈ c.graph.edges,
    EdgeSound spec e ∧ c.graph.hasTask e.src = true ∧ c.graph.hasTask e.dst = true
  keys : ∀ e ∈ c.graph.edges,
    e.key < (c.graph.edges.filter fun e' => e'.src = e.src ∧ e'.dst = e.dst).length
  distinct : c.graph.edges.Pairwise fun e e' => e.src = e'.src → e.dst = e'.dst →
    e.key ≠ e'.key ∧ ¬ (e.criteria = e'.criteria ∧ e.ref = e'.ref)
  nodes : ∀ t, c.graph.hasTask t = true →
    NodeSound spec c.graph t ∨ t ∈ c.queue.map Prod.fst ∧ c.graph.node t = ⟨none, none⟩
  tracked : ∀ t, (c.trackSplits.lookup t).isSome → c.graph.hasTask t = true

/-- A new edge gets a key that no edge between its tasks has. -/
theorem distinct_append {es : List Edge} {e : Edge}
    (hkeys : ∀ x ∈ es, x.key < (es.filter fun e' => e'.src = x.src ∧ e'.dst = x.dst).length)
    (hkey : e.key = (es.filter fun e' => e'.src = e.src ∧ e'.dst = e.dst).length)
    (hnew : ∀ x ∈ es, x.src = e.src → x.dst = e.dst → ¬ (x.criteria = e.criteria ∧ x.ref = e.ref))
    (hd : es.Pairwise fun e e' => e.src = e'.src → e.dst = e'.dst →
      e.key ≠ e'.key ∧ ¬ (e.criteria = e'.criteria ∧ e.ref = e'.ref)) :
    (es ++ [e]).Pairwise fun e e' => e.src = e'.src → e.dst = e'.dst →
      e.key ≠ e'.key ∧ ¬ (e.criteria = e'.criteria ∧ e.ref = e'.ref) := by
  rw [List.pairwise_append]
  refine ⟨hd, List.pairwise_singleton _ _, ?_⟩
  intro x hx y hy hsrc hdst
  obtain rfl := List.mem_singleton.mp hy
  refine ⟨?_, hnew x hx hsrc hdst⟩
  have hlt := hkeys x hx
  rw [hsrc, hdst] at hlt
  omega

theorem keys_append {es : List Edge} {e : Edge}
    (hkeys : ∀ x ∈ es, x.key < (es.filter fun e' => e'.src = x.src ∧ e'.dst = x.dst).length)
    (hkey : e.key = (es.filter fun e' => e'.src = e.src ∧ e'.dst = e.dst).length) :
    ∀ x ∈ es ++ [e],
      x.key < ((es ++ [e]).filter fun e' => e'.src = x.src ∧ e'.dst = x.dst).length := by
  intro x hx
  rw [List.filter_append, List.length_append]
  rcases List.mem_append.mp hx with hx | hx
  · have := hkeys x hx
    omega
  · obtain rfl := List.mem_singleton.mp hx
    simp [hkey]

variable {c c' : Composition} {t : String} {ts : TaskSpec} {splits : List String}

/-- Queueing a task, followed by adding a node for it. -/
theorem nodes_enqueue (hc : Sound spec c) (t : String) (h : c.graph.hasTask t = false) :
    t ∈ (c.enqueue t splits).queue.map Prod.fst := by
  have hnone : c.trackSplits.lookup t = none := by
    by_contra hne
    have := hc.tracked t (Option.isSome_iff_ne_none.mpr hne)
    rw [h] at this
    cases this
  unfold enqueue
  simp [hnone]

theorem queue_enqueue {u : String} (h : u ∈ c.queue.map Prod.fst) :
    u ∈ (c.enqueue t splits).queue.map Prod.fst := by
  unfold enqueue
  dsimp only
  split
  · simp only [List.map_append, List.mem_append]
    exact Or.inl h
  · split
    · exact h
    · simp only [List.map_append, List.mem_append]
      exact Or.inl h

@[simp] theorem graph_enqueue : (c.enqueue t splits).graph = c.graph := by
  unfold enqueue
  dsimp only
  split
  · rfl
  · split <;> rfl

theorem tracked_enqueue {u : String}
    (h : ((c.enqueue t splits).trackSplits.lookup u).isSome) :
    u = t ∨ (c.trackSplits.lookup u).isSome := by
  unfold enqueue at h
  dsimp only at h
  split at h
  · rw [Dict.lookup_put] at h
    by_cases hu : u = t
    · exact Or.inl hu
    · rw [if_neg hu] at h
      exact Or.inr h
  · split at h
    · exact Or.inr h
    · rw [Dict.lookup_put] at h
      by_cases hu : u = t
      · exact Or.inl hu
      · rw [if_neg hu] at h
        exact Or.inr h

/-- The state of the loop with the next task of a transition in the graph. -/
theorem sound_next (hc : Sound spec c) (hts : spec.getTask t = .ok ts)
    (ht : c.graph.hasTask t = true) {n : WorkflowSpec.NextTask}
    (hn : n ∈ WorkflowSpec.nextTasksOf ts) (hretry : n.name ≠ "retry") {c₁ : Composition}
    (hgraph : c₁.graph = c.graph)
    (hqueue : ∀ u ∈ c.queue.map Prod.fst, u ∈ c₁.queue.map Prod.fst)
    (hnew : c.graph.hasTask n.name = false → n.name ∈ c₁.queue.map Prod.fst)
    (htracked : ∀ u, (c₁.trackSplits.lookup u).isSome →
      u = n.name ∨ (c.trackSplits.lookup u).isSome) :
    Sound spec (if c₁.graph.hasTransition t n.name n.condition.toList n.ref then c₁
      else { c₁ with graph := c₁.graph.addTransition t n.name n.condition.toList n.ref }) := by
  split
  · rename_i hhas
    have hdst : c.graph.hasTask n.name = true := by
      rw [hgraph] at hhas
      unfold WorkflowGraph.hasTransition at hhas
      rw [List.any_eq_true] at hhas
      obtain ⟨e, he, h⟩ := hhas
      have := (hc.edges e he).2.2
      rwa [(of_decide_eq_true h).2.1] at this
    constructor
    · rw [hgraph]; exact hc.edges
    · rw [hgraph]; exact hc.keys
    · rw [hgraph]; exact hc.distinct
    · rw [hgraph]
      intro u hu
      rcases hc.nodes u hu with h | ⟨h, h'⟩
      · exact Or.inl h
      · exact Or.inr ⟨hqueue u h, h'⟩
    · rw [hgraph]
      intro u hu
      rcases htracked u hu with rfl | h
      · exact hdst
      · exact hc.tracked u h
  · rename_i hhas
    rw [hgraph] at hhas ⊢
    have hsound : EdgeSound spec ⟨t, n.name,
        (c.graph.edges.filter fun e => e.src = t ∧ e.dst = n.name).length,
        n.condition.toList, n.ref⟩ := ⟨ts, hts, n, hn, rfl, rfl, rfl, hretry⟩
    have hold : ∀ x ∈ c.graph.edges, x.src = t → x.dst = n.name →
        ¬ (x.criteria = n.condition.toList ∧ x.ref = n.ref) := by
      rintro x hx hsrc hdst ⟨hcr, href⟩
      apply hhas
      unfold WorkflowGraph.hasTransition
      exact List.any_eq_true.mpr ⟨x, hx, decide_eq_true ⟨hsrc, hdst, hcr, href⟩⟩
    unfold WorkflowGraph.addTransition
    constructor
    · intro e he
      simp only [WorkflowGraph.edges_addTask, List.mem_append, List.mem_singleton] at he
      show _ ∧ ((c.graph.addTask t).addTask n.name).hasTask e.src = true ∧
        ((c.graph.addTask t).addTask n.name).hasTask e.dst = true
      simp only [WorkflowGraph.hasTask_addTask]
      rcases he with he | rfl
      · obtain ⟨h, h', h''⟩ := hc.edges e he
        exact ⟨h, Or.inr (Or.inr h'), Or.inr (Or.inr h'')⟩
      · exact ⟨hsound, Or.inr (Or.inl rfl), Or.inl rfl⟩
    · simp only [WorkflowGraph.edges_addTask]
      exact keys_append hc.keys rfl
    · simp only [WorkflowGraph.edges_addTask]
      exact distinct_append hc.keys rfl hold hc.distinct
    · intro u hu
      have hu' : u = n.name ∨ u = t ∨ c.graph.hasTask u = true := by
        replace hu : ((c.graph.addTask t).addTask n.name).hasTask u = true := hu
        simpa only [WorkflowGraph.hasTask_addTask] using hu
      have hnode : ((c.graph.addTask t).addTask n.name).node u = c.graph.node u := by simp
      by_cases hu₀ : c.graph.hasTask u = true
      · rcases hc.nodes u hu₀ with ⟨us, h1, h2, h3⟩ | ⟨h, h'⟩
        · refine Or.inl ⟨us, h1, ?_, ?_⟩
          · rw [← h2]
            exact congrArg Node.barrier hnode
          · intro hr
            rw [← h3 hr]
            exact congrArg Node.retry hnode
        · exact Or.inr ⟨hqueue u h, hnode.trans h'⟩
      · have hname : u = n.name := by
          rcases hu' with h | rfl | h
          · exact h
          · exact absurd ht hu₀
          · exact absurd h hu₀
        subst hname
        have hfalse : c.graph.hasTask n.name = false := by simpa using hu₀
        exact Or.inr ⟨hnew hfalse, hnode.trans (WorkflowGraph.node_of_not_hasTask hfalse)⟩
    · intro u hu
      show ((c.graph.addTask t).addTask n.name).hasTask u = true
      simp only [WorkflowGraph.hasTask_addTask]
      rcases htracked u hu with h | h
      · exact Or.inl h
      · exact Or.inr (Or.inr (hc.tracked u h))

/-- A transition of a settled task keeps the state sound and the task settled. -/
theorem addNext_sound (hts : spec.getTask t = .ok ts) {n : WorkflowSpec.NextTask}
    (hn : n ∈ WorkflowSpec.nextTasksOf ts)
    (hc : Sound spec c ∧ c.graph.hasTask t = true ∧ NodeSound spec c.graph t)
    (h : addNext spec t splits c n = .ok c') :
    Sound spec c' ∧ c'.graph.hasTask t = true ∧ NodeSound spec c'.graph t := by
  obtain ⟨hc, ht, hnode⟩ := hc
  have hres : isReserved t = false := by
    by_contra hr
    rw [Bool.not_eq_false] at hr
    rw [WorkflowSpec.getTask_reserved hr] at hts
    cases hts
    rw [WorkflowSpec.nextTasksOf_empty] at hn
    exact List.not_mem_nil hn
  unfold addNext at h
  split at h
  · -- the transition to `retry` changes the node of the task itself
    rename_i hretry
    rw [Fallible.pure_eq_ok] at h
    subst h
    obtain ⟨us, h1, h2, _⟩ := hnode
    have hself : NodeSound spec (c.graph.setRetry t
        ⟨some (n.condition.getD "<% completed() %>"), .int 3, none⟩) t := by
      refine ⟨us, h1, ?_, fun hr => by rw [hres] at hr; cases hr⟩
      rw [← h2]
      unfold WorkflowGraph.getBarrier WorkflowGraph.setRetry
      rw [WorkflowGraph.node_updateTask, if_pos rfl]
    refine ⟨⟨?_, hc.keys, hc.distinct, ?_, ?_⟩, ?_, hself⟩
    · intro e he
      obtain ⟨h, h', h''⟩ := hc.edges e he
      exact ⟨h, WorkflowGraph.hasTask_put.mpr (Or.inr h'), WorkflowGraph.hasTask_put.mpr (Or.inr h'')⟩
    · intro u hu
      by_cases hut : u = t
      · subst hut
        exact Or.inl hself
      · have hu' : c.graph.hasTask u = true := by
          rcases WorkflowGraph.hasTask_put.mp hu with h | h
          · exact absurd h hut
          · exact h
        have hnode : (c.graph.setRetry t
            ⟨some (n.condition.getD "<% completed() %>"), .int 3, none⟩).node u =
            c.graph.node u := by
          unfold WorkflowGraph.setRetry
          rw [WorkflowGraph.node_updateTask, if_neg hut]
        rcases hc.nodes u hu' with ⟨us, h1, h2, h3⟩ | ⟨h, h'⟩
        · refine Or.inl ⟨us, h1, ?_, ?_⟩
          · rw [← h2]
            exact congrArg Node.barrier hnode
          · intro hr
            rw [← h3 hr]
            exact congrArg Node.retry hnode
        · exact Or.inr ⟨h, hnode.trans h'⟩
    · exact fun u hu => WorkflowGraph.hasTask_put.mpr (Or.inr (hc.tracked u hu))
    · exact WorkflowGraph.hasTask_put.mpr (Or.inl rfl)
  · rename_i hretry
    rw [Fallible.bind_eq_ok] at h
    obtain ⟨again, hagain, h⟩ := h
    have hagain' : c.graph.hasTask n.name = false → again = true := by
      intro hf
      unfold queues at hagain
      rw [hf] at hagain
      exact (Fallible.pure_eq_ok.mp hagain).symm
    set c₁ := if again = true then c.enqueue n.name splits else c with hc₁
    have hgraph : c₁.graph = c.graph := by
      rw [hc₁]
      split
      · exact graph_enqueue
      · rfl
    have hsound : Sound spec (if c₁.graph.hasTransition t n.name n.condition.toList n.ref then c₁
        else { c₁ with graph := c₁.graph.addTransition t n.name n.condition.toList n.ref }) := by
      refine sound_next hc hts ht hn hretry hgraph ?_ ?_ ?_
      · intro u hu
        rw [hc₁]
        split
        · exact queue_enqueue hu
        · exact hu
      · intro hf
        rw [hc₁, if_pos (hagain' hf)]
        exact nodes_enqueue hc n.name hf
      · intro u hu
        rw [hc₁] at hu
        split at hu
        · exact tracked_enqueue hu
        · exact Or.inr hu
    have hc' : c' = if c₁.graph.hasTransition t n.name n.condition.toList n.ref then c₁
        else { c₁ with graph := c₁.graph.addTransition t n.name n.condition.toList n.ref } := by
      dsimp only at h
      split at h
      · rename_i hh
        rw [if_pos hh]
        exact (Fallible.pure_eq_ok.mp h).symm
      · rename_i hh
        rw [if_neg hh]
        exact (Fallible.pure_eq_ok.mp h).symm
    have hhas : c'.graph.hasTask t = true ∧ c'.graph.node t = c.graph.node t := by
      rw [hc']
      split
      · rw [hgraph]
        exact ⟨ht, rfl⟩
      · rw [hgraph]
        unfold WorkflowGraph.addTransition
        refine ⟨?_, ?_⟩
        · show ((c.graph.addTask t).addTask n.name).hasTask t = true
          simp
        · show ((c.graph.addTask t).addTask n.name).node t = _
          simp
    refine ⟨hc' ▸ hsound, hhas.1, ?_⟩
    obtain ⟨us, h1, h2, h3⟩ := hnode
    refine ⟨us, h1, ?_, ?_⟩
    · rw [← h2]
      exact congrArg Node.barrier hhas.2
    · intro hr
      rw [← h3 hr]
      exact congrArg Node.retry hhas.2

/-- The node of a task with its barrier and its retry. -/
def settle (g : WorkflowGraph) (t : String) (ts : TaskSpec) : WorkflowGraph :=
  let g := g.addTask t
  let g := match ts.join with
    | some b => g.setBarrier t b
    | none => g
  match ts.retry with
  | some r => g.setRetry t r
  | none => g

theorem settle_spec (g : WorkflowGraph) (t : String) (ts : TaskSpec) :
    (settle g t ts).edges = g.edges ∧
    (∀ u, (settle g t ts).hasTask u = true ↔ u = t ∨ g.hasTask u = true) ∧
    (∀ u, u ≠ t → (settle g t ts).node u = g.node u) ∧
    (settle g t ts).node t =
      ⟨ts.join.elim (g.node t).barrier some, ts.retry.elim (g.node t).retry some⟩ := by
  unfold settle
  cases hj : ts.join <;> cases hr : ts.retry <;>
    simp +contextual [WorkflowGraph.setBarrier, WorkflowGraph.setRetry,
      WorkflowGraph.node_updateTask]

/-- What is done with a task that is taken off the queue. -/
theorem visit_cases (h : visit spec c t splits = .ok c') :
    ∃ ts, spec.getTask t = .ok ts ∧ ∃ splits',
      (WorkflowSpec.nextTasksOf ts).foldlM (addNext spec t splits')
        { c with graph := settle c.graph t ts } = .ok c' := by
  rw [visit] at h
  obtain ⟨ts, hts, h⟩ := Fallible.bind_eq_ok.mp h
  obtain ⟨split, -, h⟩ := Fallible.bind_eq_ok.mp h
  obtain ⟨next, hnext, h⟩ := Fallible.bind_eq_ok.mp h
  have hnext' : next = WorkflowSpec.nextTasksOf ts := by
    rw [WorkflowSpec.getNextTasks, hts] at hnext
    exact (Fallible.pure_eq_ok.mp hnext).symm
  subst hnext'
  exact ⟨ts, hts, _, h⟩

/-- Before its transitions are followed, a task that is taken off the queue is settled. -/
theorem settle_sound {queue : List (String × List String)} (hc : Sound spec c)
    (hqueue : c.queue = (t, splits) :: queue) (hts : spec.getTask t = .ok ts) :
    Sound spec { c with queue := queue, graph := settle c.graph t ts } ∧
      NodeSound spec (settle c.graph t ts) t := by
  obtain ⟨hedges, hhas, hnode, hself⟩ := settle_spec c.graph t ts
  have hnone : ts = .empty → isReserved t = true → ts.retry = none := by
    rintro rfl _
    rfl
  have hold : c.graph.node t = ⟨none, none⟩ ∨ NodeSound spec c.graph t := by
    by_cases ht : c.graph.hasTask t = true
    · rcases hc.nodes t ht with h | h
      · exact Or.inr h
      · exact Or.inl h.2
    · exact Or.inl (WorkflowGraph.node_of_not_hasTask (by simpa using ht))
  have hsettled : NodeSound spec (settle c.graph t ts) t := by
    refine ⟨ts, hts, ?_, ?_⟩
    · rw [WorkflowGraph.getBarrier, hself]
      cases hj : ts.join with
      | some b => rfl
      | none =>
        rcases hold with h | ⟨us, h1, h2, _⟩
        · simp [h]
        · rw [hts] at h1
          cases h1
          exact h2.trans hj
    · intro hr
      have hempty : ts = .empty := by
        rw [WorkflowSpec.getTask_reserved hr] at hts
        cases hts
        rfl
      rw [WorkflowGraph.getTaskRetrySpec, hself, hnone hempty hr]
      rcases hold with h | ⟨us, _, _, h3⟩
      · simp [h]
      · exact h3 hr
  refine ⟨⟨?_, ?_, ?_, ?_, ?_⟩, hsettled⟩
  · intro e he
    rw [hedges] at he
    obtain ⟨h, h', h''⟩ := hc.edges e he
    exact ⟨h, (hhas _).mpr (Or.inr h'), (hhas _).mpr (Or.inr h'')⟩
  · rw [hedges]
    exact hc.keys
  · rw [hedges]
    exact hc.distinct
  · intro u hu
    by_cases hut : u = t
    · subst hut
      exact Or.inl hsettled
    · have hu' : c.graph.hasTask u = true := ((hhas u).mp hu).resolve_left hut
      rcases hc.nodes u hu' with ⟨us, h1, h2, h3⟩ | ⟨h, h'⟩
      · refine Or.inl ⟨us, h1, ?_, ?_⟩
        · rw [← h2]
          exact congrArg Node.barrier (hnode u hut)
        · intro hr
          rw [← h3 hr]
          exact congrArg Node.retry (hnode u hut)
      · rw [hqueue, List.map_cons, List.mem_cons] at h
        exact Or.inr ⟨h.resolve_left hut, (hnode u hut).trans h'⟩
  · exact fun u hu => (hhas u).mpr (Or.inr (hc.tracked u hu))

/-- A task taken off the queue leaves the state sound. -/
theorem visit_sound {queue : List (String × List String)} (hc : Sound spec c)
    (hqueue : c.queue = (t, splits) :: queue)
    (h : visit spec { c with queue := queue } t splits = .ok c') : Sound spec c' := by
  obtain ⟨ts, hts, splits', h⟩ := visit_cases h
  obtain ⟨hstart, hsettled⟩ := settle_sound hc hqueue hts
  have hhas := (settle_spec c.graph t ts).2.1
  refine (Fallible.foldlM_invariant (P := fun c => Sound spec c ∧ c.graph.hasTask t = true ∧
    NodeSound spec c.graph t) (fun n hn b b' hb hb' => addNext_sound hts hn hb hb')
    ⟨hstart, (hhas t).mpr (Or.inl rfl), hsettled⟩ h).1

theorem loop_sound {n : ℕ} {g : WorkflowGraph} (hc : Sound spec c)
    (h : loop spec n c = .ok (some g)) :
    ∃ c', Sound spec c' ∧ c'.queue = [] ∧ c'.graph = g := by
  induction n generalizing c with
  | zero =>
    unfold loop at h
    rw [Fallible.pure_eq_ok] at h
    split at h
    · rename_i hq
      exact ⟨c, hc, hq, Option.some.inj h⟩
    · cases h
  | succ n ih =>
    unfold loop at h
    split at h
    · rename_i hq
      rw [Fallible.pure_eq_ok] at h
      exact ⟨c, hc, hq, Option.some.inj h⟩
    · rename_i t splits queue hq
      obtain ⟨c₁, hv, h⟩ := Fallible.bind_eq_ok.mp h
      exact ih (visit_sound hc hq hv) h

end Composition

/-! ## The nodes -/

namespace WorkflowGraph

/-- No task has two nodes. -/
def Distinct (g : WorkflowGraph) : Prop := (g.nodes.map Prod.fst).Nodup

variable {g : WorkflowGraph}

theorem Distinct.addTask (h : g.Distinct) (t : String) : (g.addTask t).Distinct := by
  unfold WorkflowGraph.addTask
  split
  · exact h
  · exact Dict.nodup_put h

theorem Distinct.updateTask (h : g.Distinct) (t : String) (f : Node → Node) :
    (g.updateTask t f).Distinct := Dict.nodup_put h

theorem Distinct.addTransition (h : g.Distinct) (src dst : String) (criteria : List String)
    (ref : ℕ) : (g.addTransition src dst criteria ref).Distinct := (h.addTask src).addTask dst

end WorkflowGraph

namespace Composition

variable {spec : WorkflowSpec} {c c' : Composition} {t : String}

theorem addNext_distinct {splits : List String} {n : WorkflowSpec.NextTask}
    (hc : c.graph.Distinct) (h : addNext spec t splits c n = .ok c') : c'.graph.Distinct := by
  unfold addNext at h
  split at h
  · rw [Fallible.pure_eq_ok] at h
    rw [← h]
    exact hc.updateTask t _
  · obtain ⟨again, _, h⟩ := Fallible.bind_eq_ok.mp h
    have hgraph : (if again = true then c.enqueue n.name splits else c).graph = c.graph := by
      split
      · exact graph_enqueue
      · rfl
    generalize (if again = true then c.enqueue n.name splits else c) = c₁ at h hgraph
    dsimp only at h
    split at h
    · rw [Fallible.pure_eq_ok] at h
      rw [← h, hgraph]
      exact hc
    · rw [Fallible.pure_eq_ok] at h
      rw [← h]
      exact WorkflowGraph.Distinct.addTransition (hgraph ▸ hc) t n.name _ n.ref

theorem settle_distinct {g : WorkflowGraph} (hg : g.Distinct) (t : String) (ts : TaskSpec) :
    (settle g t ts).Distinct := by
  unfold settle
  cases ts.join <;> cases ts.retry
  · exact hg.addTask t
  · exact (hg.addTask t).updateTask t _
  · exact (hg.addTask t).updateTask t _
  · exact ((hg.addTask t).updateTask t _).updateTask t _

theorem loop_distinct {n : ℕ} {g : WorkflowGraph} (hc : c.graph.Distinct)
    (h : loop spec n c = .ok (some g)) : g.Distinct := by
  induction n generalizing c with
  | zero =>
    unfold loop at h
    rw [Fallible.pure_eq_ok] at h
    split at h
    · exact Option.some.inj h ▸ hc
    · cases h
  | succ n ih =>
    unfold loop at h
    split at h
    · rw [Fallible.pure_eq_ok] at h
      exact Option.some.inj h ▸ hc
    · rename_i t splits queue hq
      obtain ⟨c₁, hv, h⟩ := Fallible.bind_eq_ok.mp h
      refine ih ?_ h
      obtain ⟨ts, _, _, hv⟩ := visit_cases hv
      refine Fallible.foldlM_invariant (P := fun c => c.graph.Distinct)
        (fun n _ b b' hb hb' => addNext_distinct hb hb') ?_ hv
      exact settle_distinct hc t ts

end Composition

/-! ## The graph of a workflow -/

namespace Workflow

variable (wf : Workflow)

theorem composed_sound : ∃ c, Composition.Sound wf.spec c ∧ c.queue = [] ∧ c.graph = wf.graph := by
  obtain ⟨fuel, h⟩ := wf.composed
  refine Composition.loop_sound ⟨?_, ?_, List.Pairwise.nil, ?_, ?_⟩ h
  · simp
  · simp
  · simp [WorkflowGraph.hasTask]
  · simp

variable {wf} {e e' : Edge} {t : String}

theorem edge_sound (he : e ∈ wf.graph.edges) : EdgeSound wf.spec e := by
  obtain ⟨c, hc, _, hg⟩ := wf.composed_sound
  rw [← hg] at he
  exact (hc.edges e he).1

theorem hasTask_src (he : e ∈ wf.graph.edges) : wf.graph.hasTask e.src = true := by
  obtain ⟨c, hc, _, hg⟩ := wf.composed_sound
  rw [← hg] at he ⊢
  exact (hc.edges e he).2.1

theorem hasTask_dst (he : e ∈ wf.graph.edges) : wf.graph.hasTask e.dst = true := by
  obtain ⟨c, hc, _, hg⟩ := wf.composed_sound
  rw [← hg] at he ⊢
  exact (hc.edges e he).2.2

theorem node_sound (ht : wf.graph.hasTask t = true) : NodeSound wf.spec wf.graph t := by
  obtain ⟨c, hc, hq, hg⟩ := wf.composed_sound
  rw [← hg] at ht ⊢
  rcases hc.nodes t ht with h | h
  · exact h
  · rw [hq] at h
    exact absurd h.1 List.not_mem_nil

theorem nodes_distinct (wf : Workflow) : wf.graph.Distinct := by
  obtain ⟨fuel, h⟩ := wf.composed
  refine Composition.loop_distinct ?_ h
  exact List.nodup_nil

/-- No task is a root twice. -/
theorem roots_nodup (wf : Workflow) : wf.graph.roots.Nodup := by
  unfold WorkflowGraph.roots
  rw [(List.perm_insertionSort _ _).nodup_iff]
  exact wf.nodes_distinct.filter _

/-- Between two tasks each edge has a key and a transition of its own. -/
theorem edges_distinct (wf : Workflow) :
    wf.graph.edges.Pairwise fun e e' => e.src = e'.src → e.dst = e'.dst →
      e.key ≠ e'.key ∧ ¬ (e.criteria = e'.criteria ∧ e.ref = e'.ref) := by
  obtain ⟨c, hc, _, hg⟩ := wf.composed_sound
  rw [← hg]
  exact hc.distinct

/-- The specification of a task of the graph is found. -/
theorem getTask_ok (ht : wf.graph.hasTask t = true) : ∃ ts, wf.spec.getTask t = .ok ts := by
  obtain ⟨ts, h, _⟩ := node_sound ht
  exact ⟨ts, h⟩

/-- No transition leaves an engine command. -/
theorem not_reserved_src (he : e ∈ wf.graph.edges) : isReserved e.src = false := by
  obtain ⟨ts, hts, n, hn, _⟩ := edge_sound he
  by_contra hr
  rw [Bool.not_eq_false] at hr
  rw [WorkflowSpec.getTask_reserved hr] at hts
  cases hts
  rw [WorkflowSpec.nextTasksOf_empty] at hn
  exact List.not_mem_nil hn

theorem mem_getNextTransitions : e ∈ wf.graph.getNextTransitions t ↔
    e ∈ wf.graph.edges ∧ e.src = t := by
  unfold WorkflowGraph.getNextTransitions
  rw [List.mem_insertionSort, List.mem_filter]
  simp

theorem getNextTransitions_reserved (h : isReserved t = true) :
    wf.graph.getNextTransitions t = [] := by
  rw [List.eq_nil_iff_forall_not_mem]
  intro e he
  obtain ⟨hedge, rfl⟩ := mem_getNextTransitions.mp he
  rw [not_reserved_src hedge] at h
  cases h

/-- An engine command is not a join. -/
theorem getBarrier_reserved (ht : wf.graph.hasTask t = true) (h : isReserved t = true) :
    wf.graph.getBarrier t = none := by
  obtain ⟨ts, hts, hb, _⟩ := node_sound ht
  rw [WorkflowSpec.getTask_reserved h] at hts
  cases hts
  exact hb

/-- An engine command is not retried. -/
theorem getTaskRetrySpec_reserved (ht : wf.graph.hasTask t = true) (h : isReserved t = true) :
    wf.graph.getTaskRetrySpec t = none := by
  obtain ⟨_, _, _, h3⟩ := node_sound ht
  exact h3 h

/-- The transition of an edge is found under `next`, and it leads to the next task. -/
theorem transition_of_edge (he : e ∈ wf.graph.edges) {ts : TaskSpec}
    (hts : wf.spec.getTask e.src = .ok ts) :
    ∃ tr, ts.next[e.ref]? = some tr ∧ e.dst ∈ tr.doTasks := by
  obtain ⟨ts', hts', n, hn, hname, href, _⟩ := edge_sound he
  rw [hts] at hts'
  cases hts'
  obtain ⟨tr, htr, hmem, _⟩ := WorkflowSpec.mem_nextTasksOf hn
  exact ⟨tr, href ▸ htr, hname ▸ hmem⟩

end Workflow

end Orquesta
end IntegratedCLI
