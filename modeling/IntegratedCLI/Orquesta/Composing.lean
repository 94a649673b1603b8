import IntegratedCLI.Lib.Worklist
import IntegratedCLI.Orquesta.Reachability

/-!
# The composed graph is the specification

`Composed` says what the composer makes of the transitions; here is that it makes all of
them, and that it ends.

A task is in the graph if it is `Reached`, that is reachable without a transition to `retry`,
which is an engine command that has no node.  `Tracked` says of the state of the composer's
loop that the nodes and what is in the queue are reached, and that a node is still in the
queue or has all its transitions.

The loop ends (`loop_ends`), because a task on a cycle is queued only once, and what a task
queues that is on no cycle has fewer tasks that can be reached from it and do not lead back
(`height`).
-/

namespace IntegratedCLI
namespace Orquesta

open Fallible Relation

namespace WorkflowSpec

/-- A transition that is not to `retry` leads from `t` to `n`. -/
def Follows (spec : WorkflowSpec) (t n : String) : Prop := spec.Leads t n ∧ n ≠ "retry"

/-- The task is reachable without a transition to `retry`. -/
def Reached (spec : WorkflowSpec) (t : String) : Prop :=
  ∃ s ∈ spec.getStartTasks, ReflTransGen spec.Follows s t

variable {spec : WorkflowSpec} {t n : String} {ts : TaskSpec}

theorem reached_start {s : String} (hs : s ∈ spec.getStartTasks) : spec.Reached s := ⟨s, hs, .refl⟩

theorem Reached.next (h : spec.Reached t) (hn : spec.Follows t n) : spec.Reached n := by
  obtain ⟨s, hs, hreach⟩ := h
  exact ⟨s, hs, hreach.tail hn⟩

theorem Reached.fromStart (h : spec.Reached t) : spec.FromStart t := by
  obtain ⟨s, hs, hreach⟩ := h
  exact ⟨s, hs, hreach.lift id fun _ _ h => h.1⟩

/-- Nothing is left out but `retry`. -/
theorem FromStart.reached (h : spec.FromStart t) (ht : t ≠ "retry") : spec.Reached t := by
  obtain ⟨s, hs, hreach⟩ := h
  refine ⟨s, hs, ?_⟩
  clear hs
  induction hreach with
  | refl => exact .refl
  | tail _ hstep ih =>
    refine (ih fun hretry => ?_).tail ⟨hstep, ht⟩
    have hres := not_reserved_of_leads hstep
    rw [hretry] at hres
    exact absurd hres (by decide)

/-! ## How far a task is from the end -/

/-- The names that transitions lead to. -/
def names (spec : WorkflowSpec) : Finset String :=
  (spec.tasks.flatMap fun e => (nextTasksOf e.2).map NextTask.name).toFinset

theorem mem_names (h : spec.Leads t n) : n ∈ spec.names := by
  have hr := not_reserved_of_leads h
  obtain ⟨ts, hts, x, hx, hname⟩ := h
  rw [names, List.mem_toFinset, List.mem_flatMap]
  exact ⟨(t, ts), Dict.mem_of_lookup (lookup_of_getTask hr hts), List.mem_map.mpr ⟨x, hx, hname⟩⟩

open Classical in
/-- How many tasks are reachable from `t` that do not lead back to it. -/
noncomputable def height (spec : WorkflowSpec) (t : String) : ℕ :=
  (spec.names.filter fun u => TransGen spec.Leads t u ∧ ¬ TransGen spec.Leads u t).card

/-- The next tasks that are on no cycle are lower. -/
theorem height_lt (h : spec.Leads t n) (hn : ¬ TransGen spec.Leads n n) :
    spec.height n < spec.height t := by
  classical
  have hback : ¬ TransGen spec.Leads n t := fun hnt => hn (hnt.tail h)
  rw [height, height]
  refine Finset.card_lt_card ((Finset.ssubset_iff_of_subset fun u hu => ?_).mpr ⟨n, ?_, ?_⟩)
  · rw [Finset.mem_filter] at hu ⊢
    exact ⟨hu.1, .head h hu.2.1, fun hut => hu.2.2 (hut.tail h)⟩
  · rw [Finset.mem_filter]
    exact ⟨mem_names h, .single h, hback⟩
  · rw [Finset.mem_filter]
    exact fun hu => hn hu.2.1

end WorkflowSpec

namespace WorkflowGraph

variable {g : WorkflowGraph} {src dst : String} {criteria : List String} {ref : ℕ}

theorem hasTransition_iff : g.hasTransition src dst criteria ref = true ↔
    ∃ e ∈ g.edges, e.src = src ∧ e.dst = dst ∧ e.criteria = criteria ∧ e.ref = ref := by
  simp [hasTransition]

/-- The graph with the transition, which is added if it is not there. -/
def withTransition (g : WorkflowGraph) (src dst : String) (criteria : List String) (ref : ℕ) :
    WorkflowGraph :=
  if g.hasTransition src dst criteria ref then g else g.addTransition src dst criteria ref

theorem edges_withTransition {e : Edge} (he : e ∈ g.edges) :
    e ∈ (g.withTransition src dst criteria ref).edges := by
  rw [withTransition]
  split
  · exact he
  · simp only [addTransition, edges_addTask, List.mem_append]
    exact .inl he

theorem hasTransition_withTransition :
    (g.withTransition src dst criteria ref).hasTransition src dst criteria ref = true := by
  rw [withTransition]
  split
  · assumption
  · rw [hasTransition_iff]
    exact ⟨_, List.mem_append_right _ List.mem_cons_self, rfl, rfl, rfl, rfl⟩

/-- The graph has the tasks that it had, and the one the transition leads to. -/
theorem hasTask_withTransition {u : String} (hsrc : g.hasTask src = true)
    (hedges : ∀ e ∈ g.edges, g.hasTask e.dst = true) :
    (g.withTransition src dst criteria ref).hasTask u = true ↔ u = dst ∨ g.hasTask u = true := by
  rw [withTransition]
  split
  · rename_i hhas
    obtain ⟨e, he, -, rfl, -⟩ := hasTransition_iff.mp hhas
    constructor
    · exact .inr
    · rintro (rfl | hu)
      · exact hedges e he
      · exact hu
  · have : (g.addTransition src dst criteria ref).hasTask u
        = ((g.addTask src).addTask dst).hasTask u := rfl
    rw [this, hasTask_addTask, hasTask_addTask]
    constructor
    · rintro (h | rfl | h)
      · exact .inl h
      · exact .inr hsrc
      · exact .inr h
    · rintro (h | h)
      · exact .inl h
      · exact .inr (.inr h)

end WorkflowGraph

namespace Composition

variable {spec : WorkflowSpec} {c c' : Composition} {t u : String} {ts : TaskSpec}
  {splits : List String} {n : WorkflowSpec.NextTask}

/-! ## What a transition does -/

/-- Follow a transition that is not to `retry`: queue the next task if `again`, and add the
transition to the graph. -/
def follow (c : Composition) (t : String) (splits : List String) (n : WorkflowSpec.NextTask)
    (again : Bool) : Composition :=
  { if again then c.enqueue n.name splits else c with
    graph := c.graph.withTransition t n.name n.condition.toList n.ref }

theorem addNext_cases (h : addNext spec t splits c n = .ok c') :
    (n.name = "retry" ∧ ∃ r, c' = { c with graph := c.graph.setRetry t r }) ∨
      (n.name ≠ "retry" ∧ ∃ again, queues spec c n.name = .ok again ∧
        c' = c.follow t splits n again) := by
  rw [addNext] at h
  split at h
  · rename_i hretry
    exact .inl ⟨hretry, _, (pure_eq_ok.mp h).symm⟩
  · rename_i hretry
    obtain ⟨again, hagain, h⟩ := bind_eq_ok.mp h
    refine .inr ⟨hretry, again, hagain, ?_⟩
    have hgraph : (if again then c.enqueue n.name splits else c).graph = c.graph := by
      split
      · exact graph_enqueue
      · rfl
    dsimp only at h
    rw [hgraph] at h
    rw [follow, WorkflowGraph.withTransition]
    split at h
    · rename_i hhas
      rw [if_pos hhas, ← pure_eq_ok.mp h, ← hgraph]
    · rename_i hhas
      rw [if_neg hhas, ← pure_eq_ok.mp h]

/-- What is put into the queue is the task. -/
theorem queue_enqueue_eq : ∃ new, (c.enqueue t splits).queue = c.queue ++ new ∧
    ∀ q ∈ new, q.1 = t := by
  rw [enqueue]
  split
  · exact ⟨[(t, splits)], rfl, by simp⟩
  · split
    · exact ⟨[], (List.append_nil _).symm, by simp⟩
    · exact ⟨[(t, splits)], rfl, by simp⟩

theorem queue_follow {again : Bool} : ∃ new, (c.follow t splits n again).queue = c.queue ++ new ∧
    ∀ q ∈ new, again = true ∧ q.1 = n.name := by
  cases again with
  | false => exact ⟨[], (List.append_nil _).symm, by simp⟩
  | true =>
    obtain ⟨new, hnew, hname⟩ := @queue_enqueue_eq c n.name splits
    exact ⟨new, hnew, fun q hq => ⟨rfl, hname q hq⟩⟩

/-! ## What holds of the loop -/

/-- The task has all its transitions. -/
def Settled (spec : WorkflowSpec) (g : WorkflowGraph) (t : String) : Prop :=
  ∀ ts, spec.getTask t = .ok ts → ∀ n ∈ WorkflowSpec.nextTasksOf ts, n.name ≠ "retry" →
    g.hasTransition t n.name n.condition.toList n.ref = true

/-- The nodes and what is in the queue are reached, and a node is in the queue or has its
transitions, unless it is being visited. -/
structure Tracked (spec : WorkflowSpec) (visiting : Option String) (c : Composition) : Prop where
  sound : Sound spec c
  queue : ∀ q ∈ c.queue, spec.Reached q.1
  nodes : ∀ u, c.graph.hasTask u = true → spec.Reached u
  settled : ∀ u, c.graph.hasTask u = true →
    visiting = some u ∨ u ∈ c.queue.map Prod.fst ∨ Settled spec c.graph u
  starts : ∀ s ∈ spec.getStartTasks, s ∈ c.queue.map Prod.fst ∨ c.graph.hasTask s = true

theorem Settled.mono {g g' : WorkflowGraph} (h : Settled spec g u)
    (hedges : ∀ e ∈ g.edges, e ∈ g'.edges) : Settled spec g' u := by
  intro ts hts n hn hretry
  obtain ⟨e, he, heq⟩ := WorkflowGraph.hasTransition_iff.mp (h ts hts n hn hretry)
  exact WorkflowGraph.hasTransition_iff.mpr ⟨e, hedges e he, heq⟩

/-- A transition that is followed keeps track, and it is in the graph. -/
theorem follow_tracked {again : Bool} (hts : spec.getTask t = .ok ts)
    (hn : n ∈ WorkflowSpec.nextTasksOf ts) (hretry : n.name ≠ "retry")
    (ht : c.graph.hasTask t = true) (hagain : queues spec c n.name = .ok again)
    (hc : Tracked spec (some t) c) (hsound : Sound spec (c.follow t splits n again)) :
    Tracked spec (some t) (c.follow t splits n again) := by
  have hnext : spec.Reached n.name := (hc.nodes t ht).next ⟨⟨ts, hts, n, hn, rfl⟩, hretry⟩
  obtain ⟨new, hqueue, hnew⟩ := @queue_follow c t splits n again
  have hhas : ∀ u, (c.follow t splits n again).graph.hasTask u = true ↔
      u = n.name ∨ c.graph.hasTask u = true :=
    fun u => WorkflowGraph.hasTask_withTransition ht fun e he => (hc.sound.edges e he).2.2
  have hold : ∀ u ∈ c.queue.map Prod.fst, u ∈ (c.follow t splits n again).queue.map Prod.fst := by
    intro u hu
    rw [hqueue, List.map_append]
    exact List.mem_append_left _ hu
  refine ⟨hsound, ?_, ?_, ?_, ?_⟩
  · intro q hq
    rw [hqueue] at hq
    rcases List.mem_append.mp hq with hq | hq
    · exact hc.queue q hq
    · exact (hnew q hq).2 ▸ hnext
  · intro u hu
    rcases (hhas u).mp hu with rfl | hu
    · exact hnext
    · exact hc.nodes u hu
  · intro u hu
    by_cases hu' : c.graph.hasTask u = true
    · rcases hc.settled u hu' with h | h | h
      · exact .inl h
      · exact .inr (.inl (hold u h))
      · exact .inr (.inr (h.mono fun e he => WorkflowGraph.edges_withTransition he))
    · -- a node that is new was put into the queue
      obtain rfl := ((hhas u).mp hu).resolve_right hu'
      have hfalse : c.graph.hasTask n.name = false := by simpa using hu'
      have htrue : again = true := by
        rw [queues, hfalse] at hagain
        exact (pure_eq_ok.mp hagain).symm
      subst htrue
      exact .inr (.inl (nodes_enqueue hc.sound n.name hfalse))
  · intro s hs
    rcases hc.starts s hs with h | h
    · exact .inl (hold s h)
    · exact .inr ((hhas s).mpr (.inr h))

/-- The state while the task `t` is visited. -/
def Visiting (spec : WorkflowSpec) (t : String) (c : Composition) : Prop :=
  Tracked spec (some t) c ∧ c.graph.hasTask t = true ∧ NodeSound spec c.graph t

theorem addNext_visiting (hts : spec.getTask t = .ok ts) (hn : n ∈ WorkflowSpec.nextTasksOf ts)
    (hc : Visiting spec t c) (h : addNext spec t splits c n = .ok c') : Visiting spec t c' := by
  obtain ⟨hc, ht, hnode⟩ := hc
  obtain ⟨hsound, ht', hnode'⟩ := addNext_sound hts hn ⟨hc.sound, ht, hnode⟩ h
  refine ⟨?_, ht', hnode'⟩
  rcases addNext_cases h with ⟨-, r, rfl⟩ | ⟨hretry, again, hagain, rfl⟩
  · have hhas : ∀ u, (c.graph.setRetry t r).hasTask u = true ↔ c.graph.hasTask u = true := by
      intro u
      rw [WorkflowGraph.setRetry, WorkflowGraph.hasTask_updateTask, or_iff_right_of_imp]
      rintro rfl
      exact ht
    refine ⟨hsound, hc.queue, fun u hu => hc.nodes u ((hhas u).mp hu), fun u hu => ?_,
      fun s hs => (hc.starts s hs).imp_right (hhas s).mpr⟩
    exact hc.settled u ((hhas u).mp hu)
  · exact follow_tracked hts hn hretry ht hagain hc hsound

/-- The transition that is followed is in the graph from then on. -/
theorem addNext_transition (h : addNext spec t splits c n = .ok c') (hretry : n.name ≠ "retry") :
    c'.graph.hasTransition t n.name n.condition.toList n.ref = true := by
  rcases addNext_cases h with ⟨hretry', -⟩ | ⟨-, again, -, rfl⟩
  · exact absurd hretry' hretry
  · exact WorkflowGraph.hasTransition_withTransition

theorem addNext_edges (h : addNext spec t splits c n = .ok c') :
    ∀ e ∈ c.graph.edges, e ∈ c'.graph.edges := by
  rcases addNext_cases h with ⟨-, r, rfl⟩ | ⟨-, again, -, rfl⟩
  · exact fun e he => he
  · exact fun e he => WorkflowGraph.edges_withTransition he

/-- The task is settled when all its transitions were followed. -/
theorem settled_of_foldlM (hts : spec.getTask t = .ok ts)
    (h : (WorkflowSpec.nextTasksOf ts).foldlM (addNext spec t splits) c = .ok c') :
    Settled spec c'.graph t := by
  intro ts' hts' n hn hretry
  rw [hts] at hts'
  cases hts'
  refine foldlM_establishes (Q := fun n c => n.name ≠ "retry" →
    c.graph.hasTransition t n.name n.condition.toList n.ref = true) ?_ ?_ h n hn hretry
  · exact fun n _ b b' hb => addNext_transition hb
  · intro n m b b' hn hb hretry
    obtain ⟨e, he, heq⟩ := WorkflowGraph.hasTransition_iff.mp (hn hretry)
    exact WorkflowGraph.hasTransition_iff.mpr ⟨e, addNext_edges hb e he, heq⟩

/-- A task taken off the queue is reached, and its visit begins. -/
theorem visiting_start {queue : List (String × List String)} (hc : Tracked spec none c)
    (hqueue : c.queue = (t, splits) :: queue) (hts : spec.getTask t = .ok ts) :
    Visiting spec t { c with queue := queue, graph := settle c.graph t ts } := by
  obtain ⟨hedges, hhas, -⟩ := settle_spec c.graph t ts
  obtain ⟨hsound, hnode⟩ := settle_sound hc.sound hqueue hts
  have hreached : spec.Reached t := hc.queue (t, splits) (hqueue ▸ List.mem_cons_self)
  have hmem : ∀ u, u ∈ c.queue.map Prod.fst → u = t ∨ u ∈ queue.map Prod.fst := by
    intro u hu
    rwa [hqueue, List.map_cons, List.mem_cons] at hu
  refine ⟨⟨hsound, ?_, ?_, ?_, ?_⟩, (hhas t).mpr (.inl rfl), hnode⟩
  · exact fun q hq => hc.queue q (hqueue ▸ List.mem_cons_of_mem _ hq)
  · intro u hu
    rcases (hhas u).mp hu with rfl | hu
    · exact hreached
    · exact hc.nodes u hu
  · intro u hu
    by_cases hut : u = t
    · exact .inl (congrArg some hut.symm)
    · rcases hc.settled u (((hhas u).mp hu).resolve_left hut) with h | h | h
      · cases h
      · exact .inr (.inl ((hmem u h).resolve_left hut))
      · exact .inr (.inr (h.mono fun e he => hedges.symm ▸ he))
  · intro s hs
    rcases hc.starts s hs with h | h
    · rcases hmem s h with rfl | h
      · exact .inr ((hhas s).mpr (.inl rfl))
      · exact .inl h
    · exact .inr ((hhas s).mpr (.inr h))

/-- A visit keeps track. -/
theorem visit_tracked {queue : List (String × List String)} (hc : Tracked spec none c)
    (hqueue : c.queue = (t, splits) :: queue)
    (h : visit spec { c with queue := queue } t splits = .ok c') : Tracked spec none c' := by
  obtain ⟨ts, hts, splits', h⟩ := visit_cases h
  have hsettled := settled_of_foldlM hts h
  obtain ⟨hc', -⟩ := foldlM_invariant (P := Visiting spec t)
    (fun n hn b b' hb hb' => addNext_visiting hts hn hb hb') (visiting_start hc hqueue hts) h
  refine ⟨hc'.sound, hc'.queue, hc'.nodes, fun u hu => ?_, hc'.starts⟩
  rcases hc'.settled u hu with h | h
  · obtain rfl := Option.some_inj.mp h
    exact .inr (.inr hsettled)
  · exact .inr h

theorem loop_tracked {fuel : ℕ} {g : WorkflowGraph} (hc : Tracked spec none c)
    (h : loop spec fuel c = .ok (some g)) :
    ∃ c', Tracked spec none c' ∧ c'.queue = [] ∧ c'.graph = g := by
  induction fuel generalizing c with
  | zero =>
    rw [loop, pure_eq_ok] at h
    split at h
    · rename_i hq
      exact ⟨c, hc, hq, Option.some.inj h⟩
    · cases h
  | succ fuel ih =>
    rw [loop] at h
    split at h
    · rename_i hq
      exact ⟨c, hc, hq, Option.some.inj (pure_eq_ok.mp h)⟩
    · rename_i t splits queue hq
      obtain ⟨c₁, hv, h⟩ := bind_eq_ok.mp h
      exact ih (visit_tracked hc hq hv) h

/-! ## The loop ends -/

open Classical in
/-- The tasks on a cycle that have no node yet. -/
noncomputable def undiscovered (spec : WorkflowSpec) (c : Composition) : Finset String :=
  spec.names.filter fun u => TransGen spec.Leads u u ∧ c.graph.hasTask u = false

theorem mem_undiscovered : u ∈ undiscovered spec c ↔
    u ∈ spec.names ∧ TransGen spec.Leads u u ∧ c.graph.hasTask u = false := by
  classical
  rw [undiscovered, Finset.mem_filter]

theorem undiscovered_subset (h : ∀ u, c.graph.hasTask u = true → c'.graph.hasTask u = true) :
    undiscovered spec c' ⊆ undiscovered spec c := by
  intro u hu
  rw [mem_undiscovered] at hu ⊢
  refine ⟨hu.1, hu.2.1, ?_⟩
  by_contra hne
  have := h u (by simpa using hne)
  rw [hu.2.2] at this
  cases this

/-- What was done while `t` is visited: what is queued is lower than `t`, unless a task on a
cycle was discovered. -/
def Progress (spec : WorkflowSpec) (t : String) (c c' : Composition) : Prop :=
  ∃ new, c'.queue = c.queue ++ new ∧ undiscovered spec c' ⊆ undiscovered spec c ∧
    (undiscovered spec c' ≠ undiscovered spec c ∨ ∀ q ∈ new, spec.height q.1 < spec.height t)

theorem progress_of_queue (hqueue : c'.queue = c.queue)
    (h : ∀ u, c.graph.hasTask u = true → c'.graph.hasTask u = true) : Progress spec t c c' :=
  ⟨[], hqueue.trans (List.append_nil _).symm, undiscovered_subset h, .inr fun _ hq => nomatch hq⟩

theorem Progress.trans {c₁ c₂ c₃ : Composition} (h : Progress spec t c₁ c₂)
    (h' : Progress spec t c₂ c₃) : Progress spec t c₁ c₃ := by
  obtain ⟨new, hnew, hsub, hlow⟩ := h
  obtain ⟨new', hnew', hsub', hlow'⟩ := h'
  refine ⟨new ++ new', by rw [hnew', hnew, List.append_assoc], hsub'.trans hsub, ?_⟩
  by_cases heq : undiscovered spec c₃ = undiscovered spec c₁
  · have h₂ : undiscovered spec c₂ = undiscovered spec c₁ := hsub.antisymm (heq ▸ hsub')
    refine .inr fun q hq => ?_
    rcases List.mem_append.mp hq with hq | hq
    · exact hlow.resolve_left (not_not.mpr h₂) q hq
    · exact hlow'.resolve_left (not_not.mpr (heq.trans h₂.symm)) q hq
  · exact .inl heq

/-- Whether a task is queued is found out if all tasks are defined, and a task on a cycle is
queued only if it has no node. -/
theorem queues_spec (hdef : spec.Defined) (ht : spec.FromStart t) : ∃ b,
    queues spec c t = .ok b ∧
      (b = true → TransGen spec.Leads t t → c.graph.hasTask t = false) := by
  obtain ⟨b, hb, hcycle⟩ := WorkflowSpec.inCycle_spec (hdef t ht) fun x hx => hdef x (ht.trans hx)
  rw [queues]
  cases hhas : c.graph.hasTask t with
  | false => exact ⟨true, rfl, fun _ _ => rfl⟩
  | true =>
    rw [if_pos rfl, hb]
    refine ⟨!b, rfl, fun hnot hloop => ?_⟩
    rw [hcycle.mpr hloop] at hnot
    cases hnot

theorem splitsAt_ok (hdef : spec.Defined) (ht : spec.FromStart t) :
    ∃ b, splitsAt spec t = .ok b := by
  obtain ⟨ts, hts⟩ := WorkflowSpec.hasTask_iff.mp (hdef t ht)
  obtain ⟨b, hb, -⟩ := WorkflowSpec.inCycle_spec (hdef t ht) fun x hx => hdef x (ht.trans hx)
  rw [splitsAt, WorkflowSpec.isSplitTask, WorkflowSpec.isJoinTask, hts, hb]
  simp only [bind_ok, pure, Except.pure]
  split
  · exact ⟨_, rfl⟩
  · exact ⟨_, rfl⟩

/-- A transition is followed without an error, and progress is made. -/
theorem addNext_ok (hdef : spec.Defined) (hts : spec.getTask t = .ok ts)
    (hn : n ∈ WorkflowSpec.nextTasksOf ts) (hc : Visiting spec t c) :
    ∃ c', addNext spec t splits c n = .ok c' ∧ Progress spec t c c' := by
  have hleads : spec.Leads t n.name := ⟨ts, hts, n, hn, rfl⟩
  have hstart := ((hc.1.nodes t hc.2.1).fromStart).next hleads
  obtain ⟨again, hagain, hcycle⟩ := @queues_spec spec c n.name hdef hstart
  have hok : ∃ c', addNext spec t splits c n = .ok c' := by
    rw [addNext]
    split
    · exact ⟨_, rfl⟩
    · rw [hagain, bind_ok]
      dsimp only
      split <;> split <;> exact ⟨_, rfl⟩
  obtain ⟨c', h⟩ := hok
  refine ⟨c', h, ?_⟩
  have hvisit := addNext_visiting hts hn hc h
  rcases addNext_cases h with ⟨-, r, rfl⟩ | ⟨hretry, again', hagain', rfl⟩
  · exact progress_of_queue rfl fun u hu => WorkflowGraph.hasTask_put.mpr (.inr hu)
  · rw [hagain] at hagain'
    cases hagain'
    have hhas : ∀ u, (c.follow t splits n again).graph.hasTask u = true ↔
        u = n.name ∨ c.graph.hasTask u = true :=
      fun u => WorkflowGraph.hasTask_withTransition hc.2.1 fun e he => (hc.1.sound.edges e he).2.2
    obtain ⟨new, hqueue, hnew⟩ := @queue_follow c t splits n again
    have hsub := @undiscovered_subset spec c (c.follow t splits n again)
      fun u hu => (hhas u).mpr (.inr hu)
    refine ⟨new, hqueue, hsub, ?_⟩
    by_cases hloop : TransGen spec.Leads n.name n.name
    · by_cases hfalse : c.graph.hasTask n.name = false
      · -- the task is discovered now
        refine .inl fun heq => ?_
        have hmem : n.name ∈ undiscovered spec c :=
          mem_undiscovered.mpr ⟨WorkflowSpec.mem_names hleads, hloop, hfalse⟩
        rw [← heq, mem_undiscovered, (hhas n.name).mpr (.inl rfl)] at hmem
        cases hmem.2.2
      · refine .inr fun q hq => ?_
        exact absurd (hcycle (hnew q hq).1 hloop) hfalse
    · exact .inr fun q hq => (hnew q hq).2 ▸ WorkflowSpec.height_lt hleads hloop

/-- A task is visited without an error, and the queue advances. -/
theorem visit_ok {queue : List (String × List String)} (hdef : spec.Defined)
    (hc : Tracked spec none c) (hqueue : c.queue = (t, splits) :: queue) :
    ∃ c', visit spec { c with queue := queue } t splits = .ok c' ∧
      Worklist.Advances Composition.queue (fun q => spec.height q.1)
        (fun c => (undiscovered spec c).card) c c' := by
  have hreached : spec.Reached t := hc.queue (t, splits) (hqueue ▸ List.mem_cons_self)
  obtain ⟨ts, hts⟩ := WorkflowSpec.hasTask_iff.mp (hdef t hreached.fromStart)
  obtain ⟨split, hsplit⟩ := splitsAt_ok hdef hreached.fromStart
  have hstart := visiting_start hc hqueue hts
  obtain ⟨c', h, -, hprogress⟩ := foldlM_ok
    (f := addNext spec t (if split = true then splits ++ [t] else splits))
    (P := fun b => Visiting spec t b ∧
      Progress spec t { c with queue := queue, graph := settle c.graph t ts } b)
    (fun n (hn : n ∈ WorkflowSpec.nextTasksOf ts) b hb => by
      obtain ⟨b', h, hprogress⟩ := addNext_ok hdef hts hn hb.1
      exact ⟨b', h, addNext_visiting hts hn hb.1 h, hb.2.trans hprogress⟩)
    ⟨hstart, progress_of_queue rfl fun _ hu => hu⟩
  refine ⟨c', ?_, ?_⟩
  · rw [visit, hts, bind_ok, hsplit, bind_ok, WorkflowSpec.getNextTasks_eq hts, bind_ok]
    exact h
  · obtain ⟨new, hnew, hsub, hlow⟩ := hprogress
    have hsettle : undiscovered spec { c with queue := queue, graph := settle c.graph t ts }
        ⊆ undiscovered spec c :=
      undiscovered_subset fun u hu => ((settle_spec c.graph t ts).2.1 u).mpr (.inr hu)
    refine ⟨(t, splits), queue, new, hqueue, hnew, ?_⟩
    by_cases heq : undiscovered spec c' = undiscovered spec c
    · refine .inr ⟨congrArg Finset.card heq, hlow.resolve_left (not_not.mpr ?_)⟩
      exact hsub.antisymm (heq ▸ hsettle)
    · exact .inl (Finset.card_lt_card ((hsub.trans hsettle).ssubset_of_ne heq))

/-- **The loop ends** if all tasks that are reachable are defined. -/
theorem loop_ends (hdef : spec.Defined) (hc : Tracked spec none c) :
    ∃ fuel g, loop spec fuel c = .ok (some g) := by
  induction c using (Worklist.wellFounded_advances Composition.queue
    (fun q => spec.height q.1) (fun c => (undiscovered spec c).card)).induction with
  | _ c ih =>
    match hq : c.queue with
    | [] => exact ⟨0, c.graph, by rw [loop, if_pos hq]; rfl⟩
    | (t, splits) :: queue =>
      obtain ⟨c', h, hadvances⟩ := visit_ok hdef hc hq
      obtain ⟨fuel, g, hloop⟩ := ih c' hadvances (visit_tracked hc hq h)
      refine ⟨fuel + 1, g, ?_⟩
      rw [loop, hq]
      dsimp only
      rw [h, bind_ok, hloop]

/-- More fuel changes nothing. -/
theorem loop_mono {fuel fuel' : ℕ} {g : WorkflowGraph} (h : loop spec fuel c = .ok (some g))
    (hle : fuel ≤ fuel') : loop spec fuel' c = .ok (some g) := by
  induction fuel generalizing c fuel' with
  | zero =>
    rw [loop, pure_eq_ok] at h
    split at h
    · rename_i hq
      cases fuel' with
      | zero => rw [loop, if_pos hq, h]; rfl
      | succ fuel' =>
        rw [loop, hq]
        exact congrArg Except.ok h
    · cases h
  | succ fuel ih =>
    obtain ⟨fuel', rfl⟩ : ∃ k, fuel' = k + 1 := ⟨fuel' - 1, by omega⟩
    rw [loop] at h ⊢
    split at h
    · exact h
    · obtain ⟨c₁, hv, h⟩ := bind_eq_ok.mp h
      rw [hv, bind_ok]
      exact ih h (by omega)

end Composition

/-! ## The graph -/

/-- The tasks of the graph are those that are reached, a task has one edge for each name under
the `do` of each of its transitions, except for `retry`, and there is no other edge; and a task
has the barrier that its `join` says. -/
structure Exactly (spec : WorkflowSpec) (g : WorkflowGraph) : Prop where
  nodes : ∀ t, g.hasTask t = true ↔ spec.Reached t
  edges : ∀ t ts i tr n, spec.Reached t → spec.getTask t = .ok ts → ts.next[i]? = some tr →
    n ∈ tr.doTasks → n ≠ "retry" →
      g.edges.countP (fun e => e.src = t ∧ e.dst = n ∧ e.criteria = tr.when.toList ∧ e.ref = i) = 1
  only : ∀ e ∈ g.edges, spec.Reached e.src ∧ ∃ ts tr, spec.getTask e.src = .ok ts ∧
    ts.next[e.ref]? = some tr ∧ e.dst ∈ tr.doTasks ∧ e.dst ≠ "retry" ∧ e.criteria = tr.when.toList
  barriers : ∀ t ts, spec.Reached t → spec.getTask t = .ok ts → g.getBarrier t = ts.join

/-- What holds of one element, and of no two, holds of exactly one. -/
theorem countP_eq_one {α : Type} {p : α → Bool} {l : List α}
    (hpair : l.Pairwise fun x y => ¬ (p x = true ∧ p y = true)) (h : ∃ x ∈ l, p x = true) :
    l.countP p = 1 := by
  induction l with
  | nil => obtain ⟨x, hx, -⟩ := h; cases hx
  | cons y l ih =>
    rw [List.pairwise_cons] at hpair
    by_cases hy : p y = true
    · have hzero : l.countP p = 0 :=
        List.countP_eq_zero.mpr fun x hx hpx => hpair.1 x hx ⟨hy, hpx⟩
      rw [List.countP_cons_of_pos hy, hzero]
    · obtain ⟨x, hx, hpx⟩ := h
      rw [List.countP_cons_of_neg hy]
      refine ih hpair.2 ⟨x, ?_, hpx⟩
      exact (List.mem_cons.mp hx).resolve_left fun hxy => hy (hxy ▸ hpx)

namespace WorkflowSpec

variable {spec : WorkflowSpec} {g : WorkflowGraph} {fuel : ℕ}

theorem tracked_start : Composition.Tracked spec none
    ⟨spec.getStartTasks.map fun t => (t, []), ⟨[], []⟩, []⟩ := by
  refine ⟨⟨?_, ?_, List.Pairwise.nil, ?_, ?_⟩, ?_, ?_, ?_, fun s hs => .inl ?_⟩
  · exact fun e he => nomatch he
  · exact fun e he => nomatch he
  · exact fun u hu => nomatch hu
  · exact fun u hu => nomatch hu
  · intro q hq
    obtain ⟨s, hs, rfl⟩ := List.mem_map.mp hq
    exact reached_start hs
  · exact fun u hu => nomatch hu
  · exact fun u hu => nomatch hu
  · rw [List.map_map]
    exact List.mem_map_of_mem hs

/-- **A graph that was composed is the specification.** -/
theorem exactly_of_composed (h : compose fuel spec = .ok (some g)) : Exactly spec g := by
  obtain ⟨c, hc, hqueue, rfl⟩ := Composition.loop_tracked tracked_start h
  have hsettled : ∀ t, c.graph.hasTask t = true → Composition.Settled spec c.graph t := by
    intro t ht
    rcases hc.settled t ht with h | h | h
    · cases h
    · rw [hqueue] at h
      cases h
    · exact h
  have hnode : ∀ t, c.graph.hasTask t = true → NodeSound spec c.graph t := by
    intro t ht
    rcases hc.sound.nodes t ht with h | ⟨h, -⟩
    · exact h
    · rw [hqueue] at h
      cases h
  have hnodes : ∀ t, spec.Reached t → c.graph.hasTask t = true := by
    rintro t ⟨s, hs, hreach⟩
    induction hreach with
    | refl =>
      rcases hc.starts s hs with h | h
      · rw [hqueue] at h
        cases h
      · exact h
    | tail _ hstep ih =>
      obtain ⟨⟨ts, hts, n, hn, rfl⟩, hretry⟩ := hstep
      obtain ⟨e, he, -, hdst, -⟩ :=
        WorkflowGraph.hasTransition_iff.mp (hsettled _ ih ts hts n hn hretry)
      rw [← hdst]
      exact (hc.sound.edges e he).2.2
  refine ⟨fun t => ⟨hc.nodes t, hnodes t⟩, ?_, ?_, ?_⟩
  · intro t ts i tr n ht hts hi hn hretry
    refine countP_eq_one (hc.sound.distinct.imp fun {e e'} hee' => ?_) ?_
    · simp only [decide_eq_true_eq]
      rintro ⟨⟨hsrc, hdst, hcrit, href⟩, hsrc', hdst', hcrit', href'⟩
      exact (hee' (hsrc.trans hsrc'.symm) (hdst.trans hdst'.symm)).2
        ⟨hcrit.trans hcrit'.symm, href.trans href'.symm⟩
    · have hmem : (⟨n, tr.when, i⟩ : NextTask) ∈ nextTasksOf ts :=
        mem_nextTasksOf_iff.mpr ⟨tr, hi, hn, rfl⟩
      have := hsettled t (hnodes t ht) ts hts _ hmem hretry
      simpa [WorkflowGraph.hasTransition_iff] using this
  · intro e he
    obtain ⟨⟨ts, hts, n, hn, hname, href, hcrit, hretry⟩, hsrc, -⟩ := hc.sound.edges e he
    obtain ⟨tr, htr, hdo, hwhen⟩ := mem_nextTasksOf hn
    exact ⟨hc.nodes e.src hsrc, ts, tr, hts, href ▸ htr, hname ▸ hdo, hretry, hwhen ▸ hcrit.symm⟩
  · intro t ts ht hts
    obtain ⟨ts', hts', hbarrier, -⟩ := hnode t (hnodes t ht)
    rw [hts] at hts'
    cases hts'
    exact hbarrier

/-- If a graph was composed, then all tasks that are reachable are defined. -/
theorem defined_of_composed (h : compose fuel spec = .ok (some g)) : spec.Defined := by
  intro t ht
  by_cases hretry : t = "retry"
  · subst hretry
    rfl
  · obtain ⟨c, hc, hqueue, rfl⟩ := Composition.loop_tracked tracked_start h
    have hnode := ((exactly_of_composed h).nodes t).mpr (ht.reached hretry)
    rcases hc.sound.nodes t hnode with ⟨ts, hts, -⟩ | ⟨h, -⟩
    · exact hasTask_iff.mpr ⟨ts, hts⟩
    · rw [hqueue] at h
      cases h

theorem composes (hdef : spec.Defined) : ∃ fuel g, compose fuel spec = .ok (some g) :=
  Composition.loop_ends hdef tracked_start

/-- **The composer ends, and the graph is the specification**, if all tasks that are reachable
are defined. -/
theorem compose_exactly (hdef : spec.Defined) : ∃ fuel g,
    (∀ fuel', fuel ≤ fuel' → compose fuel' spec = .ok (some g)) ∧ Exactly spec g := by
  obtain ⟨fuel, g, h⟩ := composes hdef
  exact ⟨fuel, g, fun fuel' hle => Composition.loop_mono h hle, exactly_of_composed h⟩

/-- It is enough that the names of all transitions are defined. -/
theorem defined_of_names (h : ∀ e ∈ spec.tasks, ∀ tr ∈ e.2.next, ∀ n ∈ tr.doTasks,
    spec.hasTask n = true) : spec.Defined := by
  rintro t ⟨s, hs, hreach⟩
  cases hreach with
  | refl => exact hasTask_start hs
  | tail _ hstep =>
    have hr := not_reserved_of_leads hstep
    obtain ⟨ts, hts, tr, htr, hn⟩ := leads_iff.mp hstep
    exact h _ (Dict.mem_of_lookup (lookup_of_getTask hr hts)) tr htr t hn

/-- A task that leads to itself, to the end and to `retry`. -/
def looping : WorkflowSpec :=
  ⟨[], [], [("start", { TaskSpec.empty with next := [⟨none, [], ["again"]⟩] }),
    ("again", { TaskSpec.empty with
      join := some .all
      next := [⟨some "<% failed() %>", [], ["again", "retry"]⟩, ⟨none, [], ["noop", "noop"]⟩] })]⟩

theorem compose_exactly_looping : looping.Defined ∧ ∃ fuel g,
    (∀ fuel', fuel ≤ fuel' → compose fuel' looping = .ok (some g)) ∧ Exactly looping g := by
  have hdef : looping.Defined := defined_of_names (by decide)
  exact ⟨hdef, compose_exactly hdef⟩

/-- A task that leads to `retry`. -/
def retrying : WorkflowSpec :=
  ⟨[], [], [("work", { TaskSpec.empty with next := [⟨none, [], ["retry"]⟩] })]⟩

/-- The engine command `retry` is reachable, but it is no node. -/
theorem compose_retrying : retrying.Defined ∧ ∃ g, compose 1 retrying = .ok (some g) ∧
    retrying.FromStart "retry" ∧ isReserved "retry" = true ∧ g.hasTask "retry" = false := by
  refine ⟨defined_of_names (by decide), _, rfl, ?_, rfl, rfl⟩
  refine ⟨"work", by decide, .single (leads_iff.mpr ?_)⟩
  exact ⟨_, rfl, ⟨none, [], ["retry"]⟩, List.mem_cons_self, List.mem_cons_self⟩

end WorkflowSpec

end Orquesta
end IntegratedCLI
