import IntegratedCLI.Orquesta.Composing

/-!
# Two tests for cycles

The composer asks the specification whether a task is on a cycle, and the conductor asks the
composed graph, which goes through all simple cycles.  How the simple cycles are found is not
part of this code, and `simpleCycles` is an argument that is to list them.

`cycle_tests_agree` says that the two tests agree for every task that is reachable, and that
both tell whether there is a way from the task back to itself; `inCycle` of the model of the
graph, which the model of the conductor uses, does so too.
-/

namespace IntegratedCLI
namespace Orquesta

open Relation

namespace WorkflowGraph

/-- An edge joins the two tasks. -/
def Joins (g : WorkflowGraph) (t u : String) : Prop := ∃ e ∈ g.edges, e.src = t ∧ e.dst = u

/-- `in_cycle` of the graph: the simple cycles that the task is on. -/
def cyclesOf (simpleCycles : WorkflowGraph → List (List String)) (g : WorkflowGraph)
    (t : String) : List (List String) :=
  (simpleCycles g).filter fun c => t ∈ c

variable {g : WorkflowGraph} {t u : String} {n : ℕ} {ts : List String}

theorem cyclesOf_ne_nil_iff {simpleCycles : WorkflowGraph → List (List String)}
    (h : Cycles.Enumerates g.Joins (simpleCycles g)) :
    g.cyclesOf simpleCycles t ≠ [] ↔ TransGen g.Joins t t := by
  rw [← h.exists_mem_iff, cyclesOf, ne_eq, List.filter_eq_nil_iff]
  simp

theorem mem_successors : u ∈ g.successors t ↔ g.Joins t u := by
  rw [successors, List.mem_map]
  constructor
  · rintro ⟨e, he, rfl⟩
    rw [List.mem_filter, decide_eq_true_eq] at he
    exact ⟨e, he.1, he.2, rfl⟩
  · rintro ⟨e, he, rfl, rfl⟩
    exact ⟨e, List.mem_filter.mpr ⟨he, decide_eq_true rfl⟩, rfl⟩

/-! ## Reaching tasks in so many transitions -/

theorem mem_closure_self (h : u ∈ ts) : u ∈ g.closure n ts := by
  induction n generalizing ts with
  | zero => exact h
  | succ n ih => exact ih (List.mem_dedup.mpr (List.mem_append_left _ h))

theorem reachable_of_mem_closure (h : u ∈ g.closure n ts) :
    ∃ t ∈ ts, ReflTransGen g.Joins t u := by
  induction n generalizing ts with
  | zero => exact ⟨u, h, .refl⟩
  | succ n ih =>
    obtain ⟨t, ht, hreach⟩ := ih h
    rw [List.mem_dedup, List.mem_append, List.mem_flatMap] at ht
    rcases ht with ht | ⟨s, hs, ht⟩
    · exact ⟨t, ht, hreach⟩
    · exact ⟨s, hs, .head (mem_successors.mp ht) hreach⟩

/-- What is at the end of a walk is there after as many transitions. -/
theorem mem_closure_of_walk {l : List String} (ht : t ∈ ts) (hwalk : List.IsChain g.Joins (t :: l))
    (hlast : (t :: l).getLast (List.cons_ne_nil t l) = u) (hn : l.length ≤ n) :
    u ∈ g.closure n ts := by
  induction l generalizing t ts n with
  | nil =>
    obtain rfl : t = u := hlast
    exact mem_closure_self ht
  | cons s l ih =>
    cases n with
    | zero => exact absurd hn (Nat.not_succ_le_zero _)
    | succ n =>
      obtain ⟨hstep, hwalk⟩ := List.isChain_cons_cons.mp hwalk
      have hs : s ∈ (ts ++ ts.flatMap g.successors).dedup :=
        List.mem_dedup.mpr (List.mem_append_right _
          (List.mem_flatMap.mpr ⟨t, ht, mem_successors.mpr hstep⟩))
      rw [List.length_cons] at hn
      rw [closure]
      exact ih hs hwalk hlast (by omega)

/-- The tasks that can be reached are reached in no more transitions than there are nodes. -/
theorem inCycle_iff (hedges : ∀ e ∈ g.edges, g.hasTask e.dst = true) :
    g.inCycle t = true ↔ TransGen g.Joins t t := by
  rw [inCycle, decide_eq_true_eq]
  constructor
  · intro h
    obtain ⟨s, hs, hreach⟩ := reachable_of_mem_closure h
    exact .head' (mem_successors.mp hs) hreach
  · intro h
    obtain ⟨s, hstep, hreach⟩ := TransGen.head'_iff.mp h
    obtain ⟨l, hl⟩ := Cycles.exists_isPath hreach
    refine mem_closure_of_walk (mem_successors.mpr hstep) hl.chain hl.last ?_
    have hnode : ∀ {x y}, g.Joins x y → y ∈ g.nodes.map Prod.fst := by
      rintro x y ⟨e, he, rfl, rfl⟩
      have := hedges e he
      rw [hasTask, List.lookup_isSome_iff] at this
      obtain ⟨p, hp, hname⟩ := this
      exact List.mem_map.mpr ⟨p, hp, (beq_iff_eq.mp hname).symm⟩
    have hall : ∀ x ∈ s :: l, x ∈ g.nodes.map Prod.fst := by
      intro x hx
      cases (hl.reachable_mem hx).1 with
      | refl => exact hnode hstep
      | tail _ hlast => exact hnode hlast
    have hlt := hl.length_lt hall
    rw [List.length_map] at hlt
    exact hlt.le

end WorkflowGraph

namespace WorkflowSpec

variable {spec : WorkflowSpec} {g : WorkflowGraph} {t u : String} {fuel : ℕ}

theorem Leads.joins (h : Exactly spec g) (ht : spec.FromStart t) (hstep : spec.Leads t u)
    (hu : u ≠ "retry") : g.Joins t u := by
  have hres := not_reserved_of_leads hstep
  have hretry : t ≠ "retry" := by
    rintro rfl
    exact absurd hres (by decide)
  obtain ⟨ts, hts, tr, htr, hdo⟩ := leads_iff.mp hstep
  obtain ⟨i, hi⟩ := List.mem_iff_getElem?.mp htr
  have hone := h.edges t ts i tr u (ht.reached hretry) hts hi hdo hu
  obtain ⟨e, he, heq⟩ := List.countP_pos_iff.mp (hone ▸ Nat.one_pos)
  rw [decide_eq_true_eq] at heq
  exact ⟨e, he, heq.1, heq.2.1⟩

/-- The ways in the graph are those in the specification, from a task that is reachable on. -/
theorem transGen_joins_iff (h : Exactly spec g) (ht : spec.FromStart t) (hu : u ≠ "retry") :
    TransGen g.Joins t u ↔ TransGen spec.Leads t u := by
  constructor
  · refine fun hway => hway.lift id ?_
    rintro x y ⟨e, he, rfl, rfl⟩
    obtain ⟨-, ts, tr, hts, htr, hdo, -⟩ := h.only e he
    exact leads_iff.mpr ⟨ts, hts, tr, List.mem_of_getElem? htr, hdo⟩
  · intro hway
    induction hway with
    | single hstep => exact .single (hstep.joins h ht hu)
    | tail hway hstep ih =>
      refine (ih ?_).tail (hstep.joins h (ht.trans hway) hu)
      -- what a transition leads from is no engine command
      rintro rfl
      exact absurd (not_reserved_of_leads hstep) (by decide)

/-- **The tests for cycles agree.** -/
theorem cycle_tests_agree (simpleCycles : WorkflowGraph → List (List String))
    (hcomposed : compose fuel spec = .ok (some g))
    (hcycles : Cycles.Enumerates g.Joins (simpleCycles g)) (ht : spec.FromStart t) :
    ∃ b, spec.inCycle t = .ok b ∧ (b = true ↔ TransGen spec.Leads t t) ∧
      (b = true ↔ g.cyclesOf simpleCycles t ≠ []) ∧ b = g.inCycle t := by
  have hdef := defined_of_composed hcomposed
  have hexact := exactly_of_composed hcomposed
  obtain ⟨b, hb, hiff⟩ := inCycle_spec (hdef t ht) fun x hx => hdef x (ht.trans hx)
  have hways : TransGen g.Joins t t ↔ TransGen spec.Leads t t := by
    by_cases hretry : t = "retry"
    · -- nothing leads from `retry`, in the specification or in the graph
      subst hretry
      refine iff_of_false (fun h => ?_) fun h => ?_
      · obtain ⟨_, ⟨e, he, hsrc, -⟩, -⟩ := TransGen.head'_iff.mp h
        obtain ⟨-, ts, tr, hts, htr, hdo, -⟩ := hexact.only e he
        have := not_reserved_of_leads (leads_iff.mpr ⟨ts, hts, tr, List.mem_of_getElem? htr, hdo⟩)
        rw [hsrc] at this
        exact absurd this (by decide)
      · obtain ⟨_, hstep, -⟩ := TransGen.head'_iff.mp h
        exact absurd (not_reserved_of_leads hstep) (by decide)
    · exact transGen_joins_iff hexact ht hretry
  have hnodes : ∀ e ∈ g.edges, g.hasTask e.dst = true := by
    intro e he
    obtain ⟨hsrc, ts, tr, hts, htr, hdo, hretry, -⟩ := hexact.only e he
    have hstep := leads_iff.mpr ⟨ts, hts, tr, List.mem_of_getElem? htr, hdo⟩
    exact (hexact.nodes e.dst).mpr (hsrc.next ⟨hstep, hretry⟩)
  refine ⟨b, hb, hiff, ?_, ?_⟩
  · rw [WorkflowGraph.cyclesOf_ne_nil_iff hcycles, hways, hiff]
  · rw [Bool.eq_iff_iff, WorkflowGraph.inCycle_iff hnodes, hways, hiff]

/-- The graph of `looping`. -/
def loopingGraph : WorkflowGraph :=
  ⟨[("start", ⟨none, none⟩),
    ("again", ⟨some .all, some ⟨some "<% failed() %>", .int 3, none⟩⟩),
    ("noop", ⟨none, none⟩)],
    [⟨"start", "again", 0, [], 0⟩, ⟨"again", "again", 0, ["<% failed() %>"], 0⟩,
      ⟨"again", "noop", 0, [], 1⟩]⟩

/-- The only simple cycle of the graph is that of `again` alone. -/
theorem enumerates_loopingGraph : Cycles.Enumerates loopingGraph.Joins [["again"]] := by
  constructor
  · intro c hc
    obtain rfl := List.mem_singleton.mp hc
    exact ⟨"again", "again", [], rfl, Cycles.isPath_refl "again", by simp [WorkflowGraph.Joins,
      loopingGraph]⟩
  · intro c hc
    have hall : ∀ x ∈ c, x = "again" := by
      intro x hx
      have hway := Cycles.exists_isSimpleCycle_iff.mp ⟨c, hc, hx⟩
      obtain ⟨_, ⟨e, he, hsrc, -⟩, -⟩ := TransGen.head'_iff.mp hway
      obtain ⟨_, -, ⟨e', he', -, hdst⟩⟩ := TransGen.tail'_iff.mp hway
      simp only [loopingGraph, List.mem_cons, List.not_mem_nil, or_false] at he he'
      rcases he with rfl | rfl | rfl
      · rcases he' with rfl | rfl | rfl
        · exact hdst.symm
        · exact hdst.symm
        · exact absurd (hsrc.trans hdst.symm) (by decide)
      · exact hsrc.symm
      · exact hsrc.symm
    obtain ⟨a, b, l, rfl, hpath, -⟩ := hc
    obtain rfl := hall a List.mem_cons_self
    have hnil : l = [] := by
      refine List.eq_nil_iff_forall_not_mem.mpr fun x hx => ?_
      rw [hall x (List.mem_cons_of_mem _ hx)] at hx
      exact (List.nodup_cons.mp hpath.nodup).1 hx
    exact ⟨["again"], List.mem_singleton_self _, hnil ▸ List.IsRotated.refl _⟩

theorem cycle_tests_agree_looping : compose 4 looping = .ok (some loopingGraph) ∧
    ∃ b, looping.inCycle "again" = .ok b ∧ (b = true ↔ TransGen looping.Leads "again" "again") ∧
      (b = true ↔ loopingGraph.cyclesOf (fun _ => [["again"]]) "again" ≠ []) ∧
      b = loopingGraph.inCycle "again" := by
  have hcomposed : compose 4 looping = .ok (some loopingGraph) := rfl
  refine ⟨hcomposed, cycle_tests_agree (fun _ => [["again"]]) hcomposed enumerates_loopingGraph ?_⟩
  refine ⟨"start", by decide, .single (leads_iff.mpr ?_)⟩
  exact ⟨_, rfl, ⟨none, [], ["again"]⟩, List.mem_cons_self, List.mem_cons_self⟩

end WorkflowSpec

end Orquesta
end IntegratedCLI
