import Mathlib.Algebra.GroupWithZero.Nat
import Mathlib.Algebra.Order.BigOperators.Group.List
import Mathlib.Algebra.Order.Group.Nat
import IntegratedCLI.Lib.Cycles
import IntegratedCLI.Orquesta.Composed

/-!
# Reachable tasks, and tasks on a cycle

A transition leads from a task to each name under its `do` (`Leads`), and no transition
leads from an engine command, which is what a task under the name of one is.  `FromStart`
are the tasks that are reachable from those nothing leads to, and in a specification that is
`Defined` each of them is a task or an engine command.

`inCycle` looks for a way from a task back to itself.  `inCycle_spec` says that its search
ends, that it raises nothing where all tasks on the way are defined, and what it finds.
-/

namespace IntegratedCLI
namespace Orquesta

open Fallible Relation

namespace WorkflowSpec

/-- A transition leads from `t` to `n`. -/
def Leads (spec : WorkflowSpec) (t n : String) : Prop :=
  ∃ ts, spec.getTask t = .ok ts ∧ ∃ x ∈ nextTasksOf ts, x.name = n

/-- The task is one that the workflow starts with, or reachable from one. -/
def FromStart (spec : WorkflowSpec) (t : String) : Prop :=
  ∃ s ∈ spec.getStartTasks, ReflTransGen spec.Leads s t

/-- Every name that is reachable is that of a task or an engine command. -/
def Defined (spec : WorkflowSpec) : Prop := ∀ t, spec.FromStart t → spec.hasTask t = true

variable {spec : WorkflowSpec} {t u n : String} {ts : TaskSpec}

/-! ## Tasks and their transitions -/

theorem hasTask_iff : spec.hasTask t = true ↔ ∃ ts, spec.getTask t = .ok ts := by
  rw [hasTask, getTask]
  cases isReserved t with
  | true => simp [pure, Except.pure]
  | false =>
    cases spec.tasks.lookup t <;>
      simp [pure, Except.pure, throw, throwThe, MonadExceptOf.throw]

theorem mem_nextTasksOf_iff {x : NextTask} : x ∈ nextTasksOf ts ↔
    ∃ tr, ts.next[x.ref]? = some tr ∧ x.name ∈ tr.doTasks ∧ x.condition = tr.when := by
  refine ⟨mem_nextTasksOf, ?_⟩
  rintro ⟨tr, htr, hname, hcond⟩
  rw [nextTasksOf, List.mem_insertionSort, List.mem_flatMap]
  exact ⟨(tr, x.ref), List.mem_zipIdx_iff_getElem?.mpr htr, List.mem_map.mpr
    ⟨x.name, hname, by rw [← hcond]⟩⟩

theorem leads_iff : spec.Leads t n ↔
    ∃ ts, spec.getTask t = .ok ts ∧ ∃ tr ∈ ts.next, n ∈ tr.doTasks := by
  constructor
  · rintro ⟨ts, hts, x, hx, rfl⟩
    obtain ⟨tr, htr, hname, -⟩ := mem_nextTasksOf hx
    exact ⟨ts, hts, tr, List.mem_of_getElem? htr, hname⟩
  · rintro ⟨ts, hts, tr, htr, hname⟩
    obtain ⟨i, hi⟩ := List.mem_iff_getElem?.mp htr
    exact ⟨ts, hts, ⟨n, tr.when, i⟩, mem_nextTasksOf_iff.mpr ⟨tr, hi, hname, rfl⟩, rfl⟩

/-- No transition leads from an engine command. -/
theorem not_reserved_of_leads (h : spec.Leads t n) : isReserved t = false := by
  obtain ⟨ts, hts, x, hx, -⟩ := h
  by_contra hr
  rw [Bool.not_eq_false] at hr
  rw [getTask_reserved hr] at hts
  cases hts
  exact List.not_mem_nil hx

theorem lookup_of_getTask (hr : isReserved t = false) (hts : spec.getTask t = .ok ts) :
    spec.tasks.lookup t = some ts := by
  rw [getTask, hr] at hts
  cases hl : spec.tasks.lookup t with
  | none =>
    simp only [hl] at hts
    cases hts
  | some ts' =>
    simp only [hl] at hts
    cases hts
    rfl

theorem getNextTasks_eq (hts : spec.getTask t = .ok ts) :
    spec.getNextTasks t = .ok (nextTasksOf ts) := by
  rw [getNextTasks, hts]
  rfl

theorem leads_iff_mem (hts : spec.getTask t = .ok ts) :
    spec.Leads t n ↔ n ∈ (nextTasksOf ts).map NextTask.name := by
  rw [List.mem_map]
  constructor
  · rintro ⟨ts', hts', h⟩
    rw [hts] at hts'
    cases hts'
    exact h
  · exact fun h => ⟨ts, hts, h⟩

/-- Nothing leads to a task that the workflow starts with. -/
theorem not_leads_start {s : String} (hs : s ∈ spec.getStartTasks) : ¬ spec.Leads t s := by
  intro h
  have hr := not_reserved_of_leads h
  obtain ⟨ts, hts, x, hx, hname⟩ := h
  rw [getStartTasks, List.mem_insertionSort, List.mem_filter, List.isEmpty_iff] at hs
  have hprev : t ∈ spec.getPrevTasks s := by
    rw [getPrevTasks, List.mem_flatMap]
    refine ⟨(t, ts), Dict.mem_of_lookup (lookup_of_getTask hr hts), List.mem_map.mpr ⟨x, ?_, rfl⟩⟩
    simp only [hr]
    exact List.mem_filter.mpr ⟨hx, decide_eq_true hname⟩
  rw [hs.2] at hprev
  exact List.not_mem_nil hprev

theorem hasTask_start {s : String} (hs : s ∈ spec.getStartTasks) : spec.hasTask s = true := by
  rw [getStartTasks, List.mem_insertionSort, List.mem_filter] at hs
  obtain ⟨e, he, rfl⟩ := List.mem_map.mp hs.1
  rw [hasTask, Bool.or_eq_true, List.lookup_isSome_iff]
  exact .inr ⟨e, he, beq_self_eq_true e.1⟩

theorem fromStart_start {s : String} (hs : s ∈ spec.getStartTasks) : spec.FromStart s :=
  ⟨s, hs, .refl⟩

theorem FromStart.next (h : spec.FromStart t) (hn : spec.Leads t n) : spec.FromStart n := by
  obtain ⟨s, hs, hreach⟩ := h
  exact ⟨s, hs, hreach.tail hn⟩

theorem FromStart.trans (h : spec.FromStart t) (hn : TransGen spec.Leads t n) :
    spec.FromStart n := by
  induction hn with
  | single h' => exact h.next h'
  | tail _ h' ih => exact ih.next h'

/-! ## The search for a cycle -/

/-- How many transitions the tasks have that were not traversed. -/
def pending (spec : WorkflowSpec) (traversed : List String) : ℕ :=
  (spec.tasks.map fun e => if e.1 ∈ traversed then 0 else (nextTasksOf e.2).length).sum

/-- Traversing a task takes its transitions off those that are pending. -/
theorem pending_traverse {traversed : List String} (hu : u ∉ traversed)
    (hts : spec.getTask u = .ok ts) :
    (nextTasksOf ts).length + spec.pending (traversed ++ [u]) ≤ spec.pending traversed := by
  have hone : ∀ e : String × TaskSpec,
      (if e.1 ∈ traversed ++ [u] then 0 else (nextTasksOf e.2).length)
        ≤ if e.1 ∈ traversed then 0 else (nextTasksOf e.2).length := by
    intro e
    by_cases he : e.1 ∈ traversed ++ [u]
    · rw [if_pos he]
      exact Nat.zero_le _
    · rw [if_neg he, if_neg fun h => he (List.mem_append_left _ h)]
  have hsum : ∀ es : List (String × TaskSpec),
      (es.map fun e => if e.1 ∈ traversed ++ [u] then 0 else (nextTasksOf e.2).length).sum
        ≤ (es.map fun e => if e.1 ∈ traversed then 0 else (nextTasksOf e.2).length).sum :=
    fun es => List.sum_le_sum fun e _ => hone e
  by_cases hr : isReserved u = true
  · rw [getTask_reserved hr] at hts
    cases hts
    rw [nextTasksOf_empty, List.length_nil, Nat.zero_add]
    exact hsum spec.tasks
  · have hmem := Dict.mem_of_lookup (lookup_of_getTask (by simpa using hr) hts)
    obtain ⟨before, after, hsplit⟩ := List.append_of_mem hmem
    rw [pending, pending, hsplit]
    simp only [List.map_append, List.map_cons, List.sum_append, List.sum_cons]
    rw [if_pos (by simp), if_neg hu]
    have hbefore := hsum before
    have hafter := hsum after
    omega

theorem pending_nil : spec.pending [] = spec.size := by
  rw [pending, size]
  exact congrArg List.sum (List.map_congr_left fun e _ => if_neg List.not_mem_nil)

/-- When nothing is left to visit there is no way back to a task that was not traversed. -/
theorem not_reaches_of_traversed {traversed : List String} (ht : t ∉ traversed)
    (hfirst : ∀ x, spec.Leads t x → x ∈ traversed ∨ x ∈ [])
    (hclosed : ∀ y ∈ traversed, ∀ x, spec.Leads y x → x ∈ traversed ∨ x ∈ []) :
    ¬ TransGen spec.Leads t t := by
  intro h
  refine ht (Cycles.mem_of_closed (s := {x | x ∈ traversed}) (fun x hx => ?_)
    (fun y hy x hx => ?_) h)
  · exact (hfirst x hx).resolve_right List.not_mem_nil
  · exact (hclosed y hy x hx).resolve_right List.not_mem_nil

/-- The search ends, and it finds the task if there is a way back to it. -/
theorem searchCycle_spec (hdef : ∀ x, TransGen spec.Leads t x → spec.hasTask x = true) {fuel : ℕ}
    {queue traversed : List String} (hfuel : queue.length + spec.pending traversed ≤ fuel)
    (hqueue : ∀ x ∈ queue, TransGen spec.Leads t x) (ht : t ∉ traversed)
    (hfirst : ∀ x, spec.Leads t x → x ∈ traversed ∨ x ∈ queue)
    (hclosed : ∀ y ∈ traversed, ∀ x, spec.Leads y x → x ∈ traversed ∨ x ∈ queue) :
    ∃ b, spec.searchCycle t fuel queue traversed = .ok b
      ∧ (b = true ↔ TransGen spec.Leads t t) := by
  induction fuel generalizing queue traversed with
  | zero =>
    obtain rfl : queue = [] := List.length_eq_zero_iff.mp (by omega)
    exact ⟨false, rfl, iff_of_false Bool.false_ne_true
      (not_reaches_of_traversed ht hfirst hclosed)⟩
  | succ fuel ih =>
    cases queue with
    | nil =>
      exact ⟨false, rfl, iff_of_false Bool.false_ne_true
        (not_reaches_of_traversed ht hfirst hclosed)⟩
    | cons x queue =>
      have hx := hqueue x List.mem_cons_self
      have hrest := fun y hy => hqueue y (List.mem_cons_of_mem x hy)
      rw [List.length_cons] at hfuel
      by_cases hxt : x = t
      · subst hxt
        exact ⟨true, by simp only [searchCycle]; rfl, iff_of_true rfl hx⟩
      by_cases htrav : x ∈ traversed
      · have hmove : ∀ y, y ∈ traversed ∨ y ∈ x :: queue → y ∈ traversed ∨ y ∈ queue := by
          intro y hy
          rcases hy with hy | hy
          · exact .inl hy
          · rcases List.mem_cons.mp hy with rfl | hy
            · exact .inl htrav
            · exact .inr hy
        simp only [searchCycle, if_neg hxt, if_pos htrav]
        exact ih (by omega) hrest ht (fun y hy => hmove y (hfirst y hy))
          (fun z hz y hy => hmove y (hclosed z hz y hy))
      · obtain ⟨ts, hts⟩ := hasTask_iff.mp (hdef x hx)
        have hpend := pending_traverse htrav hts
        have hmove : ∀ y, y ∈ traversed ∨ y ∈ x :: queue → y ∈ traversed ++ [x] ∨
            y ∈ queue ++ (nextTasksOf ts).map NextTask.name := by
          intro y hy
          rcases hy with hy | hy
          · exact .inl (List.mem_append_left _ hy)
          · rcases List.mem_cons.mp hy with rfl | hy
            · exact .inl (List.mem_append_right _ List.mem_cons_self)
            · exact .inr (List.mem_append_left _ hy)
        simp only [searchCycle, if_neg hxt, if_neg htrav, getNextTasks_eq hts, bind_ok]
        refine ih ?_ ?_ ?_ (fun y hy => hmove y (hfirst y hy)) ?_
        · rw [List.length_append, List.length_map]
          omega
        · intro y hy
          rcases List.mem_append.mp hy with hy | hy
          · exact hrest y hy
          · exact hx.tail ((leads_iff_mem hts).mpr hy)
        · intro h
          rcases List.mem_append.mp h with h | h
          · exact ht h
          · exact hxt (List.mem_singleton.mp h).symm
        · intro z hz y hy
          rcases List.mem_append.mp hz with hz | hz
          · exact hmove y (hclosed z hz y hy)
          · obtain rfl := List.mem_singleton.mp hz
            exact .inr (List.mem_append_right _ ((leads_iff_mem hts).mp hy))

/-- **Whether a task is on a cycle** is found out, if all tasks on the way are defined. -/
theorem inCycle_spec (ht : spec.hasTask t = true)
    (hdef : ∀ x, TransGen spec.Leads t x → spec.hasTask x = true) :
    ∃ b, spec.inCycle t = .ok b ∧ (b = true ↔ TransGen spec.Leads t t) := by
  obtain ⟨ts, hts⟩ := hasTask_iff.mp ht
  have hsize : (nextTasksOf ts).length ≤ spec.size := by
    have := pending_traverse List.not_mem_nil hts
    rw [pending_nil] at this
    omega
  rw [inCycle, getNextTasks_eq hts]
  refine searchCycle_spec hdef ?_ (fun x hx => .single ((leads_iff_mem hts).mpr hx))
    List.not_mem_nil (fun x hx => .inr ((leads_iff_mem hts).mp hx)) (fun y hy => nomatch hy)
  rw [List.length_map, pending_nil]
  omega

end WorkflowSpec

end Orquesta
end IntegratedCLI
