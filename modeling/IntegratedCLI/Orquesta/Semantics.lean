import IntegratedCLI.Orquesta.Inspection

/-!
# What the inspection of the semantics accepts

`inspect_semantics` reports tasks under reserved names, that there is nothing to start with, names
that are not defined, joins that are ambiguous and items without an action.  The joins are the
hard part: `detect_unreachable_tasks` follows all transitions from the start tasks with the list
of the splits that were passed, and comes to a task again as long as it brings new splits along.

`loop_ends` says that this ends, for any cycles, because a task on a cycle is only queued until it
is staged.  `known_exact` says what is known of a task in the end if there are no cycles: its
splits are those that lead to it, and its inbound tasks all that do.  `inspectSemantics_iff` says
which specifications are accepted.

A transition is known to the traversal by its two names with `_` between them, so that two
transitions may be taken for one.  `inspectSemantics_sameWay` is a join that is not reported for
that reason.
-/

namespace IntegratedCLI
namespace Orquesta

open Fallible Relation

/-! ## The traversal -/

namespace Staging

/-- What is known of a task that was visited.  The lists stand for sets. -/
structure StagedTask where
  paths : SpecPaths
  join : Bool
  splits : List String
  prev : List String

/-- A task to be visited, the task that it comes from, and the splits on the way. -/
structure QueuedTask where
  prev : Option String
  name : String
  splits : List String

structure Traversal where
  queue : List QueuedTask
  staging : List (String × StagedTask)
  trackSplits : List (String × List String)

def union (xs ys : List String) : List String := xs ++ ys.filter (· ∉ xs)

/-- The paths of a task. -/
def taskPaths (parent : SpecPaths) (t : String) : SpecPaths :=
  ⟨parent.specPath ++ "." ++ t, parent.schemaPath ++ ".patternProperties.^\\w+$"⟩

/-- How a transition is known. -/
def splitId (t n : String) : String := t ++ "_" ++ n

/-- Stage the task, or add to what is known of it. -/
def stage (parent : SpecPaths) (s : Traversal) (prev : Option String) (t : String) (join : Bool)
    (splits : List String) : Traversal :=
  let known := (s.staging.lookup t).getD ⟨taskPaths parent t, join, [], []⟩
  { s with
    staging := Dict.put s.staging t
      { known with splits := union known.splits splits, prev := union known.prev prev.toList } }

/-- Queue the next task, unless the splits were passed on to it before. -/
def enqueue (s : Traversal) (t n : String) (splits : List String) : Traversal :=
  let existing := (s.trackSplits.lookup (splitId t n)).getD []
  if existing ≠ [] ∧ ∀ x ∈ splits, x ∈ existing then s
  else
    { s with
      queue := s.queue ++ [⟨some t, n, splits⟩]
      trackSplits := Dict.put s.trackSplits (splitId t n) (union existing splits) }

variable (spec : WorkflowSpec) (parent : SpecPaths)

/-- Whether the task is to be queued: it is not staged, or on no cycle. -/
def queues (s : Traversal) (n : String) : Except PyError Bool :=
  if (s.staging.lookup n).isSome then (!·) <$> spec.inCycle n else pure true

def addNext (t : String) (splits : List String) (s : Traversal) (n : WorkflowSpec.NextTask) :
    Except PyError Traversal := do
  if ← queues spec s n.name then return enqueue s t n.name splits else return s

/-- One task taken off the queue.  A task that is not defined is left aside. -/
def visit (s : Traversal) (q : QueuedTask) : Except PyError Traversal :=
  if (spec.tasks.lookup q.name).isSome then do
    let splits := if ← Composition.splitsAt spec q.name then q.splits ++ [q.name] else q.splits
    let join ← spec.isJoinTask q.name
    let next ← spec.getNextTasks q.name
    next.foldlM (addNext spec q.name splits) (stage parent s q.prev q.name join splits)
  else return s

def loop : ℕ → Traversal → Except PyError (Option Traversal)
  | 0, s => return if s.queue.isEmpty then some s else none
  | n + 1, s =>
    match s.queue with
    | [] => return some s
    | q :: queue => do loop n (← visit spec parent { s with queue := queue } q)

/-- The two sets are the same. -/
def sameSet (xs ys : List String) : Bool := xs.all (· ∈ ys) && ys.all (· ∈ xs)

/-- Whether the splits of the task are not those of one of the inbound tasks. -/
def isUnreachable (staging : List (String × StagedTask)) (splits : List String) :
    List String → Except PyError Bool
  | [] => return false
  | p :: prev =>
    match staging.lookup p with
    | none => throw (.keyError p)
    | some known =>
      if sameSet splits known.splits then isUnreachable staging splits prev else return true

def unreachableJoin (t : String) (paths : SpecPaths) : InspectionEntry :=
  ⟨"The join task \"" ++ t ++ "\" is unreachable. A join task is determined to be " ++
      "unreachable if there are nested forks from multi-referenced tasks " ++
      "that join on the said task. This is ambiguous to the workflow engine " ++
      "because it does not know at which level should the join occurs.",
    paths.specPath, paths.schemaPath⟩

def checkJoin (staging : List (String × StagedTask)) (result : List InspectionEntry)
    (e : String × StagedTask) : Except PyError (List InspectionEntry) := do
  if e.2.join then
    if ← isUnreachable staging e.2.splits e.2.prev then
      return result ++ [unreachableJoin e.1 e.2.paths]
    else return result
  else return result

end Staging

namespace WorkflowSpec

variable (spec : WorkflowSpec) (parent : SpecPaths)

/-- The joins that are ambiguous, if it takes at most `fuel` visits to find them. -/
def detectUnreachableTasks (fuel : ℕ) : Except PyError (Option (List InspectionEntry)) := do
  match ← Staging.loop spec parent fuel ⟨spec.getStartTasks.map fun t => ⟨none, t, []⟩, [], []⟩ with
  | none => return none
  | some s => return some (← s.staging.foldlM (Staging.checkJoin s.staging) [])

/-! ## The other checks -/

def detectReservedNames : List InspectionEntry :=
  (spec.tasks.filter fun e => isReserved e.1).map fun e =>
    ⟨"The task name \"" ++ e.1 ++ "\" is reserved with special function.",
      (Staging.taskPaths parent e.1).specPath, (Staging.taskPaths parent e.1).schemaPath⟩

def detectStartTasks : List InspectionEntry :=
  if spec.tasks ≠ [] ∧ spec.getStartTasks = [] then
    [⟨"Unable to identify any tasks to start the workflow. If the workflow has a " ++
        "loop, please add a task that serves as an entry point (or lead) into the loop.",
      parent.specPath, parent.schemaPath⟩]
  else []

def detectActionlessWithItems : List InspectionEntry :=
  (spec.tasks.filter fun e => e.2.hasItems && !e.2.action.truthy).map fun e =>
    ⟨"The action property is required for with items task.",
      (Staging.taskPaths parent e.1).specPath, (Staging.taskPaths parent e.1).schemaPath⟩

def inspectSemantics (fuel : ℕ) : Except PyError (Option (List InspectionEntry)) := do
  let undefined ← spec.detectUndefinedTasks parent
  match ← spec.detectUnreachableTasks parent fuel with
  | none => return none
  | some unreachable =>
    return some (spec.detectReservedNames parent ++ spec.detectStartTasks parent ++ undefined ++
      unreachable ++ spec.detectActionlessWithItems parent)

end WorkflowSpec

/-! ## Splits and joins -/

namespace WorkflowSpec

/-- More than one transition leads to the task, and it is no join. -/
def IsSplit (spec : WorkflowSpec) (t : String) : Prop :=
  ∃ ts, spec.getTask t = .ok ts ∧ ts.join = none ∧ 1 < (spec.getPrevTasks t).length

def IsJoin (spec : WorkflowSpec) (t : String) : Prop :=
  ∃ ts, spec.getTask t = .ok ts ∧ ts.join.isSome = true

/-- The task is in the mapping, and not only the name of an engine command. -/
def Own (spec : WorkflowSpec) (t : String) : Prop := (spec.tasks.lookup t).isSome = true

/-- The ways into `x` split there, and one of them leads on to `t`. -/
def SplitsOnto (spec : WorkflowSpec) (x t : String) : Prop :=
  spec.FromStart x ∧ spec.Own x ∧ spec.IsSplit x ∧ ¬ TransGen spec.Leads x x ∧
    ReflTransGen spec.Leads x t

/-- No two transitions are known by the same name. -/
def DistinctWays (spec : WorkflowSpec) : Prop :=
  ∀ p n p' n', spec.FromStart p → spec.Leads p n → spec.FromStart p' → spec.Leads p' n' →
    Staging.splitId p n = Staging.splitId p' n' → p = p' ∧ n = n'

/-- No task that is reachable is on a cycle. -/
def Acyclic (spec : WorkflowSpec) : Prop := ∀ t, spec.FromStart t → ¬ TransGen spec.Leads t t

variable {spec : WorkflowSpec} {t n x : String} {ts : TaskSpec}

theorem own_of_leads (h : spec.Leads t n) : spec.Own t := by
  have hr := not_reserved_of_leads h
  obtain ⟨ts, hts, -⟩ := h
  rw [Own, lookup_of_getTask hr hts]
  rfl

theorem own_start {s : String} (hs : s ∈ spec.getStartTasks) : spec.Own s := by
  rw [getStartTasks, List.mem_insertionSort, List.mem_filter] at hs
  obtain ⟨e, he, rfl⟩ := List.mem_map.mp hs.1
  rw [Own, List.lookup_isSome_iff]
  exact ⟨e, he, beq_self_eq_true e.1⟩

theorem own_of_isJoin (h : spec.IsJoin t) : spec.Own t := by
  obtain ⟨ts, hts, hjoin⟩ := h
  cases hr : isReserved t with
  | true =>
    rw [getTask_reserved hr] at hts
    cases hts
    cases hjoin
  | false =>
    rw [Own, lookup_of_getTask hr hts]
    rfl

theorem SplitsOnto.next (h : spec.SplitsOnto x t) (hn : spec.Leads t n) : spec.SplitsOnto x n :=
  ⟨h.1, h.2.1, h.2.2.1, h.2.2.2.1, h.2.2.2.2.tail hn⟩

end WorkflowSpec

namespace Staging

variable {spec : WorkflowSpec} {parent : SpecPaths} {s s' : Traversal} {q : QueuedTask}
  {t n p x : String} {splits : List String} {join : Bool} {m : StagedTask} {ts : TaskSpec}

theorem mem_union {xs ys : List String} : x ∈ union xs ys ↔ x ∈ xs ∨ x ∈ ys := by
  rw [union, List.mem_append, List.mem_filter, decide_eq_true_eq]
  tauto

theorem sameSet_iff {xs ys : List String} : sameSet xs ys = true ↔ ∀ x, x ∈ xs ↔ x ∈ ys := by
  rw [sameSet, Bool.and_eq_true, List.all_eq_true, List.all_eq_true]
  simp only [decide_eq_true_eq]
  exact ⟨fun h x => ⟨h.1 x, h.2 x⟩, fun h => ⟨fun x => (h x).mp, fun x => (h x).mpr⟩⟩

theorem splitsAt_spec (hdef : spec.Defined) (ht : spec.FromStart t) :
    ∃ b, Composition.splitsAt spec t = .ok b ∧
      (b = true ↔ spec.IsSplit t ∧ ¬ TransGen spec.Leads t t) := by
  obtain ⟨ts, hts⟩ := WorkflowSpec.hasTask_iff.mp (hdef t ht)
  obtain ⟨b, hb, hcycle⟩ := WorkflowSpec.inCycle_spec (hdef t ht) fun x hx => hdef x (ht.trans hx)
  have hsplit : spec.IsSplit t ↔ ts.join = none ∧ 1 < (spec.getPrevTasks t).length := by
    refine ⟨?_, fun h => ⟨ts, hts, h⟩⟩
    rintro ⟨ts', hts', h⟩
    rw [hts] at hts'
    cases hts'
    exact h
  rw [Composition.splitsAt, WorkflowSpec.isSplitTask, WorkflowSpec.isJoinTask, hts, hb, hsplit,
    ← hcycle]
  simp only [bind_ok, pure, Except.pure, Functor.map, Except.map]
  by_cases h : (!ts.join.isSome && decide (1 < (spec.getPrevTasks t).length)) = true
  · rw [if_pos h]
    rw [Bool.and_eq_true, Bool.not_eq_true', Option.isSome_eq_false_iff,
      Option.isNone_iff_eq_none, decide_eq_true_eq] at h
    exact ⟨!b, rfl, by simp [h]⟩
  · rw [if_neg h]
    refine ⟨false, rfl, iff_of_false Bool.false_ne_true fun hand => h ?_⟩
    rw [hand.1.1]
    simpa using hand.1.2

theorem queues_spec (s : Traversal) (hdef : spec.Defined) (ht : spec.FromStart n) :
    ∃ b, queues spec s n = .ok b ∧
      (b = true ↔ s.staging.lookup n = none ∨ ¬ TransGen spec.Leads n n) := by
  obtain ⟨b, hb, hcycle⟩ := WorkflowSpec.inCycle_spec (hdef n ht) fun x hx => hdef x (ht.trans hx)
  rw [queues, hb, ← hcycle]
  cases s.staging.lookup n with
  | none => exact ⟨true, rfl, by simp⟩
  | some m => exact ⟨!b, rfl, by simp⟩

/-! ## What is passed on -/

/-- What is passed on from `p` to `n`: it is in the queue, or known of `n`. -/
def Carried (s : Traversal) (p n : String) (P : List String → Prop) : Prop :=
  (∃ q ∈ s.queue, q.prev = some p ∧ q.name = n ∧ P q.splits) ∨
    ∃ m, s.staging.lookup n = some m ∧ p ∈ m.prev ∧ P m.splits

theorem staging_enqueue : (enqueue s t n splits).staging = s.staging := by
  rw [enqueue]
  split <;> rfl

theorem queue_enqueue : ∃ new, (enqueue s t n splits).queue = s.queue ++ new ∧
    ∀ q ∈ new, q = ⟨some t, n, splits⟩ := by
  rw [enqueue]
  split
  · exact ⟨[], (List.append_nil _).symm, by simp⟩
  · exact ⟨[⟨some t, n, splits⟩], rfl, by simp⟩

theorem Carried.grow {P : List String → Prop} (h : Carried s p n P)
    (hstaging : s'.staging = s.staging) {new : List QueuedTask} (hqueue : s'.queue = s.queue ++ new) :
    Carried s' p n P := by
  obtain ⟨q, hq, h⟩ | h := h
  · exact .inl ⟨q, hqueue ▸ List.mem_append_left _ hq, h⟩
  · exact .inr (hstaging ▸ h)

theorem Carried.enqueue {P : List String → Prop} {u v : String} (h : Carried s p n P) :
    Carried (enqueue s u v splits) p n P := by
  obtain ⟨new, hqueue, -⟩ := @queue_enqueue s u v splits
  exact h.grow staging_enqueue hqueue

theorem lookup_stage : (stage parent s q.prev t join splits).staging.lookup x =
    if x = t then
      some { (s.staging.lookup t).getD ⟨taskPaths parent t, join, [], []⟩ with
        splits := union ((s.staging.lookup t).getD ⟨taskPaths parent t, join, [], []⟩).splits splits
        prev := union ((s.staging.lookup t).getD ⟨taskPaths parent t, join, [], []⟩).prev
          q.prev.toList }
    else s.staging.lookup x := by
  rw [stage]
  exact Dict.lookup_put _ _ _ _

/-- What was in the queue is known of the task when it is visited. -/
theorem Carried.stage {P : List String → Prop} (hP : ∀ xs ys, (∀ x ∈ xs, x ∈ ys) → P xs → P ys)
    {queue : List QueuedTask} (hqueue : s.queue = q :: queue) (hsplits : ∀ x ∈ q.splits, x ∈ splits)
    (h : Carried s p n P) :
    Carried (stage parent { s with queue := queue } q.prev q.name join splits) p n P := by
  obtain ⟨q', hq', hprev, hname, h⟩ | ⟨m, hm, hprev, h⟩ := h
  · rw [hqueue, List.mem_cons] at hq'
    obtain rfl | hq' := hq'
    · refine .inr ⟨_, by rw [lookup_stage, if_pos hname.symm], ?_, hP _ _ (fun x hx => ?_) h⟩
      · rw [mem_union, hprev]
        exact .inr List.mem_cons_self
      · exact mem_union.mpr (.inr (hsplits x hx))
    · exact .inl ⟨q', hq', hprev, hname, h⟩
  · by_cases hn : n = q.name
    · subst hn
      refine .inr ⟨_, by rw [lookup_stage, if_pos rfl], ?_, hP _ _ (fun x hx => ?_) h⟩
      · exact mem_union.mpr (.inl (by simpa [hm] using hprev))
      · exact mem_union.mpr (.inl (by simpa [hm] using hx))
    · exact .inr ⟨m, by rw [lookup_stage, if_neg hn]; exact hm, hprev, h⟩

/-! ## A visit -/

theorem addNext_ok (s : Traversal) (splits : List String) (t : String) {n : WorkflowSpec.NextTask}
    (hdef : spec.Defined) (hn : spec.FromStart n.name) :
    ∃ b, addNext spec t splits s n = .ok (if b = true then enqueue s t n.name splits else s) ∧
      (b = true ↔ s.staging.lookup n.name = none ∨ ¬ TransGen spec.Leads n.name n.name) := by
  obtain ⟨b, hb, hiff⟩ := queues_spec s hdef hn
  refine ⟨b, ?_, hiff⟩
  rw [addNext, hb, bind_ok]
  cases b <;> rfl

/-- What the next tasks of `t` add to the traversal `s`: entries of those that are not staged or
on no cycle. -/
def Queued (spec : WorkflowSpec) (t : String) (splits : List String) (s s' : Traversal) : Prop :=
  s'.staging = s.staging ∧ ∃ new, s'.queue = s.queue ++ new ∧
    ∀ q ∈ new, q.prev = some t ∧ q.splits = splits ∧ spec.Leads t q.name ∧
      (s.staging.lookup q.name = none ∨ ¬ TransGen spec.Leads q.name q.name)

theorem Queued.enqueue (h : Queued spec t splits s s') (hn : spec.Leads t n)
    (hqueues : s'.staging.lookup n = none ∨ ¬ TransGen spec.Leads n n) :
    Queued spec t splits s (enqueue s' t n splits) := by
  obtain ⟨hstaging, new, hqueue, hnew⟩ := h
  obtain ⟨new', hqueue', hnew'⟩ := @queue_enqueue s' t n splits
  refine ⟨staging_enqueue.trans hstaging, new ++ new', ?_, fun q hq => ?_⟩
  · rw [hqueue', hqueue, List.append_assoc]
  · rw [List.mem_append] at hq
    obtain hq | hq := hq
    · exact hnew q hq
    · rw [hnew' q hq]
      exact ⟨rfl, rfl, hn, hstaging ▸ hqueues⟩

/-- The splits that a visit passes on. -/
def Passes (spec : WorkflowSpec) (q : QueuedTask) (splits : List String) : Prop :=
  ∀ x, x ∈ splits ↔
    x ∈ q.splits ∨ (x = q.name ∧ spec.IsSplit q.name ∧ ¬ TransGen spec.Leads q.name q.name)

/-- A task is visited without an error. -/
theorem visit_ok (hdef : spec.Defined) (hq : spec.FromStart q.name) (hown : spec.Own q.name)
    (s : Traversal) :
    ∃ ts splits s', spec.getTask q.name = .ok ts ∧ Passes spec q splits ∧
      visit spec parent s q = .ok s' ∧
      (WorkflowSpec.nextTasksOf ts).foldlM (addNext spec q.name splits)
        (stage parent s q.prev q.name ts.join.isSome splits) = .ok s' ∧
      Queued spec q.name splits (stage parent s q.prev q.name ts.join.isSome splits) s' := by
  obtain ⟨ts, hts⟩ := WorkflowSpec.hasTask_iff.mp (hdef q.name hq)
  obtain ⟨b, hb, hsplit⟩ := splitsAt_spec hdef hq
  set splits := if b = true then q.splits ++ [q.name] else q.splits with hsplits
  have hpasses : Passes spec q splits := by
    intro x
    rw [hsplits, ← hsplit]
    cases b <;> simp
  obtain ⟨s', hfold, hqueued⟩ := foldlM_ok
    (f := addNext spec q.name splits)
    (P := Queued spec q.name splits (stage parent s q.prev q.name ts.join.isSome splits))
    (fun n (hn : n ∈ WorkflowSpec.nextTasksOf ts) s₁ hs₁ => by
      have hleads : spec.Leads q.name n.name := ⟨ts, hts, n, hn, rfl⟩
      obtain ⟨c, hc, hiff⟩ := addNext_ok s₁ splits q.name hdef (hq.next hleads)
      refine ⟨_, hc, ?_⟩
      split
      · rename_i hcond
        exact hs₁.enqueue hleads (hiff.mp hcond)
      · exact hs₁)
    ⟨rfl, [], (List.append_nil _).symm, by simp⟩
  refine ⟨ts, splits, s', hts, hpasses, ?_, hfold, hqueued⟩
  have hself : (spec.tasks.lookup q.name).isSome = true := hown
  rw [visit, if_pos hself, hb, bind_ok, WorkflowSpec.isJoinTask, hts,
    WorkflowSpec.getNextTasks_eq hts]
  exact hfold

theorem visit_of_not_own (hown : ¬ spec.Own q.name) (s : Traversal) :
    visit spec parent s q = .ok s := if_neg hown

/-! ## The traversal ends -/

/-- The number of tasks that are not staged. -/
def unstaged (spec : WorkflowSpec) (s : Traversal) : ℕ :=
  ((spec.tasks.map Prod.fst).filter fun k => (s.staging.lookup k).isNone).length

open Classical in
/-- How many tasks can still be queued behind one. -/
noncomputable def height (spec : WorkflowSpec) (s : Traversal) (q : QueuedTask) : ℕ :=
  (spec.names.filter fun u => TransGen spec.Leads q.name u ∧ u ≠ q.name ∧
    (s.staging.lookup u = none ∨ ¬ TransGen spec.Leads u u)).card

theorem height_congr (h : ∀ u, s'.staging.lookup u = none ↔ s.staging.lookup u = none)
    (q : QueuedTask) : height spec s' q = height spec s q := by
  classical
  rw [height, height]
  refine congrArg Finset.card (Finset.filter_congr fun u _ => ?_)
  rw [h]

theorem height_lt {e : QueuedTask} (hstaged : s.staging.lookup q.name ≠ none)
    (he : spec.Leads q.name e.name)
    (hqueues : s.staging.lookup e.name = none ∨ ¬ TransGen spec.Leads e.name e.name) :
    height spec s e < height spec s q := by
  classical
  have hne : ∀ u, (s.staging.lookup u = none ∨ ¬ TransGen spec.Leads u u) →
      TransGen spec.Leads q.name u → u ≠ q.name := by
    rintro u hu hreach rfl
    exact hu.elim hstaged fun h => h hreach
  rw [height, height]
  refine Finset.card_lt_card ((Finset.ssubset_iff_of_subset fun u hu => ?_).mpr ⟨e.name, ?_, ?_⟩)
  · rw [Finset.mem_filter] at hu ⊢
    obtain ⟨hname, hreach, -, hu⟩ := hu
    exact ⟨hname, .head he hreach, hne u hu (.head he hreach), hu⟩
  · rw [Finset.mem_filter]
    exact ⟨WorkflowSpec.mem_names he, .single he, hne e.name hqueues (.single he), hqueues⟩
  · rw [Finset.mem_filter]
    exact fun hu => hu.2.2.1 rfl

theorem unstaged_lt (hstaged : s.staging.lookup t = none) (hown : spec.Own t)
    (hstage : ∀ u, s'.staging.lookup u = none ↔ u ≠ t ∧ s.staging.lookup u = none) :
    unstaged spec s' < unstaged spec s := by
  rw [WorkflowSpec.Own, List.lookup_isSome_iff] at hown
  obtain ⟨e, he, hname⟩ := hown
  have hkey : t ∈ spec.tasks.map Prod.fst :=
    List.mem_map.mpr ⟨e, he, (beq_iff_eq.mp hname).symm⟩
  have hfilter : (spec.tasks.map Prod.fst).filter (fun k => (s'.staging.lookup k).isNone)
      = ((spec.tasks.map Prod.fst).filter fun k => (s.staging.lookup k).isNone).filter (· ≠ t) := by
    rw [List.filter_filter]
    refine List.filter_congr fun k _ => ?_
    rw [Bool.eq_iff_iff, Option.isNone_iff_eq_none, hstage k]
    simp
  rw [unstaged, unstaged, hfilter]
  refine List.length_filter_lt_length_iff_exists.mpr ⟨t, List.mem_filter.mpr ⟨hkey, ?_⟩, by simp⟩
  rw [hstaged]
  rfl

/-- Everything in the queue is reachable. -/
def Reachable (spec : WorkflowSpec) (s : Traversal) : Prop := ∀ q ∈ s.queue, spec.FromStart q.name

theorem visit_lowers {queue : List QueuedTask} (hdef : spec.Defined) (hs : Reachable spec s)
    (hqueue : s.queue = q :: queue) :
    ∃ s', visit spec parent { s with queue := queue } q = .ok s' ∧ Reachable spec s' ∧
      Worklist.Lowers Traversal.queue (height spec) (unstaged spec) s s' := by
  have hq : spec.FromStart q.name := hs q (hqueue ▸ List.mem_cons_self)
  have hrest : ∀ e ∈ queue, spec.FromStart e.name := fun e he =>
    hs e (hqueue ▸ List.mem_cons_of_mem _ he)
  by_cases hown : spec.Own q.name
  · obtain ⟨ts, splits, s', -, -, hvisit, -, hstaging, new, hnew, hentries⟩ :=
      @visit_ok spec parent q hdef hq hown { s with queue := queue }
    change s'.queue = queue ++ new at hnew
    refine ⟨s', hvisit, fun e he => ?_, ?_⟩
    · rw [hnew, List.mem_append] at he
      exact he.elim (hrest e) fun he => hq.next (hentries e he).2.2.1
    have hlookup : ∀ u, s'.staging.lookup u = none ↔ u ≠ q.name ∧ s.staging.lookup u = none := by
      intro u
      rw [hstaging, lookup_stage]
      by_cases hu : u = q.name
      · rw [if_pos hu]
        exact iff_of_false (by simp) fun h => h.1 hu
      · rw [if_neg hu]
        exact (and_iff_right hu).symm
    by_cases hstaged : s.staging.lookup q.name = none
    · exact .inl (unstaged_lt hstaged hown hlookup)
    · -- nothing is staged that was not
      have hsame : ∀ u, s'.staging.lookup u = none ↔ s.staging.lookup u = none := by
        intro u
        rw [hlookup, and_iff_right_iff_imp]
        rintro h rfl
        exact hstaged h
      have hcount : unstaged spec s' = unstaged spec s := by
        refine congrArg List.length (List.filter_congr fun k _ => ?_)
        rw [Bool.eq_iff_iff, Option.isNone_iff_eq_none, Option.isNone_iff_eq_none, hsame]
      refine .inr ⟨hcount, q, queue, new, hqueue, hnew,
        fun e _ => height_congr hsame e, fun e he => ?_⟩
      obtain ⟨-, -, hleads, hqueues⟩ := hentries e he
      rw [← hstaging, hsame] at hqueues
      rw [height_congr hsame]
      exact height_lt hstaged hleads hqueues
  · refine ⟨_, visit_of_not_own hown _, hrest, .inr ⟨rfl, q, queue, [], hqueue, ?_⟩⟩
    exact ⟨(List.append_nil _).symm, fun _ _ => rfl, by simp⟩

/-- **The traversal ends**, whatever cycles there are. -/
theorem loop_ends (hdef : spec.Defined) (hs : Reachable spec s) :
    ∃ fuel s', loop spec parent fuel s = .ok (some s') := by
  induction s using (Worklist.wellFounded_lowers Traversal.queue (height spec)
    (unstaged spec)).induction with
  | _ s ih =>
    match hqueue : s.queue with
    | [] =>
      refine ⟨0, s, ?_⟩
      rw [loop, hqueue]
      rfl
    | q :: queue =>
      obtain ⟨s₁, hvisit, hs₁, hlowers⟩ := @visit_lowers spec parent s q queue hdef hs hqueue
      obtain ⟨fuel, s', hloop⟩ := ih s₁ hlowers hs₁
      refine ⟨fuel + 1, s', ?_⟩
      rw [loop, hqueue]
      dsimp only
      rw [hvisit, bind_ok, hloop]

/-- What every visit keeps holds in the end. -/
theorem loop_invariant {I : Traversal → Prop} (hI : ∀ s q queue s', I s → s.queue = q :: queue →
      visit spec parent { s with queue := queue } q = .ok s' → I s') {fuel : ℕ} (hs : I s)
    (h : loop spec parent fuel s = .ok (some s')) : I s' ∧ s'.queue = [] := by
  induction fuel generalizing s with
  | zero =>
    rw [loop, pure_eq_ok] at h
    split at h
    · rename_i hempty
      cases h
      exact ⟨hs, List.isEmpty_iff.mp hempty⟩
    · cases h
  | succ fuel ih =>
    rw [loop] at h
    split at h
    · rename_i hqueue
      cases h
      exact ⟨hs, hqueue⟩
    · rename_i q queue hqueue
      obtain ⟨s₁, hvisit, h⟩ := bind_eq_ok.mp h
      exact ih (hI s q queue s₁ hs hqueue hvisit) h

/-! ## What is known is so -/

/-- What is known of a task, and what is in the queue, is so. -/
structure Sound (spec : WorkflowSpec) (parent : SpecPaths) (s : Traversal) : Prop where
  queue : ∀ q ∈ s.queue, spec.FromStart q.name ∧
    (∀ p, q.prev = some p → spec.Leads p q.name ∧ (s.staging.lookup p).isSome = true) ∧
      ∀ x ∈ q.splits, spec.SplitsOnto x q.name
  staged : ∀ t m, s.staging.lookup t = some m → spec.FromStart t ∧ spec.Own t ∧
    m.paths = taskPaths parent t ∧ (m.join = true ↔ spec.IsJoin t) ∧
      (∀ x ∈ m.splits, spec.SplitsOnto x t) ∧
        ∀ p ∈ m.prev, spec.Leads p t ∧ (s.staging.lookup p).isSome = true
  distinct : (s.staging.map Prod.fst).Nodup

theorem isSome_stage (h : (s.staging.lookup x).isSome = true) :
    ((stage parent s q.prev t join splits).staging.lookup x).isSome = true := by
  rw [lookup_stage]
  split
  · rfl
  · exact h

theorem isJoin_iff (hts : spec.getTask t = .ok ts) : spec.IsJoin t ↔ ts.join.isSome = true := by
  refine ⟨?_, fun h => ⟨ts, hts, h⟩⟩
  rintro ⟨ts', hts', h⟩
  rw [hts] at hts'
  cases hts'
  exact h

theorem Passes.sound {spec : WorkflowSpec} {q : QueuedTask} {splits : List String}
    (h : Passes spec q splits) (hq : spec.FromStart q.name) (hown : spec.Own q.name)
    (hsplits : ∀ x ∈ q.splits, spec.SplitsOnto x q.name) :
    ∀ x ∈ splits, spec.SplitsOnto x q.name := by
  intro x hx
  obtain hx | ⟨rfl, hsplit, hcycle⟩ := (h x).mp hx
  · exact hsplits x hx
  · exact ⟨hq, hown, hsplit, hcycle, .refl⟩

theorem visit_sound {queue : List QueuedTask} (hdef : spec.Defined) (hs : Sound spec parent s)
    (hqueue : s.queue = q :: queue)
    (hvisit : visit spec parent { s with queue := queue } q = .ok s') : Sound spec parent s' := by
  obtain ⟨hq, hprev, hsplits⟩ := hs.queue q (hqueue ▸ List.mem_cons_self)
  have hrest := fun e he => hs.queue e (hqueue ▸ List.mem_cons_of_mem q he)
  by_cases hown : spec.Own q.name
  · obtain ⟨ts, splits, s₁, hts, hpasses, hvisit₁, -, hstaging, new, hnew, hentries⟩ :=
      @visit_ok spec parent q hdef hq hown { s with queue := queue }
    rw [hvisit] at hvisit₁
    cases hvisit₁
    have hpassed := hpasses.sound hq hown hsplits
    have hsome : ∀ p, (s.staging.lookup p).isSome = true →
        (s'.staging.lookup p).isSome = true := fun p hp => hstaging ▸ isSome_stage hp
    have hvisited : (s'.staging.lookup q.name).isSome = true := by
      rw [hstaging, lookup_stage, if_pos rfl]
      rfl
    refine ⟨fun e he => ?_, fun t m hm => ?_, ?_⟩
    · change s'.queue = queue ++ new at hnew
      rw [hnew, List.mem_append] at he
      obtain he | he := he
      · obtain ⟨h₁, h₂, h₃⟩ := hrest e he
        exact ⟨h₁, fun p hp => (h₂ p hp).imp_right (hsome p), h₃⟩
      · obtain ⟨hep, hes, hleads, -⟩ := hentries e he
        refine ⟨hq.next hleads, fun p hp => ?_, fun x hx => ?_⟩
        · rw [hep] at hp
          cases hp
          exact ⟨hleads, hvisited⟩
        · rw [hes] at hx
          exact (hpassed x hx).next hleads
    · rw [hstaging, lookup_stage] at hm
      by_cases ht : t = q.name
      · subst ht
        rw [if_pos rfl, Option.some_inj] at hm
        subst hm
        cases hold : s.staging.lookup q.name with
        | none =>
          refine ⟨hq, hown, rfl, (isJoin_iff hts).symm, fun x hx => ?_, fun p hp => ?_⟩
          · exact hpassed x (by simpa [mem_union] using hx)
          · have hp : q.prev = some p := by simpa [mem_union] using hp
            exact (hprev p hp).imp_right (hsome p)
        | some m =>
          obtain ⟨-, -, hpaths, hjoin, hmsplits, hmprev⟩ := hs.staged _ m hold
          refine ⟨hq, hown, hpaths, hjoin, fun x hx => ?_, fun p hp => ?_⟩
          · obtain hx | hx := mem_union.mp hx
            · exact hmsplits x hx
            · exact hpassed x hx
          · obtain hp | hp := mem_union.mp hp
            · exact (hmprev p hp).imp_right (hsome p)
            · exact (hprev p (Option.mem_toList.mp hp)).imp_right (hsome p)
      · rw [if_neg ht] at hm
        obtain ⟨h₁, h₂, h₃, h₄, h₅, h₆⟩ := hs.staged t m hm
        exact ⟨h₁, h₂, h₃, h₄, h₅, fun p hp => (h₆ p hp).imp_right (hsome p)⟩
    · rw [hstaging]
      exact Dict.nodup_put hs.distinct
  · rw [visit_of_not_own hown] at hvisit
    cases hvisit
    exact ⟨hrest, hs.staged, hs.distinct⟩

/-! ## All that is so is known -/

/-- The splits that a transition is known to have passed on were passed on. -/
def Tracked (spec : WorkflowSpec) (s : Traversal) : Prop :=
  ∀ p n, spec.FromStart p → spec.Leads p n → spec.Own n →
    ∀ x ∈ (s.trackSplits.lookup (splitId p n)).getD [], Carried s p n (x ∈ ·)

/-- What is in the queue is missing at most. -/
structure Complete (spec : WorkflowSpec) (s : Traversal) : Prop where
  starts : ∀ t ∈ spec.getStartTasks,
    (s.staging.lookup t).isSome = true ∨ ∃ q ∈ s.queue, q.name = t
  own : ∀ t m, s.staging.lookup t = some m → spec.IsSplit t → ¬ TransGen spec.Leads t t →
    t ∈ m.splits
  next : ∀ p m n, s.staging.lookup p = some m → spec.Leads p n → spec.Own n →
    ¬ TransGen spec.Leads n n →
      Carried s p n (fun _ => True) ∧ ∀ x ∈ m.splits, Carried s p n (x ∈ ·)
  tracked : Tracked spec s

/-- The splits are passed on, or were before. -/
theorem carried_enqueue (hs : Tracked spec s) (ht : spec.FromStart t) (hn : spec.Leads t n)
    (hown : spec.Own n) : Carried (enqueue s t n splits) t n (fun _ => True) ∧
      ∀ x ∈ splits, Carried (enqueue s t n splits) t n (x ∈ ·) := by
  by_cases hseen : (s.trackSplits.lookup (splitId t n)).getD [] ≠ [] ∧
      ∀ x ∈ splits, x ∈ (s.trackSplits.lookup (splitId t n)).getD []
  · have hpassed : ∀ x ∈ (s.trackSplits.lookup (splitId t n)).getD [],
        Carried (enqueue s t n splits) t n (x ∈ ·) := fun x hx => (hs t n ht hn hown x hx).enqueue
    refine ⟨?_, fun x hx => hpassed x (hseen.2 x hx)⟩
    obtain ⟨x, hx⟩ := List.exists_mem_of_ne_nil _ hseen.1
    obtain ⟨q, hq, h₁, h₂, -⟩ | ⟨m, hm, hp, -⟩ := hpassed x hx
    · exact .inl ⟨q, hq, h₁, h₂, trivial⟩
    · exact .inr ⟨m, hm, hp, trivial⟩
  · have hq : ⟨some t, n, splits⟩ ∈ (enqueue s t n splits).queue := by
      rw [enqueue, if_neg hseen]
      exact List.mem_append_right _ (List.mem_singleton.mpr rfl)
    exact ⟨.inl ⟨_, hq, rfl, rfl, trivial⟩, fun x hx => .inl ⟨_, hq, rfl, rfl, hx⟩⟩

theorem Tracked.enqueue (hdistinct : spec.DistinctWays) (hs : Tracked spec s)
    (ht : spec.FromStart t) (hn : spec.Leads t n) : Tracked spec (enqueue s t n splits) := by
  intro p n' hp hleads hown x hx
  have hold : x ∈ (s.trackSplits.lookup (splitId p n')).getD [] →
      Carried (Staging.enqueue s t n splits) p n' (x ∈ ·) :=
    fun hx => (hs p n' hp hleads hown x hx).enqueue
  by_cases hseen : (s.trackSplits.lookup (splitId t n)).getD [] ≠ [] ∧
      ∀ x ∈ splits, x ∈ (s.trackSplits.lookup (splitId t n)).getD []
  · refine hold ?_
    rw [Staging.enqueue, if_pos hseen] at hx
    exact hx
  · have htrack : (Staging.enqueue s t n splits).trackSplits =
        Dict.put s.trackSplits (splitId t n)
          (union ((s.trackSplits.lookup (splitId t n)).getD []) splits) := by
      rw [Staging.enqueue, if_neg hseen]
    rw [htrack, Dict.lookup_put] at hx
    by_cases hid : splitId p n' = splitId t n
    · -- one name, one transition
      obtain ⟨rfl, rfl⟩ := hdistinct p n' t n hp hleads ht hn hid
      rw [if_pos rfl, Option.getD_some, mem_union] at hx
      exact hx.elim hold fun hx => (carried_enqueue hs ht hn hown).2 x hx
    · rw [if_neg hid] at hx
      exact hold hx

theorem passes_fold (hdef : spec.Defined) (hdistinct : spec.DistinctWays) (ht : spec.FromStart t)
    {xs : List WorkflowSpec.NextTask} (hxs : ∀ n ∈ xs, spec.Leads t n.name) (hs : Tracked spec s)
    (h : xs.foldlM (addNext spec t splits) s = .ok s') :
    Tracked spec s' ∧ s'.staging = s.staging ∧ (∃ new, s'.queue = s.queue ++ new) ∧
      ∀ n ∈ xs, spec.Own n.name → ¬ TransGen spec.Leads n.name n.name →
        Carried s' t n.name (fun _ => True) ∧ ∀ x ∈ splits, Carried s' t n.name (x ∈ ·) := by
  induction xs generalizing s with
  | nil =>
    cases h
    exact ⟨hs, rfl, ⟨[], (List.append_nil _).symm⟩, by simp⟩
  | cons n xs ih =>
    have hn : spec.Leads t n.name := hxs n List.mem_cons_self
    rw [List.foldlM_cons, bind_eq_ok] at h
    obtain ⟨s₁, hadd, h⟩ := h
    obtain ⟨b, hb, hiff⟩ := addNext_ok s splits t hdef (ht.next hn)
    rw [hadd] at hb
    cases hb
    have hgrown : (if b = true then enqueue s t n.name splits else s).staging = s.staging ∧
        ∃ new, (if b = true then enqueue s t n.name splits else s).queue = s.queue ++ new := by
      split
      · obtain ⟨new, hqueue, -⟩ := @queue_enqueue s t n.name splits
        exact ⟨staging_enqueue, new, hqueue⟩
      · exact ⟨rfl, [], (List.append_nil _).symm⟩
    have htracked : Tracked spec (if b = true then enqueue s t n.name splits else s) := by
      split
      · exact hs.enqueue hdistinct ht hn
      · exact hs
    obtain ⟨htracked', hstaging, ⟨new, hqueue⟩, hpassed⟩ :=
      ih (fun n hn => hxs n (List.mem_cons_of_mem _ hn)) htracked h
    refine ⟨htracked', hstaging.trans hgrown.1, ?_, fun n' hn' hown hcycle => ?_⟩
    · obtain ⟨new₁, hqueue₁⟩ := hgrown.2
      exact ⟨new₁ ++ new, by rw [hqueue, hqueue₁, List.append_assoc]⟩
    · obtain rfl | hn' := List.mem_cons.mp hn'
      · rw [if_pos (hiff.mpr (.inr hcycle))] at hstaging hqueue
        obtain ⟨hall, hsplits⟩ := @carried_enqueue spec s t n'.name splits hs ht hn hown
        exact ⟨hall.grow hstaging hqueue, fun x hx => (hsplits x hx).grow hstaging hqueue⟩
      · exact hpassed n' hn' hown hcycle

theorem visit_complete {queue : List QueuedTask} (hdef : spec.Defined)
    (hdistinct : spec.DistinctWays) (hc : Complete spec s) (hqueue : s.queue = q :: queue)
    (hq : spec.FromStart q.name)
    (hvisit : visit spec parent { s with queue := queue } q = .ok s') : Complete spec s' := by
  by_cases hown : spec.Own q.name
  · obtain ⟨ts, splits, s₁, hts, hpasses, hvisit₁, hfold, -⟩ :=
      @visit_ok spec parent q hdef hq hown { s with queue := queue }
    rw [hvisit] at hvisit₁
    cases hvisit₁
    set s₀ := stage parent { s with queue := queue } q.prev q.name ts.join.isSome splits with hs₀
    -- nothing gets lost when the task is staged
    have hstage : ∀ {p n : String} {P : List String → Prop},
        (∀ xs ys, (∀ x ∈ xs, x ∈ ys) → P xs → P ys) → Carried s p n P → Carried s₀ p n P :=
      fun hP h => h.stage hP hqueue fun x hx => (hpasses x).mpr (.inl hx)
    have htracked : Tracked spec s₀ := fun p n hp hn hown' x hx =>
      hstage (fun xs ys hsub h => hsub x h) (hc.tracked p n hp hn hown' x hx)
    obtain ⟨htracked', hstaging, ⟨new, hnew⟩, hpassed⟩ :=
      passes_fold hdef hdistinct hq (fun n hn => ⟨ts, hts, n, hn, rfl⟩) htracked hfold
    have hkept : ∀ {p n : String} {P : List String → Prop},
        (∀ xs ys, (∀ x ∈ xs, x ∈ ys) → P xs → P ys) → Carried s p n P → Carried s' p n P :=
      fun hP h => (hstage hP h).grow hstaging hnew
    refine ⟨fun t ht => ?_, fun t m hm hsplit hcycle => ?_, fun p m n hm hleads hown' hcycle => ?_,
      htracked'⟩
    · rw [hstaging, hs₀]
      obtain h | ⟨e, he, hname⟩ := hc.starts t ht
      · exact .inl (isSome_stage h)
      · rw [hqueue] at he
        obtain rfl | he := List.mem_cons.mp he
        · rw [lookup_stage, if_pos hname.symm]
          exact .inl rfl
        · exact .inr ⟨e, hnew ▸ List.mem_append_left _ he, hname⟩
    · rw [hstaging, hs₀, lookup_stage] at hm
      by_cases ht : t = q.name
      · subst ht
        rw [if_pos rfl, Option.some_inj] at hm
        subst hm
        exact mem_union.mpr (.inr ((hpasses _).mpr (.inr ⟨rfl, hsplit, hcycle⟩)))
      · rw [if_neg ht] at hm
        exact hc.own t m hm hsplit hcycle
    · rw [hstaging, hs₀, lookup_stage] at hm
      by_cases hp : p = q.name
      · subst hp
        rw [if_pos rfl, Option.some_inj] at hm
        subst hm
        obtain ⟨n', hn', rfl⟩ := List.mem_map.mp ((WorkflowSpec.leads_iff_mem hts).mp hleads)
        obtain ⟨hall, hsplits⟩ := hpassed n' hn' hown' hcycle
        refine ⟨hall, fun x hx => ?_⟩
        obtain hx | hx := mem_union.mp hx
        · cases hold : s.staging.lookup q.name with
          | none => simp [hold] at hx
          | some m₀ =>
            rw [show ({ s with queue := queue } : Traversal).staging.lookup q.name = some m₀ from hold,
              Option.getD_some] at hx
            exact hkept (fun xs ys hsub h => hsub x h)
              ((hc.next _ m₀ _ hold hleads hown' hcycle).2 x hx)
        · exact hsplits x hx
      · rw [if_neg hp] at hm
        obtain ⟨hall, hsplits⟩ := hc.next p m n hm hleads hown' hcycle
        exact ⟨hkept (fun _ _ _ h => h) hall,
          fun x hx => hkept (fun xs ys hsub h => hsub x h) (hsplits x hx)⟩
  · rw [visit_of_not_own hown] at hvisit
    cases hvisit
    -- the task that is left aside is none that something is passed on to
    have hkept : ∀ {p n : String} {P : List String → Prop}, spec.Own n → Carried s p n P →
        Carried { s with queue := queue } p n P := by
      rintro p n P hown' (⟨e, he, hprev, hname, h⟩ | h)
      · rw [hqueue] at he
        obtain rfl | he := List.mem_cons.mp he
        · exact absurd (hname ▸ hown') hown
        · exact .inl ⟨e, he, hprev, hname, h⟩
      · exact .inr h
    refine ⟨fun t ht => ?_, hc.own, fun p m n hm hleads hown' hcycle => ?_,
      fun p n hp hn hown' x hx => hkept hown' (hc.tracked p n hp hn hown' x hx)⟩
    · obtain h | ⟨e, he, hname⟩ := hc.starts t ht
      · exact .inl h
      · rw [hqueue] at he
        obtain rfl | he := List.mem_cons.mp he
        · exact absurd (hname ▸ WorkflowSpec.own_start ht) hown
        · exact .inr ⟨e, he, hname⟩
    · obtain ⟨hall, hsplits⟩ := hc.next p m n hm hleads hown' hcycle
      exact ⟨hkept hown' hall, fun x hx => hkept hown' (hsplits x hx)⟩

/-! ## What is reported -/

theorem carried_iff {P : List String → Prop} (hqueue : s.queue = []) :
    Carried s p n P ↔ ∃ m, s.staging.lookup n = some m ∧ p ∈ m.prev ∧ P m.splits := by
  rw [Carried, hqueue]
  simp

/-- In the end every task that is reachable is staged. -/
theorem staged_of_fromStart (hac : spec.Acyclic) (hc : Complete spec s) (hqueue : s.queue = [])
    (ht : spec.FromStart t) (hown : spec.Own t) : ∃ m, s.staging.lookup t = some m := by
  obtain ⟨start, hstart, hreach⟩ := ht
  induction hreach with
  | refl =>
    refine Option.isSome_iff_exists.mp ((hc.starts start hstart).resolve_right ?_)
    rw [hqueue]
    rintro ⟨q, hq, -⟩
    cases hq
  | tail hreach hleads ih =>
    obtain ⟨m, hm⟩ := ih (WorkflowSpec.own_of_leads hleads)
    obtain ⟨m', hm', -⟩ := (carried_iff hqueue).mp
      (hc.next _ m _ hm hleads hown (hac _ ⟨start, hstart, hreach.tail hleads⟩)).1
    exact ⟨m', hm'⟩

/-- **What is known in the end**: the splits that lead to a task, and its inbound tasks. -/
theorem known_exact (hac : spec.Acyclic) (hs : Sound spec parent s) (hc : Complete spec s)
    (hqueue : s.queue = []) (hm : s.staging.lookup t = some m) :
    (∀ x, x ∈ m.splits ↔ spec.SplitsOnto x t) ∧
      ∀ p, p ∈ m.prev ↔ spec.FromStart p ∧ spec.Leads p t := by
  obtain ⟨ht, hown, -, -, hsplits, hprev⟩ := hs.staged t m hm
  have hpassed : ∀ {p n : String} {mp : StagedTask}, s.staging.lookup p = some mp →
      spec.Leads p n → spec.Own n → ∃ mn, s.staging.lookup n = some mn ∧ p ∈ mn.prev ∧
        ∀ x ∈ mp.splits, x ∈ mn.splits := by
    intro p n mp hmp hleads hown
    obtain ⟨hall, hsub⟩ := hc.next p mp n hmp hleads hown (hac n ((hs.staged p mp hmp).1.next hleads))
    obtain ⟨mn, hmn, hp, -⟩ := (carried_iff hqueue).mp hall
    refine ⟨mn, hmn, hp, fun x hx => ?_⟩
    obtain ⟨mn', hmn', -, hx⟩ := (carried_iff hqueue).mp (hsub x hx)
    rw [hmn] at hmn'
    cases hmn'
    exact hx
  refine ⟨fun x => ⟨hsplits x, fun hx => ?_⟩, fun p => ⟨fun hp => ?_, fun hp => ?_⟩⟩
  · -- along the way from the split
    obtain ⟨hxs, hxown, hxsplit, hxcycle, hway⟩ := hx
    have hall : ∀ y, ReflTransGen spec.Leads x y → spec.Own y →
        ∃ my, s.staging.lookup y = some my ∧ x ∈ my.splits := by
      intro y hway
      induction hway with
      | refl =>
        intro hown
        obtain ⟨my, hmy⟩ := staged_of_fromStart hac hc hqueue hxs hown
        exact ⟨my, hmy, hc.own x my hmy hxsplit hxcycle⟩
      | tail _ hleads ih =>
        intro hown
        obtain ⟨my, hmy, hx⟩ := ih (WorkflowSpec.own_of_leads hleads)
        obtain ⟨mn, hmn, -, hsub⟩ := hpassed hmy hleads hown
        exact ⟨mn, hmn, hsub x hx⟩
    obtain ⟨mt, hmt, hx⟩ := hall t hway hown
    rw [hm] at hmt
    cases hmt
    exact hx
  · obtain ⟨hleads, hstaged⟩ := hprev p hp
    obtain ⟨mp, hmp⟩ := Option.isSome_iff_exists.mp hstaged
    exact ⟨(hs.staged p mp hmp).1, hleads⟩
  · obtain ⟨mp, hmp⟩ :=
      staged_of_fromStart hac hc hqueue hp.1 (WorkflowSpec.own_of_leads hp.2)
    obtain ⟨mt, hmt, hp, -⟩ := hpassed hmp hp.2 hown
    rw [hm] at hmt
    cases hmt
    exact hp

/-- The splits of the task are not those of one of its inbound tasks. -/
def Differs (staging : List (String × StagedTask)) (m : StagedTask) : Prop :=
  ∃ p ∈ m.prev, ∃ mp, staging.lookup p = some mp ∧ ¬ ∀ x, x ∈ m.splits ↔ x ∈ mp.splits

theorem isUnreachable_spec {staging : List (String × StagedTask)} {prev : List String}
    (h : ∀ p ∈ prev, (staging.lookup p).isSome = true) :
    ∃ b, isUnreachable staging splits prev = .ok b ∧ (b = true ↔
      ∃ p ∈ prev, ∃ mp, staging.lookup p = some mp ∧ ¬ ∀ x, x ∈ splits ↔ x ∈ mp.splits) := by
  induction prev with
  | nil => exact ⟨false, rfl, by simp⟩
  | cons p prev ih =>
    obtain ⟨mp, hmp⟩ := Option.isSome_iff_exists.mp (h p List.mem_cons_self)
    rw [isUnreachable, hmp]
    dsimp only
    by_cases hsame : sameSet splits mp.splits = true
    · obtain ⟨b, hb, hiff⟩ := ih fun p hp => h p (List.mem_cons_of_mem _ hp)
      rw [if_pos hsame]
      refine ⟨b, hb, hiff.trans ?_⟩
      rw [List.exists_mem_cons_iff, or_iff_right]
      rintro ⟨mp', hmp', hne⟩
      rw [hmp] at hmp'
      cases hmp'
      exact hne (sameSet_iff.mp hsame)
    · rw [if_neg hsame]
      refine ⟨true, rfl, iff_of_true rfl ⟨p, List.mem_cons_self, mp, hmp, fun hiff => ?_⟩⟩
      exact hsame (sameSet_iff.mpr hiff)

theorem foldlM_checkJoin {staging es : List (String × StagedTask)}
    (h : ∀ e ∈ es, ∀ p ∈ e.2.prev, (staging.lookup p).isSome = true)
    (result : List InspectionEntry) :
    ∃ result', es.foldlM (checkJoin staging) result = .ok result' ∧ ∀ e, e ∈ result' ↔
      e ∈ result ∨ ∃ t m, (t, m) ∈ es ∧ m.join = true ∧ Differs staging m ∧
        e = unreachableJoin t m.paths := by
  induction es generalizing result with
  | nil => exact ⟨result, rfl, by simp⟩
  | cons a es ih =>
    obtain ⟨b, hb, hiff⟩ := @isUnreachable_spec a.2.splits staging a.2.prev (h a List.mem_cons_self)
    have hrest := fun e he => h e (List.mem_cons_of_mem a he)
    have hsplit : ∀ e, (∃ t m, (t, m) ∈ a :: es ∧ m.join = true ∧ Differs staging m ∧
        e = unreachableJoin t m.paths) ↔
          (a.2.join = true ∧ Differs staging a.2 ∧ e = unreachableJoin a.1 a.2.paths) ∨
            ∃ t m, (t, m) ∈ es ∧ m.join = true ∧ Differs staging m ∧
              e = unreachableJoin t m.paths := by
      intro e
      constructor
      · rintro ⟨t, m, hmem, hrest⟩
        obtain rfl | hmem := List.mem_cons.mp hmem
        · exact .inl hrest
        · exact .inr ⟨t, m, hmem, hrest⟩
      · rintro (hfirst | ⟨t, m, hmem, hrest⟩)
        · exact ⟨a.1, a.2, List.mem_cons_self, hfirst⟩
        · exact ⟨t, m, List.mem_cons_of_mem a hmem, hrest⟩
    rw [List.foldlM_cons, checkJoin]
    by_cases hfound : a.2.join = true ∧ b = true
    · obtain ⟨result', hresult, hmem⟩ := ih hrest (result ++ [unreachableJoin a.1 a.2.paths])
      refine ⟨result', ?_, fun e => ?_⟩
      · rw [if_pos hfound.1, hb, bind_ok, if_pos hfound.2]
        exact hresult
      · rw [hmem e, hsplit e, List.mem_append, List.mem_singleton, or_assoc]
        refine or_congr_right (or_congr_left ?_)
        exact ⟨fun he => ⟨hfound.1, hiff.mp hfound.2, he⟩, fun he => he.2.2⟩
    · obtain ⟨result', hresult, hmem⟩ := ih hrest result
      refine ⟨result', ?_, fun e => ?_⟩
      · by_cases hjoin : a.2.join = true
        · rw [if_pos hjoin, hb, bind_ok, if_neg fun hb => hfound ⟨hjoin, hb⟩]
          exact hresult
        · rw [if_neg hjoin]
          exact hresult
      · rw [hmem e, hsplit e]
        refine or_congr_right (iff_or_self.mpr fun hfirst => ?_)
        exact absurd ⟨hfirst.1, hiff.mpr hfirst.2.1⟩ hfound

end Staging

namespace WorkflowSpec

open Staging

variable {spec : WorkflowSpec} {parent : SpecPaths} {t u : String}

/-- Some ways into the join have a split that others do not have. -/
def Ambiguous (spec : WorkflowSpec) (t : String) : Prop :=
  spec.FromStart t ∧ spec.IsJoin t ∧ ∃ p, spec.FromStart p ∧ spec.Leads p t ∧
    ∃ x, spec.SplitsOnto x t ∧ ¬ spec.SplitsOnto x p

/-- The traversal before the first visit. -/
def begun (spec : WorkflowSpec) : Traversal :=
  ⟨spec.getStartTasks.map fun t => ⟨none, t, []⟩, [], []⟩

theorem mem_begun {q : QueuedTask} (hq : q ∈ spec.begun.queue) :
    q.name ∈ spec.getStartTasks ∧ q.prev = none ∧ q.splits = [] := by
  obtain ⟨t, ht, rfl⟩ := List.mem_map.mp hq
  exact ⟨ht, rfl, rfl⟩

theorem begun_sound : Sound spec parent spec.begun := by
  refine ⟨fun q hq => ?_, (fun t m hm => by cases hm), List.nodup_nil⟩
  obtain ⟨hstart, hprev, hsplits⟩ := mem_begun hq
  refine ⟨fromStart_start hstart, fun p hp => ?_, fun x hx => ?_⟩
  · rw [hprev] at hp
    cases hp
  · rw [hsplits] at hx
    cases hx

theorem begun_complete : Complete spec spec.begun :=
  ⟨fun t ht => .inr ⟨_, List.mem_map_of_mem ht, rfl⟩, (fun t m hm => by cases hm),
    (fun p m n hm => by cases hm), fun p n _ _ _ x hx => by cases hx⟩

theorem detectUnreachableTasks_eq_ok {fuel : ℕ} {result : List InspectionEntry} :
    spec.detectUnreachableTasks parent fuel = .ok (some result) ↔
      ∃ s, loop spec parent fuel spec.begun = .ok (some s) ∧
        s.staging.foldlM (checkJoin s.staging) [] = .ok result := by
  rw [detectUnreachableTasks, bind_eq_ok]
  constructor
  · rintro ⟨_ | s, hloop, h⟩
    · cases h
    · obtain ⟨result', hresult, h⟩ := bind_eq_ok.mp h
      cases h
      exact ⟨s, hloop, hresult⟩
  · rintro ⟨s, hloop, hresult⟩
    refine ⟨some s, hloop, ?_⟩
    dsimp only
    rw [hresult]
    rfl

/-- The inbound tasks that are known are staged. -/
theorem prev_staged {s : Traversal} (hs : Sound spec parent s) :
    ∀ e ∈ s.staging, ∀ p ∈ e.2.prev, (s.staging.lookup p).isSome = true := fun e he p hp =>
  ((hs.staged e.1 e.2 (Dict.lookup_of_mem hs.distinct he)).2.2.2.2.2 p hp).2

theorem loop_sound {fuel : ℕ} {s : Traversal} (hdef : spec.Defined)
    (h : loop spec parent fuel spec.begun = .ok (some s)) : Sound spec parent s :=
  (loop_invariant (fun _ _ _ _ hs hqueue hvisit => visit_sound hdef hs hqueue hvisit)
    begun_sound h).1

/-- The joins are found, whatever cycles there are. -/
theorem detectUnreachableTasks_ends (hdef : spec.Defined) :
    ∃ fuel result, spec.detectUnreachableTasks parent fuel = .ok (some result) := by
  have hreachable : Reachable spec spec.begun := fun q hq => fromStart_start (mem_begun hq).1
  obtain ⟨fuel, s, hloop⟩ := @loop_ends spec parent _ hdef hreachable
  obtain ⟨result, hresult, -⟩ := foldlM_checkJoin (prev_staged (loop_sound hdef hloop)) []
  exact ⟨fuel, result, detectUnreachableTasks_eq_ok.mpr ⟨s, hloop, hresult⟩⟩

/-- **Which joins are reported** where there are no cycles. -/
theorem mem_detectUnreachableTasks {fuel : ℕ} {result : List InspectionEntry} (hdef : spec.Defined)
    (hac : spec.Acyclic) (hdistinct : spec.DistinctWays)
    (h : spec.detectUnreachableTasks parent fuel = .ok (some result)) (e : InspectionEntry) :
    e ∈ result ↔ ∃ t, spec.Ambiguous t ∧ e = unreachableJoin t (taskPaths parent t) := by
  obtain ⟨s, hloop, hresult⟩ := detectUnreachableTasks_eq_ok.mp h
  obtain ⟨⟨hs, hc⟩, hqueue⟩ := loop_invariant
    (I := fun s => Sound spec parent s ∧ Complete spec s)
    (fun s q queue s' hs hqueue hvisit => ⟨visit_sound hdef hs.1 hqueue hvisit,
      visit_complete hdef hdistinct hs.2 hqueue
        (hs.1.queue q (hqueue ▸ List.mem_cons_self)).1 hvisit⟩)
    ⟨begun_sound, begun_complete⟩ hloop
  obtain ⟨result', hresult', hmem⟩ := foldlM_checkJoin (prev_staged hs) []
  rw [hresult] at hresult'
  cases hresult'
  rw [hmem, or_iff_right List.not_mem_nil]
  constructor
  · rintro ⟨t, m, hentry, hjoin, ⟨p, hp, mp, hmp, hdiffers⟩, rfl⟩
    have hm := Dict.lookup_of_mem hs.distinct hentry
    obtain ⟨ht, -, hpaths, hisJoin, -⟩ := hs.staged t m hm
    obtain ⟨hsplits, hprev⟩ := known_exact hac hs hc hqueue hm
    obtain ⟨hpstart, hleads⟩ := (hprev p).mp hp
    refine ⟨t, ⟨ht, hisJoin.mp hjoin, p, hpstart, hleads, ?_⟩, by rw [hpaths]⟩
    by_contra hnone
    push Not at hnone
    refine hdiffers fun x => ?_
    rw [hsplits, (known_exact hac hs hc hqueue hmp).1]
    exact ⟨hnone x, fun hx => hx.next hleads⟩
  · rintro ⟨t, ⟨ht, hjoin, p, hpstart, hleads, x, hx, hxp⟩, rfl⟩
    obtain ⟨m, hm⟩ := staged_of_fromStart hac hc hqueue ht (own_of_isJoin hjoin)
    obtain ⟨mp, hmp⟩ := staged_of_fromStart hac hc hqueue hpstart (own_of_leads hleads)
    obtain ⟨-, -, hpaths, hisJoin, -⟩ := hs.staged t m hm
    obtain ⟨hsplits, hprev⟩ := known_exact hac hs hc hqueue hm
    refine ⟨t, m, Dict.mem_of_lookup hm, hisJoin.mpr hjoin,
      ⟨p, (hprev p).mpr ⟨hpstart, hleads⟩, mp, hmp, fun hsame => hxp ?_⟩, by rw [hpaths]⟩
    exact ((known_exact hac hs hc hqueue hmp).1 x).mp ((hsame x).mp ((hsplits x).mpr hx))

/-! ## What is accepted -/

/-- A specification that no check has anything to report of. -/
structure Accepted (spec : WorkflowSpec) : Prop where
  unreserved : ∀ e ∈ spec.tasks, isReserved e.1 = false
  starts : spec.tasks ≠ [] → spec.getStartTasks ≠ []
  defined : spec.Defined
  joins : ∀ t, ¬ spec.Ambiguous t
  actions : ∀ e ∈ spec.tasks, e.2.hasItems = true → e.2.action.truthy = true

theorem detectReservedNames_eq_nil :
    spec.detectReservedNames parent = [] ↔ ∀ e ∈ spec.tasks, isReserved e.1 = false := by
  rw [detectReservedNames, List.map_eq_nil_iff, List.filter_eq_nil_iff]
  simp only [Bool.not_eq_true]

theorem detectStartTasks_eq_nil :
    spec.detectStartTasks parent = [] ↔ (spec.tasks ≠ [] → spec.getStartTasks ≠ []) := by
  rw [detectStartTasks]
  split
  · rename_i h
    exact iff_of_false (List.cons_ne_nil _ _) fun hstarts => hstarts h.1 h.2
  · rename_i h
    exact iff_of_true rfl fun htasks hstarts => h ⟨htasks, hstarts⟩

theorem detectActionlessWithItems_eq_nil : spec.detectActionlessWithItems parent = [] ↔
    ∀ e ∈ spec.tasks, e.2.hasItems = true → e.2.action.truthy = true := by
  rw [detectActionlessWithItems, List.map_eq_nil_iff, List.filter_eq_nil_iff]
  simp only [Bool.and_eq_true, Bool.not_eq_true', not_and, Bool.not_eq_false]

theorem inspectSemantics_eq_ok {fuel : ℕ} : spec.inspectSemantics parent fuel = .ok (some []) ↔
    (spec.detectReservedNames parent = [] ∧ spec.detectStartTasks parent = [] ∧
      spec.detectActionlessWithItems parent = []) ∧
        spec.detectUndefinedTasks parent = .ok [] ∧
          spec.detectUnreachableTasks parent fuel = .ok (some []) := by
  rw [inspectSemantics, bind_eq_ok]
  constructor
  · rintro ⟨undefined, hundefined, h⟩
    obtain ⟨_ | unreachable, hunreachable, h⟩ := bind_eq_ok.mp h
    · cases h
    · rw [pure_eq_ok, Option.some_inj] at h
      simp only [List.append_eq_nil_iff] at h
      obtain ⟨⟨⟨⟨hreserved, hstarts⟩, rfl⟩, rfl⟩, hactions⟩ := h
      exact ⟨⟨hreserved, hstarts, hactions⟩, hundefined, hunreachable⟩
  · rintro ⟨⟨hreserved, hstarts, hactions⟩, hundefined, hunreachable⟩
    refine ⟨[], hundefined, bind_eq_ok.mpr ⟨some [], hunreachable, ?_⟩⟩
    rw [hreserved, hstarts, hactions]
    rfl

theorem detectUndefinedTasks_eq_nil : spec.detectUndefinedTasks parent = .ok [] ↔ spec.Defined := by
  refine ⟨Inspection.defined_of_detected, fun hdef => ?_⟩
  obtain ⟨result, hresult, hentries⟩ := Inspection.detects spec parent
  have hnil : result = [] := by
    refine List.eq_nil_iff_forall_not_mem.mpr fun e he => ?_
    obtain ⟨t, ht, ts, hts, item, hitem, hundef, -⟩ := (hentries e).mp he
    rw [hdef item.2 (ht.next ((Inspection.leads_iff_items hts).mpr ⟨item.1, hitem⟩))] at hundef
    cases hundef
  rw [hresult, hnil]

/-- **What the inspection accepts**: a specification that has no cycles, and no two transitions
that are known by the same name, is found to be right exactly if it is. -/
theorem inspectSemantics_iff (spec : WorkflowSpec) (parent : SpecPaths) (hac : spec.Acyclic)
    (hdistinct : spec.DistinctWays) :
    (∃ fuel, spec.inspectSemantics parent fuel = .ok (some [])) ↔ spec.Accepted := by
  simp only [inspectSemantics_eq_ok, detectReservedNames_eq_nil, detectStartTasks_eq_nil,
    detectActionlessWithItems_eq_nil, detectUndefinedTasks_eq_nil]
  constructor
  · rintro ⟨fuel, ⟨hreserved, hstarts, hactions⟩, hdef, hunreachable⟩
    refine ⟨hreserved, hstarts, hdef, fun t ht => ?_, hactions⟩
    have hmem := (mem_detectUnreachableTasks hdef hac hdistinct hunreachable _).mpr ⟨t, ht, rfl⟩
    cases hmem
  · rintro ⟨hreserved, hstarts, hdef, hjoins, hactions⟩
    obtain ⟨fuel, result, h⟩ := @detectUnreachableTasks_ends spec parent hdef
    have hnil : result = [] := List.eq_nil_iff_forall_not_mem.mpr fun e he => by
      obtain ⟨t, ht, -⟩ := (mem_detectUnreachableTasks hdef hac hdistinct h e).mp he
      exact hjoins t ht
    subst hnil
    exact ⟨fuel, ⟨hreserved, hstarts, hactions⟩, hdef, h⟩

/-! ## Two transitions of one name -/

/-- The transitions, each with the names of its tasks. -/
def ways (spec : WorkflowSpec) : List (String × String) :=
  spec.tasks.flatMap fun e => (nextTasksOf e.2).map fun n => (e.1, n.name)

theorem mem_ways (h : spec.Leads t u) : (t, u) ∈ spec.ways := by
  have hr := not_reserved_of_leads h
  obtain ⟨ts, hts, n, hn, rfl⟩ := h
  exact List.mem_flatMap.mpr ⟨(t, ts), Dict.mem_of_lookup (lookup_of_getTask hr hts),
    List.mem_map.mpr ⟨n, hn, rfl⟩⟩

theorem rank_lt {rank : String → ℕ} (h : ∀ w ∈ spec.ways, rank w.1 < rank w.2)
    (htu : TransGen spec.Leads t u) : rank t < rank u := by
  induction htu with
  | single hleads => exact h _ (mem_ways hleads)
  | tail _ hleads ih => exact ih.trans (h _ (mem_ways hleads))

theorem acyclic_of_rank (rank : String → ℕ) (h : ∀ w ∈ spec.ways, rank w.1 < rank w.2) :
    spec.Acyclic := fun _ _ hcycle => (rank_lt h hcycle).false

theorem distinctWays_of_ways (h : ∀ w ∈ spec.ways, ∀ w' ∈ spec.ways,
    splitId w.1 w.2 = splitId w'.1 w'.2 → w = w') : spec.DistinctWays := by
  intro p n p' n' _ hleads _ hleads' hid
  have heq := h _ (mem_ways hleads) _ (mem_ways hleads') hid
  exact ⟨congrArg Prod.fst heq, congrArg Prod.snd heq⟩

/-- Two branches that are joined. -/
def forked : WorkflowSpec :=
  ⟨[], [], [("start", { TaskSpec.empty with next := [⟨none, [], ["left", "right"]⟩] }),
    ("left", { TaskSpec.empty with next := [⟨none, [], ["last"]⟩] }),
    ("right", { TaskSpec.empty with next := [⟨none, [], ["last"]⟩] }),
    ("last", { TaskSpec.empty with join := some .all })]⟩

theorem inspectSemantics_iff_forked : forked.Accepted := by
  have hac : forked.Acyclic :=
    acyclic_of_rank (fun t => if t = "start" then 0 else if t = "last" then 2 else 1) (by decide)
  exact (inspectSemantics_iff forked ⟨"tasks", "properties.tasks"⟩ hac
    (distinctWays_of_ways (by decide))).mp ⟨10, by decide⟩

/-- The ways from `a` to `b_c` and from `a_b` to `c` are known by the same name, so that nothing is
passed on to `c`. -/
def sameWay : WorkflowSpec :=
  ⟨[], [], [("start", { TaskSpec.empty with
      next := [⟨none, [], ["split"]⟩, ⟨some "<% failed() %>", [], ["split"]⟩] }),
    ("split", { TaskSpec.empty with next := [⟨none, [], ["a", "a_b"]⟩] }),
    ("a", { TaskSpec.empty with next := [⟨none, [], ["b_c"]⟩] }),
    ("a_b", { TaskSpec.empty with next := [⟨none, [], ["c"]⟩] }),
    ("b_c", TaskSpec.empty),
    ("c", { TaskSpec.empty with next := [⟨none, [], ["last"]⟩] }),
    ("other", { TaskSpec.empty with next := [⟨none, [], ["last"]⟩] }),
    ("last", { TaskSpec.empty with join := some .all })]⟩

/-- The join is ambiguous, and is not reported. -/
theorem inspectSemantics_sameWay : sameWay.Acyclic ∧ sameWay.Ambiguous "last" ∧
    sameWay.inspectSemantics ⟨"tasks", "properties.tasks"⟩ 10 = .ok (some []) := by
  obtain ⟨rank, hrank, hlow⟩ : ∃ rank : String → ℕ,
      (∀ w ∈ sameWay.ways, rank w.1 < rank w.2) ∧ rank "other" ≤ rank "split" :=
    ⟨fun t => ["other", "start", "split", "a", "a_b", "b_c", "c", "last"].idxOf t,
      by decide, by decide⟩
  have hac : sameWay.Acyclic := acyclic_of_rank rank hrank
  have hsplit : sameWay.Leads "start" "split" := (leads_iff_mem rfl).mpr (by decide)
  have hbranch : sameWay.Leads "split" "a_b" := (leads_iff_mem rfl).mpr (by decide)
  have hnext : sameWay.Leads "a_b" "c" := (leads_iff_mem rfl).mpr (by decide)
  have hlast : sameWay.Leads "c" "last" := (leads_iff_mem rfl).mpr (by decide)
  have hother : sameWay.Leads "other" "last" := (leads_iff_mem rfl).mpr (by decide)
  have hstart : sameWay.FromStart "split" :=
    (fromStart_start (s := "start") (by decide)).next hsplit
  have hway : ReflTransGen sameWay.Leads "split" "last" :=
    ((ReflTransGen.single hbranch).tail hnext).tail hlast
  have hinbound : sameWay.FromStart "other" := fromStart_start (by decide)
  refine ⟨hac, ⟨hinbound.next hother, ⟨_, rfl, rfl⟩, "other", hinbound, hother, "split", ?_, ?_⟩,
    by decide⟩
  · exact ⟨hstart, rfl, ⟨_, rfl, rfl, by decide⟩, hac _ hstart, hway⟩
  · rintro ⟨-, -, -, -, hback⟩
    obtain heq | hback := reflTransGen_iff_eq_or_transGen.mp hback
    · exact absurd heq (by decide)
    · exact absurd (rank_lt hrank hback) (not_lt.mpr hlow)

end WorkflowSpec


end Orquesta
end IntegratedCLI
