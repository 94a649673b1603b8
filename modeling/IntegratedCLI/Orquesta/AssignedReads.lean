import IntegratedCLI.Lib.DefiniteAssignment
import IntegratedCLI.Orquesta.ContextInspection

/-!
# What the inspection of the context shows

Without a reported error, a variable should be assigned on every path before it is
referenced (`AssignedBeforeUse`).  The inspection goes through a queue and does not come
back to a task that it has traversed, so it follows some paths only.

A specification is read as straight-line code that reads and assigns variables (`code`),
and the tasks as the blocks of a `Flow`.  `Extends` compares the inspection of one
specification with its code, and `Visits` one round of the loop with the steps from the
task.  The visited tasks cover all steps but those to a task that was traversed before
(`Skips`).  So no error shows what it should exactly if each of those brings the
variables that are needed behind it (`inspectContext_sound_iff`).
-/

namespace IntegratedCLI
namespace Orquesta
namespace ContextInspection

open DefiniteAssignment Relation

variable (x : Expressions)

/-! ## What a specification reads and assigns -/

/-- The variables that a value references. -/
def reads (j : Json) : Set String := {v | ∃ c ∈ extractVars x j, c.name = v}

/-- A value of a property, which assigns the names in it or nothing. -/
def stmt (assigns : Bool) (j : Json) : Stmt String :=
  ⟨reads x j, if assigns then {v | v ∈ getCtxInputs j} else ∅⟩

/-- The values of a property in their order. -/
def code (assigns : Bool) (j : Json) : List (Stmt String) :=
  if j.truthy then (pieces (inlined x j)).map fun piece => stmt x assigns piece.2 else []

def TaskTransitionSpec.code (tr : TaskTransitionSpec) : List (Stmt String) :=
  ContextInspection.code x false (optionJson .str tr.when)
    ++ ContextInspection.code x true (fieldsJson tr.publish)

def TaskSpec.code (ts : TaskSpec) : List (Stmt String) :=
  ContextInspection.code x false (optionJson intJson ts.delay)
    ++ ts.withItems.elim [] (fun w => ContextInspection.code x false (optionJson .str w.items)
      ++ ContextInspection.code x false (optionJson intJson w.concurrency))
    ++ ContextInspection.code x false (optionJson .str ts.action)
    ++ ContextInspection.code x false ts.input

namespace TaskMappingSpec

/-- The tasks as blocks, and their transitions as the ways out. -/
def flow (tasks : TaskMappingSpec) : Flow String String where
  block t := (tasks.getTask t).code x
  exits t := (tasks.getTask t).next.map fun tr =>
    ⟨tr.code x, tr.doTasks.nextTaskNames.filter fun n => n ≠ "" ∧ tasks.hasTask n = true⟩

end TaskMappingSpec

/-! ## One specification -/

/-- The result goes on from the errors and the context before it: no error says that the
reads are of variables in the context, and the assigned variables are put into it. -/
structure Extends (acc acc' : List ContextError × Finset String) (p : List (Stmt String)) :
    Prop where
  assigned : acc'.1 = [] → acc.1 = [] ∧ Assigned (↑acc.2) p
  ctx : (↑acc'.2 : Set String) = ↑acc.2 ∪ written p

variable {x}

namespace Extends

variable {acc acc' acc'' : List ContextError × Finset String} {p q : List (Stmt String)}

theorem refl (acc : List ContextError × Finset String) : Extends acc acc [] :=
  ⟨fun h => ⟨h, trivial⟩, by rw [written_nil, Set.union_empty]⟩

theorem trans (h : Extends acc acc' p) (h' : Extends acc' acc'' q) :
    Extends acc acc'' (p ++ q) := by
  refine ⟨fun herrors => ?_, ?_⟩
  · obtain ⟨herrors', hq⟩ := h'.assigned herrors
    obtain ⟨herrors'', hp⟩ := h.assigned herrors'
    rw [h.ctx] at hq
    exact ⟨herrors'', assigned_append.mpr ⟨hp, hq⟩⟩
  · rw [h'.ctx, h.ctx, written_append, Set.union_assoc]

end Extends

theorem varErrors_eq_nil {specPath schemaPath : String} {ctx : Finset String} {v : CtxVar}
    (h : varErrors specPath schemaPath ctx v = []) : v.name ∈ ctx := by
  by_contra hnot
  rw [varErrors, if_neg hnot] at h
  exact absurd (List.append_eq_nil_iff.mp h).2 (List.cons_ne_nil _ _)

variable (spec : Spec) {name specPath schemaPath : String} {parent : Option Parent}
  {acc : List ContextError × Finset String}

theorem inspectCtx_extends (piece : String × Json) :
    Extends acc (spec.inspectCtx x name specPath schemaPath acc piece)
      [stmt x (name ∈ spec.inputs) piece.2] := by
  refine ⟨fun h => ?_, ?_⟩
  · obtain ⟨hacc, hvars⟩ := List.append_eq_nil_iff.mp h
    refine ⟨hacc, ?_, trivial⟩
    rintro v ⟨c, hc, rfl⟩
    exact varErrors_eq_nil (List.flatMap_eq_nil_iff.mp hvars c hc)
  · rw [written_cons, written_nil, Set.union_empty, Spec.inspectCtx, stmt]
    by_cases hname : name ∈ spec.inputs
    · simp [hname]
    · simp [hname]

theorem foldl_inspectCtx_extends (values : List (String × Json)) :
    Extends acc (values.foldl (spec.inspectCtx x name specPath schemaPath) acc)
      (values.map fun piece => stmt x (name ∈ spec.inputs) piece.2) := by
  induction values generalizing acc with
  | nil => exact .refl acc
  | cons piece values ih => exact (inspectCtx_extends spec piece).trans ih

theorem inspectProperty_value (j : Json) :
    Extends acc (spec.inspectProperty x parent acc (name, .value j))
      (code x (name ∈ spec.inputs) j) := by
  rw [code]
  simp only [Spec.inspectProperty]
  split
  · exact foldl_inspectCtx_extends spec _
  · exact .refl acc

/-- A specification below this one goes on from the context. -/
theorem inspectProperty_spec {inspect : Parent → List ContextError × Finset String}
    {p : List (Stmt String)}
    (h : ∀ specPath schemaPath, Extends ([], acc.2) (inspect ⟨acc.2, specPath, schemaPath⟩) p) :
    Extends acc (spec.inspectProperty x parent acc (name, .spec inspect)) p := by
  have hresult := h (getSpecPath name parent) (getSchemaPath name parent)
  refine ⟨fun herrors => ?_, ?_⟩
  · obtain ⟨hacc, herrors'⟩ := List.append_eq_nil_iff.mp herrors
    exact ⟨hacc, (hresult.assigned herrors').2⟩
  · show (↑(acc.2 ∪ (inspect _).2) : Set String) = _
    rw [Finset.coe_union, hresult.ctx, ← Set.union_assoc, Set.union_self]

theorem foldl_extends {props : List (String × Property)} {codes : List (List (Stmt String))}
    (h : List.Forall₂ (fun p c => ∀ acc, Extends acc (spec.inspectProperty x parent acc p) c)
      props codes) :
    Extends acc (props.foldl (spec.inspectProperty x parent) acc) codes.flatten := by
  induction h generalizing acc with
  | nil => exact .refl acc
  | cons h _ ih => exact (h acc).trans ih

/-- What is inspected in the order of the properties, before the errors are sorted. -/
theorem inspectContext_extends (parent : Option Parent) {codes : List (List (Stmt String))}
    (h : List.Forall₂ (fun p c => ∀ acc, Extends acc (spec.inspectProperty x parent acc p) c)
      spec.sequence codes) :
    Extends ([], parent.elim ∅ Parent.ctx) (spec.inspectContext x parent) codes.flatten := by
  have hfold : Extends ([], parent.elim ∅ Parent.ctx)
      (spec.sequence.foldl (spec.inspectProperty x parent) ([], parent.elim ∅ Parent.ctx))
      codes.flatten := foldl_extends spec h
  refine ⟨fun herrors => hfold.assigned ?_, hfold.ctx⟩
  have hlength := congrArg List.length herrors
  rw [Spec.inspectContext] at hlength
  exact List.length_eq_zero_iff.mp ((List.length_insertionSort _ _).symm.trans hlength)

theorem TaskTransitionSpec.inspectContext_extends (tr : TaskTransitionSpec) (parent : Parent) :
    Extends ([], parent.ctx) (tr.inspectContext x parent)
      (tr.code x ++ ContextInspection.code x false tr.doTasks.toJson) := by
  have h := ContextInspection.inspectContext_extends (x := x)
    ⟨[("when", .value (optionJson .str tr.when)), ("publish", .value (fieldsJson tr.publish)),
      ("do", .value tr.doTasks.toJson)], ["publish"]⟩
    (some parent) (.cons (fun _ => inspectProperty_value _ _)
      (.cons (fun _ => inspectProperty_value _ _)
        (.cons (fun _ => inspectProperty_value _ _) .nil)))
  simp only [List.flatten_cons, List.flatten_nil, List.append_nil] at h
  rw [code, List.append_assoc]
  exact h

theorem ItemizedSpec.inspectContext_extends (w : ItemizedSpec) (parent : Parent) :
    Extends ([], parent.ctx) (w.inspectContext x parent)
      (code x false (optionJson .str w.items)
        ++ code x false (optionJson intJson w.concurrency)) := by
  have h := ContextInspection.inspectContext_extends (x := x)
    ⟨[("items", .value (optionJson .str w.items)),
      ("concurrency", .value (optionJson intJson w.concurrency))], []⟩
    (some parent) (.cons (fun _ => inspectProperty_value _ _)
      (.cons (fun _ => inspectProperty_value _ _) .nil))
  simp only [List.flatten_cons, List.flatten_nil, List.append_nil] at h
  exact h

/-- The `with` of a task, which need not be there. -/
theorem inspectProperty_with (withItems : Option ItemizedSpec) :
    Extends acc (spec.inspectProperty x parent acc
        (name, withItems.elim (.value .null) fun w => .spec (w.inspectContext x)))
      (withItems.elim [] fun w => code x false (optionJson .str w.items)
        ++ code x false (optionJson intJson w.concurrency)) := by
  cases withItems with
  | none => exact .refl acc
  | some w =>
    exact inspectProperty_spec spec fun specPath schemaPath =>
      w.inspectContext_extends ⟨acc.2, specPath, schemaPath⟩

/-- The list of the transitions has nothing to inspect. -/
theorem inspectProperty_next :
    Extends acc (spec.inspectProperty x parent acc
      (name, .spec fun p => Spec.inspectContext x ⟨[], []⟩ (some p))) [] :=
  inspectProperty_spec spec fun specPath schemaPath =>
    ContextInspection.inspectContext_extends ⟨[], []⟩ (some ⟨acc.2, specPath, schemaPath⟩) .nil

theorem TaskSpec.inspectContext_extends (ts : TaskSpec) (parent : Parent) :
    Extends ([], parent.ctx) (ts.inspectContext x parent) (ts.code x) := by
  have h := ContextInspection.inspectContext_extends (x := x)
    ⟨[("delay", .value (optionJson intJson ts.delay)),
      ("with", ts.withItems.elim (.value .null) fun w => .spec (w.inspectContext x)),
      ("action", .value (optionJson .str ts.action)), ("input", .value ts.input),
      ("next", .spec fun p => Spec.inspectContext x ⟨[], []⟩ (some p))], []⟩
    (some parent) (.cons (fun _ => inspectProperty_value _ _)
      (.cons (fun _ => inspectProperty_with _ _) (.cons (fun _ => inspectProperty_value _ _)
        (.cons (fun _ => inspectProperty_value _ _)
          (.cons (fun _ => inspectProperty_next _) .nil)))))
  simp only [List.flatten_cons, List.flatten_nil, List.append_nil, ← List.append_assoc] at h
  rw [code]
  exact h

theorem written_code_false (j : Json) : written (code x false j) = ∅ := by
  rw [code]
  split
  · refine Set.eq_empty_of_forall_notMem fun v ⟨s, hs, hv⟩ => ?_
    obtain ⟨piece, -, rfl⟩ := List.mem_map.mp hs
    exact hv
  · exact written_nil

/-- A task assigns nothing. -/
theorem TaskSpec.written_code (ts : TaskSpec) : written (ts.code x) = ∅ := by
  have hwith : written (ts.withItems.elim [] fun w =>
      ContextInspection.code x false (optionJson .str w.items)
        ++ ContextInspection.code x false (optionJson intJson w.concurrency)) = ∅ := by
    cases ts.withItems with
    | none => exact written_nil
    | some w =>
      simp only [Option.elim_some, written_append, written_code_false, Set.union_empty]
  simp only [code, written_append, written_code_false, hwith, Set.union_empty]

namespace TaskSpec

/-- A task keeps its context. -/
theorem union_inspectContext (ts : TaskSpec) (parent : Parent) :
    parent.ctx ∪ (ts.inspectContext x parent).2 = parent.ctx := by
  refine Finset.coe_injective ?_
  rw [Finset.coe_union, (ts.inspectContext_extends parent).ctx, written_code, Set.union_empty,
    Set.union_self]

theorem exists_mem_zipIdx {tr : TaskTransitionSpec} {trs : List TaskTransitionSpec} :
    (∃ i, (tr, i) ∈ trs.zipIdx) ↔ tr ∈ trs := by
  rw [List.mem_iff_getElem?]
  exact exists_congr fun i => List.mk_mem_zipIdx_iff_getElem?

theorem mem_transitions {ts : TaskSpec} {n : String} {tr : TaskTransitionSpec} :
    (∃ i, (some n, tr, i) ∈ ts.transitions) ↔ tr ∈ ts.next ∧ n ∈ tr.doTasks.nextTaskNames := by
  rw [← exists_mem_zipIdx, ← exists_and_right]
  refine exists_congr fun i => ?_
  rw [transitions, List.mem_flatMap]
  constructor
  · rintro ⟨⟨tr', i'⟩, hmem, hentry⟩
    rcases hnames : tr'.doTasks.nextTaskNames with - | ⟨m, names⟩ <;> simp only [hnames] at hentry
    · rw [List.mem_singleton] at hentry
      cases hentry
    · obtain ⟨m', hm', heq⟩ := List.mem_map.mp hentry
      cases heq
      exact ⟨hmem, hnames ▸ hm'⟩
  · rintro ⟨hmem, hn⟩
    refine ⟨(tr, i), hmem, ?_⟩
    rcases hnames : tr.doTasks.nextTaskNames with - | ⟨m, names⟩
    · rw [hnames] at hn
      cases hn
    · simp only [hnames]
      exact List.mem_map.mpr ⟨n, hnames ▸ hn, rfl⟩

/-- A transition is inspected even if it leads to no task. -/
theorem exists_transition {ts : TaskSpec} {tr : TaskTransitionSpec} (h : tr ∈ ts.next) :
    ∃ next i, (next, tr, i) ∈ ts.transitions := by
  obtain ⟨i, hi⟩ := exists_mem_zipIdx.mpr h
  rcases hnames : tr.doTasks.nextTaskNames with - | ⟨m, names⟩
  · refine ⟨none, i, List.mem_flatMap.mpr ⟨(tr, i), hi, ?_⟩⟩
    simp only [hnames]
    exact List.mem_singleton_self _
  · obtain ⟨j, hj⟩ := mem_transitions.mpr ⟨h, hnames ▸ List.mem_cons_self⟩
    exact ⟨_, j, hj⟩

end TaskSpec

/-- The context behind a transition. -/
theorem TaskTransitionSpec.coe_branchCtx (tr : TaskTransitionSpec) (parent : Parent) :
    (↑(parent.ctx ∪ (tr.inspectContext x parent).2) : Set String)
      = ↑parent.ctx ∪ written (tr.code x) := by
  rw [Finset.coe_union, (tr.inspectContext_extends parent).ctx, written_append,
    written_code_false, Set.union_empty, ← Set.union_assoc, Set.union_self]

theorem TaskTransitionSpec.assigned_of_inspected {tr : TaskTransitionSpec} {parent : Parent}
    (h : (tr.inspectContext x parent).1 = []) : Assigned (↑parent.ctx) (tr.code x) :=
  (assigned_append.mp ((tr.inspectContext_extends parent).assigned h).2).1

/-! ## The loop -/

variable {tasks : TaskMappingSpec} {parent : Parent}

namespace TaskMappingSpec

/-- One round of the loop. -/
inductive Round (x : Expressions) (tasks : TaskMappingSpec) (parent : Parent) :
    Traversal → Traversal → Prop where
  | mk {s : Traversal} {t : String} {ctx : Finset String} {q : List (String × Finset String)}
      (hq : s.q = (t, ctx) :: q) :
      Round x tasks parent s (inspectTask x tasks parent { s with q := q } t ctx)

/-- The state is one of those that the loop goes through. -/
def Reached (x : Expressions) (tasks : TaskMappingSpec) (parent : Parent) (s : Traversal) : Prop :=
  ReflTransGen (Round x tasks parent) (tasks.start parent) s

/-- The task is inspected with these variables, in some state of the loop. -/
def Visited (x : Expressions) (tasks : TaskMappingSpec) (parent : Parent)
    (y : Point String String) : Prop :=
  ∃ s t ctx q, Reached x tasks parent s ∧ s.q = (t, ctx) :: q ∧ y = (t, (↑ctx : Set String))

/-- There is a way to the task from a start task, on which these variables are assigned. -/
def FromStart (x : Expressions) (tasks : TaskMappingSpec) (parent : Parent)
    (y : Point String String) : Prop :=
  ∃ t ∈ tasks.getStartTasks, ReflTransGen (tasks.flow x).Step (t, (↑parent.ctx : Set String)) y

/-- The task is in the queue with these variables, or was inspected with them. -/
def Queued (x : Expressions) (tasks : TaskMappingSpec) (parent : Parent) (s : Traversal)
    (y : Point String String) : Prop :=
  (∃ ctx : Finset String, (y.1, ctx) ∈ s.q ∧ (↑ctx : Set String) = y.2) ∨ Visited x tasks parent y

/-- What holds in each state of the loop.  There is no join, so that no context is put
together of several. -/
structure Sound (x : Expressions) (tasks : TaskMappingSpec) (parent : Parent) (s : Traversal) :
    Prop where
  ctxs : s.ctxs = []
  queue : ∀ e ∈ s.q, FromStart x tasks parent (e.1, (↑e.2 : Set String))
  known : ∀ n ctx, s.taskCtxMap.lookup n = some ctx →
    Queued x tasks parent s (n, (↑ctx : Set String))

def NoJoins (tasks : TaskMappingSpec) : Prop := ∀ t, (tasks.getTask t).hasJoin = false

theorem noJoins_of_forall (h : ∀ e ∈ tasks, e.2.hasJoin = false) : NoJoins tasks := by
  intro t
  rw [getTask]
  split
  · rfl
  · cases hlookup : tasks.lookup t with
    | none => rfl
    | some ts => exact h (t, ts) (Dict.mem_of_lookup hlookup)

/-- The transition leads to no task that is queued. -/
def Skipped (tasks : TaskMappingSpec) (traversed : List String) (n : String) : Prop :=
  n = "" ∨ n ∈ traversed ∨ tasks.hasTask n = false

/-- What the inspection of a transition makes of the state. -/
structure Handles (x : Expressions) (tasks : TaskMappingSpec) (parent : Parent)
    (ctx : Finset String) (s s' : Traversal)
    (entry : Option String × TaskTransitionSpec × ℕ) : Prop where
  traversed : s'.traversed = s.traversed
  errors : s'.errors = [] → s.errors = [] ∧ Assigned (↑ctx) (entry.2.1.code x)
  queued : ∀ y, Queued x tasks parent s y → Queued x tasks parent s' y
  next : ∀ n, entry.1 = some n → Skipped tasks s.traversed n ∨
    Queued x tasks parent s' (n, (↑ctx : Set String) ∪ written (entry.2.1.code x))

theorem Queued.mono {s s' : Traversal} {y : Point String String} (hq : ∀ e ∈ s.q, e ∈ s'.q)
    (h : Queued x tasks parent s y) : Queued x tasks parent s' y :=
  h.imp_left fun ⟨ctx, hmem, hctx⟩ => ⟨ctx, hq _ hmem, hctx⟩

theorem inspectTransition_handles (hjoin : NoJoins tasks) (specPath schemaPath : String)
    {ctx : Finset String} {s : Traversal} {entry : Option String × TaskTransitionSpec × ℕ}
    (hstep : ∀ n, entry.1 = some n → ¬ Skipped tasks s.traversed n →
      FromStart x tasks parent (n, (↑ctx : Set String) ∪ written (entry.2.1.code x)))
    (h : Sound x tasks parent s) :
    let s' := inspectTransition x tasks specPath schemaPath ctx s entry
    Sound x tasks parent s' ∧ Handles x tasks parent ctx s s' entry := by
  obtain ⟨next, tr, seqNum⟩ := entry
  have hbranch : (↑(ctx ∪ (tr.inspectContext x ⟨ctx, specPath ++ ".next[" ++ toString seqNum ++ "]",
      schemaPath ++ ".properties.next.items"⟩).2) : Set String) = ↑ctx ∪ written (tr.code x) :=
    tr.coe_branchCtx _
  have herrors : ∀ errors : List ContextError,
      errors ++ (tr.inspectContext x ⟨ctx, specPath ++ ".next[" ++ toString seqNum ++ "]",
        schemaPath ++ ".properties.next.items"⟩).1 = [] →
      errors = [] ∧ Assigned (↑ctx) (tr.code x) := fun errors herr =>
    (List.append_eq_nil_iff.mp herr).imp_right TaskTransitionSpec.assigned_of_inspected
  cases next with
  | none =>
    simp only [inspectTransition]
    exact ⟨⟨h.ctxs, h.queue, h.known⟩, rfl, herrors _, fun y hy => hy, fun n hn => nomatch hn⟩
  | some n =>
    simp only [inspectTransition, hjoin n, Bool.false_eq_true, if_false]
    split
    · rename_i hskip
      refine ⟨⟨h.ctxs, h.queue, h.known⟩, rfl, herrors _, fun y hy => hy, fun m hm => ?_⟩
      cases hm
      exact .inl hskip
    · rename_i hskip
      split
      · rename_i hsame
        have hknown := h.known n _ hsame
        rw [hbranch] at hknown
        refine ⟨⟨h.ctxs, h.queue, h.known⟩, rfl, herrors _, fun y hy => hy, fun m hm => ?_⟩
        cases hm
        exact .inr hknown
      · -- the next task goes into the queue
        have hmono : ∀ y, Queued x tasks parent s y → Queued x tasks parent
            { s with
              errors := s.errors ++ (tr.inspectContext x ⟨ctx, specPath ++ ".next["
                ++ toString seqNum ++ "]", schemaPath ++ ".properties.next.items"⟩).1
              q := s.q ++ [(n, ctx ∪ (tr.inspectContext x ⟨ctx, specPath ++ ".next["
                ++ toString seqNum ++ "]", schemaPath ++ ".properties.next.items"⟩).2)] } y :=
          fun y hy => hy.mono fun e he => List.mem_append_left _ he
        refine ⟨⟨h.ctxs, fun e he => ?_, fun m c hm => ?_⟩, rfl, herrors _, hmono, fun m hm => ?_⟩
        · rcases List.mem_append.mp he with he | he
          · exact h.queue e he
          · rw [List.mem_singleton.mp he, hbranch]
            exact hstep n rfl hskip
        · rw [Dict.lookup_put] at hm
          split at hm
          · rename_i heq
            cases hm
            exact .inl ⟨_, List.mem_append_right _ (heq ▸ List.mem_singleton_self _), rfl⟩
          · exact hmono _ (h.known m c hm)
        · cases hm
          exact .inr (.inl ⟨_, List.mem_append_right _ (List.mem_singleton_self _), hbranch⟩)

/-- What the inspection of the transitions of a task makes of the state. -/
structure HandlesAll (x : Expressions) (tasks : TaskMappingSpec) (parent : Parent)
    (ctx : Finset String) (s s' : Traversal)
    (entries : List (Option String × TaskTransitionSpec × ℕ)) : Prop where
  traversed : s'.traversed = s.traversed
  errors : s'.errors = [] → s.errors = [] ∧ ∀ entry ∈ entries, Assigned (↑ctx) (entry.2.1.code x)
  queued : ∀ y, Queued x tasks parent s y → Queued x tasks parent s' y
  next : ∀ entry ∈ entries, ∀ n, entry.1 = some n → Skipped tasks s.traversed n ∨
    Queued x tasks parent s' (n, (↑ctx : Set String) ∪ written (entry.2.1.code x))

theorem foldl_handles (hjoin : NoJoins tasks) (specPath schemaPath : String)
    {ctx : Finset String} {entries : List (Option String × TaskTransitionSpec × ℕ)} {s : Traversal}
    (hstep : ∀ entry ∈ entries, ∀ n, entry.1 = some n → ¬ Skipped tasks s.traversed n →
      FromStart x tasks parent (n, (↑ctx : Set String) ∪ written (entry.2.1.code x)))
    (h : Sound x tasks parent s) :
    let s' := entries.foldl (inspectTransition x tasks specPath schemaPath ctx) s
    Sound x tasks parent s' ∧ HandlesAll x tasks parent ctx s s' entries := by
  induction entries generalizing s with
  | nil =>
    exact ⟨h, rfl, fun herr => ⟨herr, fun _ he => nomatch he⟩, fun _ hy => hy,
      fun _ he => nomatch he⟩
  | cons entry entries ih =>
    obtain ⟨h₁, hone⟩ := inspectTransition_handles hjoin specPath schemaPath
      (hstep entry List.mem_cons_self) h
    obtain ⟨h₂, hall⟩ := ih (fun e he => hone.traversed ▸ hstep e (List.mem_cons_of_mem _ he)) h₁
    refine ⟨h₂, hall.traversed.trans hone.traversed, fun herr => ?_,
      fun y hy => hall.queued y (hone.queued y hy), fun e he n hn => ?_⟩
    · obtain ⟨herr₁, hrest⟩ := hall.errors herr
      obtain ⟨herr₀, hentry⟩ := hone.errors herr₁
      exact ⟨herr₀, List.forall_mem_cons.mpr ⟨hentry, hrest⟩⟩
    · rcases List.mem_cons.mp he with rfl | he
      · exact (hone.next n hn).imp_right fun hq => hall.queued _ hq
      · rw [← hone.traversed]
        exact hall.next e he n hn

/-- A transition of a task is a step. -/
theorem step_of_transition {t n : String} {c : Set String} {tr : TaskTransitionSpec} {i : ℕ}
    (hentry : (some n, tr, i) ∈ (tasks.getTask t).transitions) (hne : n ≠ "")
    (htask : tasks.hasTask n = true) :
    (tasks.flow x).Step (t, c) (n, c ∪ written (tr.code x)) := by
  obtain ⟨htr, hn⟩ := TaskSpec.mem_transitions.mp ⟨i, hentry⟩
  have hbehind : c ∪ written (tr.code x)
      = (tasks.flow x).behind (t, c) ⟨tr.code x, tr.doTasks.nextTaskNames.filter fun n =>
        n ≠ "" ∧ tasks.hasTask n = true⟩ := by
    show _ = c ∪ written ((tasks.getTask t).code x) ∪ _
    rw [TaskSpec.written_code, Set.union_empty]
  rw [hbehind]
  exact .mk _ n (List.mem_map.mpr ⟨tr, htr, rfl⟩)
    (List.mem_filter.mpr ⟨hn, decide_eq_true ⟨hne, htask⟩⟩)

/-- A step goes along a transition. -/
theorem transition_of_step {t : String} {c : Set String} {y : Point String String}
    (h : (tasks.flow x).Step (t, c) y) :
    ∃ tr i, (some y.1, tr, i) ∈ (tasks.getTask t).transitions ∧ y.1 ≠ ""
      ∧ tasks.hasTask y.1 = true ∧ y.2 = c ∪ written (tr.code x) := by
  obtain ⟨e, m, he, hm⟩ := h
  obtain ⟨tr, htr, rfl⟩ := List.mem_map.mp he
  obtain ⟨hname, hok⟩ := List.mem_filter.mp hm
  obtain ⟨i, hi⟩ := TaskSpec.mem_transitions.mpr ⟨htr, hname⟩
  have hok' := of_decide_eq_true hok
  refine ⟨tr, i, hi, hok'.1, hok'.2, ?_⟩
  show c ∪ written ((tasks.getTask t).code x) ∪ _ = _
  rw [TaskSpec.written_code, Set.union_empty]

/-! ## One round -/

/-- The steps from a task that the inspection does not follow: the next task was traversed. -/
def Skips (x : Expressions) (tasks : TaskMappingSpec) (parent : Parent)
    (y : Point String String) : Prop :=
  ∃ s t ctx q, Reached x tasks parent s ∧ s.q = (t, ctx) :: q
    ∧ (tasks.flow x).Step (t, (↑ctx : Set String)) y ∧ y.1 ∈ s.traversed ++ [t]

/-- What is known of a round: no error says that the reads of the task and of its transitions
are of variables in the context, and a next task that was not traversed is queued. -/
structure Visits (x : Expressions) (tasks : TaskMappingSpec) (parent : Parent) (s s' : Traversal)
    (t : String) (ctx : Finset String) : Prop where
  sound : Sound x tasks parent s'
  queued : ∀ y, Queued x tasks parent s y → Queued x tasks parent s' y
  errors : s'.errors = [] → s.errors = [] ∧ (tasks.flow x).Local (t, (↑ctx : Set String))
  steps : ∀ y, (tasks.flow x).Step (t, (↑ctx : Set String)) y →
    y.1 ∈ s.traversed ++ [t] ∨ Queued x tasks parent s' y

theorem inspectTask_visits (hjoin : NoJoins tasks) {s : Traversal} {t : String}
    {ctx : Finset String} {q : List (String × Finset String)} (hs : Reached x tasks parent s)
    (hq : s.q = (t, ctx) :: q) (h : Sound x tasks parent s) :
    Visits x tasks parent s (inspectTask x tasks parent { s with q := q } t ctx) t ctx := by
  have hvisited : Visited x tasks parent (t, (↑ctx : Set String)) := ⟨s, t, ctx, q, hs, hq, rfl⟩
  have hstart : FromStart x tasks parent (t, (↑ctx : Set String)) :=
    h.queue _ (hq ▸ List.mem_cons_self)
  have hctx : (if ctx = ∅ then (s.ctxs.lookup t).getD ∅ else ctx) = ctx := by
    rw [h.ctxs]
    split
    · exact (‹ctx = ∅›).symm
    · rfl
  have hunion := (tasks.getTask t).union_inspectContext (x := x)
    ⟨ctx, parent.specPath ++ "." ++ t, parent.schemaPath ++ ".patternProperties.^\\w+$"⟩
  have hextends := (tasks.getTask t).inspectContext_extends (x := x)
    ⟨ctx, parent.specPath ++ "." ++ t, parent.schemaPath ++ ".patternProperties.^\\w+$"⟩
  dsimp only at hunion hextends
  simp only [inspectTask, hctx, hunion]
  set result := (tasks.getTask t).inspectContext x
    ⟨ctx, parent.specPath ++ "." ++ t, parent.schemaPath ++ ".patternProperties.^\\w+$"⟩
  -- what the task is inspected in, before its transitions
  set s₁ : Traversal := ⟨s.ctxs, s.errors ++ result.1, s.traversed ++ [t], s.taskCtxMap,
    s.rollingCtx ∪ ctx, q⟩
  have hqueued : ∀ y, Queued x tasks parent s y → Queued x tasks parent s₁ y := by
    rintro y (⟨c, hmem, hc⟩ | hy)
    · rw [hq] at hmem
      rcases List.mem_cons.mp hmem with heq | hmem
      · refine .inr ?_
        obtain ⟨n, d⟩ := y
        cases heq
        exact (show d = ↑ctx from hc.symm) ▸ hvisited
      · exact .inl ⟨c, hmem, hc⟩
    · exact .inr hy
  have hsound₁ : Sound x tasks parent s₁ :=
    ⟨h.ctxs, fun e he => h.queue e (hq ▸ List.mem_cons_of_mem _ he),
      fun n c hn => hqueued _ (h.known n c hn)⟩
  have hstep : ∀ entry ∈ (tasks.getTask t).transitions, ∀ n, entry.1 = some n →
      ¬ Skipped tasks s₁.traversed n →
      FromStart x tasks parent (n, (↑ctx : Set String) ∪ written (entry.2.1.code x)) := by
    rintro ⟨next, tr, i⟩ hentry n rfl hskip
    obtain ⟨t₀, ht₀, hway⟩ := hstart
    rw [Skipped, not_or, not_or, Bool.not_eq_false] at hskip
    exact ⟨t₀, ht₀, hway.tail (step_of_transition hentry hskip.1 hskip.2.2)⟩
  obtain ⟨hsound, hall⟩ := foldl_handles hjoin (parent.specPath ++ "." ++ t)
    (parent.schemaPath ++ ".patternProperties.^\\w+$") hstep hsound₁
  refine ⟨hsound, fun y hy => hall.queued y (hqueued y hy), fun herr => ?_, fun y hy => ?_⟩
  · obtain ⟨herr₁, hentries⟩ := hall.errors herr
    obtain ⟨herr₀, hresult⟩ := List.append_eq_nil_iff.mp herr₁
    refine ⟨herr₀, (hextends.assigned hresult).2, fun e he => ?_⟩
    obtain ⟨tr, htr, rfl⟩ := List.mem_map.mp he
    obtain ⟨next, i, hentry⟩ := TaskSpec.exists_transition htr
    have hassigned := hentries _ hentry
    show Assigned (↑ctx ∪ written ((tasks.getTask t).code x)) _
    rw [TaskSpec.written_code, Set.union_empty]
    exact hassigned
  · obtain ⟨tr, i, hentry, hne, htask, hy₂⟩ := transition_of_step hy
    rcases hall.next _ hentry y.1 rfl with hskip | hqueue
    · refine .inl ((hskip.resolve_left hne).resolve_right ?_)
      rw [htask]
      exact Bool.true_eq_false_eq_False
    · rw [← hy₂] at hqueue
      exact .inr hqueue

/-! ## The whole loop -/

variable {s s' f : Traversal}

theorem Reached.sound (hjoin : NoJoins tasks) (h : Reached x tasks parent s) :
    Sound x tasks parent s := by
  induction h with
  | refl =>
    refine ⟨rfl, fun e he => ?_, fun n ctx hn => nomatch hn⟩
    obtain ⟨t, ht, rfl⟩ := List.mem_map.mp he
    exact ⟨t, ht, .refl⟩
  | tail hs hround ih =>
    obtain ⟨hq⟩ := hround
    exact (inspectTask_visits hjoin hs hq ih).sound

/-- From each state that the loop goes through it comes to the same end. -/
theorem loop_of_reached {fuel : ℕ} (hloop : loop x tasks parent fuel (tasks.start parent) = some f)
    (h : Reached x tasks parent s) : ∃ n, loop x tasks parent n s = some f := by
  induction h with
  | refl => exact ⟨fuel, hloop⟩
  | tail _ hround ih =>
    obtain ⟨n, hn⟩ := ih
    obtain ⟨hq⟩ := hround
    cases n with
    | zero =>
      rw [loop, if_neg (by rw [hq]; exact List.cons_ne_nil _ _)] at hn
      cases hn
    | succ n =>
      rw [loop, hq] at hn
      exact ⟨n, hn⟩

theorem loop_cons {n : ℕ} {t : String} {ctx : Finset String} {q : List (String × Finset String)}
    (hn : loop x tasks parent n s = some f) (hq : s.q = (t, ctx) :: q) :
    ∃ m < n, loop x tasks parent m (inspectTask x tasks parent { s with q := q } t ctx)
      = some f := by
  cases n with
  | zero =>
    rw [loop, if_neg (by rw [hq]; exact List.cons_ne_nil _ _)] at hn
    cases hn
  | succ n =>
    rw [loop, hq] at hn
    exact ⟨n, n.lt_succ_self, hn⟩

/-- An error is never taken back. -/
theorem errors_of_loop {n : ℕ} (hn : loop x tasks parent n s = some f) (herr : f.errors = []) :
    s.errors = [] := by
  induction n using Nat.strong_induction_on generalizing s with
  | _ n ih =>
    rcases hq : s.q with - | ⟨⟨t, ctx⟩, q⟩
    · cases n with
      | zero =>
        rw [loop, if_pos hq] at hn
        exact Option.some_inj.mp hn ▸ herr
      | succ n =>
        rw [loop, hq] at hn
        exact Option.some_inj.mp hn ▸ herr
    · obtain ⟨m, hlt, hm⟩ := loop_cons hn hq
      have hnil := ih m hlt hm
      have hkept := (@inspectTask_follows x tasks parent { s with q := q } t ctx).errors
      rw [hnil] at hkept
      exact List.prefix_nil.mp hkept

/-- What is in the queue is inspected before the loop ends. -/
theorem visited_of_queue {n : ℕ} (hn : loop x tasks parent n s = some f)
    (hs : Reached x tasks parent s) {e : String × Finset String} (he : e ∈ s.q) :
    Visited x tasks parent (e.1, (↑e.2 : Set String)) := by
  induction n using Nat.strong_induction_on generalizing s with
  | _ n ih =>
    rcases hq : s.q with - | ⟨⟨t, ctx⟩, q⟩
    · rw [hq] at he
      cases he
    · obtain ⟨m, hlt, hm⟩ := loop_cons hn hq
      rw [hq] at he
      rcases List.mem_cons.mp he with rfl | he
      · exact ⟨s, t, ctx, q, hs, hq, rfl⟩
      · obtain ⟨new, hnew, -⟩ :=
          (@inspectTask_follows x tasks parent { s with q := q } t ctx).q
        refine ih m hlt hm (hs.tail (.mk hq)) ?_
        rw [hnew]
        exact List.mem_append_left _ he

/-- **Without an error every read is of an assigned variable, exactly if the branches that
are skipped bring what is needed behind them.** -/
theorem safe_iff_of_loop {fuel : ℕ} (hjoin : NoJoins tasks)
    (hloop : loop x tasks parent fuel (tasks.start parent) = some f) (herr : f.errors = []) :
    (∀ t ∈ tasks.getStartTasks, (tasks.flow x).Safe (t, (↑parent.ctx : Set String)))
      ↔ ∀ y, Skips x tasks parent y → (tasks.flow x).Provided y := by
  refine ⟨fun hsafe y => ?_, fun hskips t ht => ?_⟩
  · rintro ⟨s, t, ctx, q, hs, hq, hstep, -⟩
    obtain ⟨t₀, ht₀, hway⟩ := (hs.sound hjoin).queue (t, ctx) (hq ▸ List.mem_cons_self)
    have hy : (tasks.flow x).Safe y := fun z hz => hsafe t₀ ht₀ z ((hway.tail hstep).trans hz)
    exact hy.provided
  · have hvisit : ∀ s t ctx q, Reached x tasks parent s → s.q = (t, ctx) :: q →
        Visits x tasks parent s (inspectTask x tasks parent { s with q := q } t ctx) t ctx :=
      fun s t ctx q hs hq => inspectTask_visits hjoin hs hq (hs.sound hjoin)
    refine Flow.safe_of_visited (Visited x tasks parent) ?_ ?_ ?_
    · rintro _ ⟨s, t, ctx, q, hs, hq, rfl⟩
      obtain ⟨n, hn⟩ := loop_of_reached hloop (hs.tail (.mk hq))
      exact ((hvisit s t ctx q hs hq).errors (errors_of_loop hn herr)).2
    · rintro _ y ⟨s, t, ctx, q, hs, hq, rfl⟩ hstep
      rcases (hvisit s t ctx q hs hq).steps y hstep with hmem | ⟨c, hc, hy⟩ | hy
      · exact .inr (hskips y ⟨s, t, ctx, q, hs, hq, hstep, hmem⟩)
      · obtain ⟨n, hn⟩ := loop_of_reached hloop (hs.tail (.mk hq))
        obtain ⟨m, d⟩ := y
        exact .inl ((show d = ↑c from hy.symm) ▸ visited_of_queue hn (hs.tail (.mk hq)) hc)
      · exact .inl hy
    · exact visited_of_queue hloop .refl (List.mem_map.mpr ⟨t, ht, rfl⟩)

end TaskMappingSpec

/-! ## The workflow -/

namespace WorkflowSpec

variable (x)

/-- What the tasks are inspected under. -/
def tasksParent (wf : WorkflowSpec) (parent : Option Parent) : Parent :=
  let spec : Spec := ⟨[], contextInputs⟩
  ⟨([("input", Property.value wf.input), ("vars", .value wf.vars)].foldl
    (spec.inspectProperty x parent) ([], parent.elim ∅ Parent.ctx)).2,
    getSpecPath "tasks" parent, getSchemaPath "tasks" parent⟩

/-- The variables of the application context, of the input and of `vars`. -/
def startVars (wf : WorkflowSpec) (parent : Option Parent) : Set String :=
  ↑(parent.elim ∅ Parent.ctx) ∪ (written (code x true wf.input) ∪ written (code x true wf.vars))

/-- On every path of transitions from a start task, what a task or a transition references
was assigned before. -/
def AssignedBeforeUse (wf : WorkflowSpec) (parent : Option Parent) : Prop :=
  ∀ t ∈ wf.tasks.getStartTasks, (wf.tasks.flow x).Safe (t, wf.startVars x parent)

/-- A branch that is skipped brings the variables that the task it leads to, or one behind it,
references before they are assigned. -/
def SkipsProvide (wf : WorkflowSpec) (parent : Option Parent) : Prop :=
  ∀ y, wf.tasks.Skips x (wf.tasksParent x parent) y → (wf.tasks.flow x).Provided y

variable {x}

theorem coe_tasksParent (wf : WorkflowSpec) (parent : Option Parent) :
    (↑(wf.tasksParent x parent).ctx : Set String) = wf.startVars x parent := by
  have hinput : Extends ([], parent.elim ∅ Parent.ctx)
      (Spec.inspectProperty x ⟨[], contextInputs⟩ parent ([], parent.elim ∅ Parent.ctx)
        ("input", .value wf.input)) (code x true wf.input) := inspectProperty_value _ _
  have hvars : Extends
      (Spec.inspectProperty x ⟨[], contextInputs⟩ parent ([], parent.elim ∅ Parent.ctx)
        ("input", .value wf.input))
      (Spec.inspectProperty x ⟨[], contextInputs⟩ parent
        (Spec.inspectProperty x ⟨[], contextInputs⟩ parent ([], parent.elim ∅ Parent.ctx)
          ("input", .value wf.input)) ("vars", .value wf.vars)) (code x true wf.vars) :=
    inspectProperty_value _ _
  have hctx := (hinput.trans hvars).ctx
  rw [written_append] at hctx
  exact hctx

/-- No error of the workflow is none of its tasks. -/
theorem tasks_noErrors {fuel : ℕ} {wf : WorkflowSpec} {parent : Option Parent}
    {ctx : Finset String} (h : wf.inspectContext x fuel parent = some ([], ctx)) :
    ∃ f, TaskMappingSpec.loop x wf.tasks (wf.tasksParent x parent) fuel
        (wf.tasks.start (wf.tasksParent x parent)) = some f ∧ f.errors = [] := by
  rw [inspectContext] at h
  obtain ⟨result, hresult, h⟩ := Option.bind_eq_some_iff.mp h
  obtain ⟨f, hf, rfl⟩ := Option.map_eq_some_iff.mp hresult
  refine ⟨f, hf, ?_⟩
  have herrors := congrArg Prod.fst (Option.some_inj.mp h)
  have hlength := congrArg List.length herrors
  rw [List.length_insertionSort] at hlength
  have hafter := (inspectProperty_value (x := x) ⟨[], contextInputs⟩ wf.output).assigned
    (List.length_eq_zero_iff.mp hlength)
  exact (List.append_eq_nil_iff.mp hafter.1).2

/-- **The inspection is sound exactly if no branch is skipped that brings too little.** -/
theorem inspectContext_sound_iff {fuel : ℕ} {wf : WorkflowSpec} {parent : Option Parent}
    {ctx : Finset String} (h : wf.inspectContext x fuel parent = some ([], ctx))
    (hjoin : wf.tasks.NoJoins) :
    wf.AssignedBeforeUse x parent ↔ wf.SkipsProvide x parent := by
  obtain ⟨f, hloop, herr⟩ := tasks_noErrors h
  rw [AssignedBeforeUse, ← coe_tasksParent]
  exact TaskMappingSpec.safe_iff_of_loop hjoin hloop herr

/-- A task that runs an action and goes on to the tasks. -/
def runs (input : Json) (publish : List (String × Json)) (next : String) : TaskSpec :=
  ⟨none, none, some "core.noop", input, none, [⟨none, publish, .text next⟩]⟩

/-- `x` is the only variable that is found, in one expression. -/
def referencesX : Expressions where
  references s := if s = "<% ctx().x %>" then [("yaql", "x")] else []
  inlineParams _ := []

/-- `publisher` and `silent` both lead to `reader`, which references `x`, but `silent` does so
through another task. -/
def lateBranch : WorkflowSpec :=
  ⟨.null, .null, [("publisher", runs .null [("x", .num 1)] "reader"),
    ("silent", runs .null [] "relay"), ("relay", runs .null [] "reader"),
    ("reader", runs (.dict [("n", .str "<% ctx().x %>")]) [] "")], .null⟩

set_option maxRecDepth 10000 in
theorem inspectContext_lateBranch :
    lateBranch.inspectContext referencesX 4 none = some ([], {"x"}) := by
  decide +kernel

theorem noJoins_lateBranch : lateBranch.tasks.NoJoins := by
  refine TaskMappingSpec.noJoins_of_forall ?_
  simp [lateBranch, runs, TaskSpec.hasJoin]

/-- A task that publishes nothing is left with what was assigned before it. -/
theorem step_runs {tasks : TaskMappingSpec} {t n : String} {input : Json} {c : Set String}
    (ht : tasks.getTask t = runs input [] n) (hn : (Do.text n).nextTaskNames = [n]) (hne : n ≠ "")
    (htask : tasks.hasTask n = true) : (tasks.flow x).Step (t, c) (n, c) := by
  have hmem : (some n, (⟨none, [], .text n⟩ : TaskTransitionSpec), 0)
      ∈ (tasks.getTask t).transitions := by
    rw [ht]
    simp [runs, TaskSpec.transitions, hn]
  have hstep := TaskMappingSpec.step_of_transition (x := x) (c := c) hmem hne htask
  simp only [TaskTransitionSpec.code, code, optionJson, fieldsJson, Json.truthy] at hstep
  simpa using hstep

theorem not_assignedBeforeUse_lateBranch : ¬ lateBranch.AssignedBeforeUse referencesX none := by
  intro h
  have hsilent := h "silent" (by decide +kernel)
  have hreader := (hsilent.step (step_runs (n := "relay") rfl (by decide +kernel) (by decide)
    (by decide +kernel))).step (step_runs (n := "reader") rfl (by decide +kernel) (by decide)
    (by decide +kernel))
  have hvars : lateBranch.startVars referencesX none = ∅ := by
    simp [startVars, lateBranch, code, Json.truthy]
  have hx : "x" ∈ reads referencesX (.dict [("n", .str "<% ctx().x %>")]) :=
    ⟨⟨"yaql", "<% ctx().x %>", "x"⟩, by decide +kernel, rfl⟩
  have hblock : (lateBranch.tasks.flow referencesX).block "reader"
      = [stmt referencesX false (.str "core.noop"),
        stmt referencesX false (.dict [("n", .str "<% ctx().x %>")])] := rfl
  have hlocal : Assigned (lateBranch.startVars referencesX none) _ := hreader.local.1
  rw [hvars, hblock] at hlocal
  rcases hlocal.2.1 hx with hmem | hmem
  · exact hmem
  · exact hmem

/-- No error is reported, but the path over `silent` and `relay` references `x` unassigned. -/
theorem inspectContext_missesLateBranch :
    lateBranch.inspectContext referencesX 4 none = some ([], {"x"})
      ∧ lateBranch.tasks.NoJoins ∧ ¬ lateBranch.AssignedBeforeUse referencesX none :=
  ⟨inspectContext_lateBranch, noJoins_lateBranch, not_assignedBeforeUse_lateBranch⟩

/-- The branch over `relay` brings too little. -/
theorem not_skipsProvide_lateBranch : ¬ lateBranch.SkipsProvide referencesX none :=
  mt (inspectContext_sound_iff inspectContext_lateBranch noJoins_lateBranch).mpr
    not_assignedBeforeUse_lateBranch

end WorkflowSpec

end ContextInspection
end Orquesta
end IntegratedCLI
