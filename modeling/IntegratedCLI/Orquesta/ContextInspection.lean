import Mathlib.Data.Finset.Card
import Mathlib.Data.List.Sort
import IntegratedCLI.Orquesta.Specs

/-!
# The inspection of the context

`inspect_context` of `specs/base.py` and `specs/native/v1/models.py`, which looks for
variables of the context that are referenced before they are assigned.

A specification here is as its constructor leaves it: `publish` is a list of single
variables, an inline `action` is apart from its parameters, and `do` is given.  The
other properties are as they are written.  An absent property is `null`.

A context is the set of the names that are assigned.  The order of a Python set is not
specified, and nothing but the order of two errors at one place depends on it.

What the plugins for expressions find in a text, and what `parse_inline_params` finds,
are parameters of the model (`Expressions`).
-/

namespace IntegratedCLI
namespace Orquesta
namespace ContextInspection

/-! ## Variables of an expression -/

/-- What is found in a text: the references to the context, each as the type of the
evaluator and the name, which is empty where no pattern fits, and the inline parameters. -/
structure Expressions where
  references : String → List (String × String)
  inlineParams : String → List (String × Json)

/-- A variable that an expression references. -/
structure CtxVar where
  type : String
  expression : String
  name : String
  deriving DecidableEq, Repr

/-- The variables with a name, each once, sorted by the name. -/
def tidy (vars : List CtxVar) : List CtxVar :=
  (vars.filter fun v => v.name ≠ "").dedup.insertionSort fun a b => a.name ≤ b.name

variable (x : Expressions)

def extractVarsOf (s : String) : List CtxVar :=
  tidy ((x.references s).map fun (type, name) => ⟨type, s, name⟩)

mutual

def extractVars : Json → List CtxVar
  | .dict fields => tidy (extractVarsFields fields)
  | .list xs => tidy (extractVarsItems xs)
  | .str s => extractVarsOf x s
  | _ => []

def extractVarsFields : List (String × Json) → List CtxVar
  | [] => []
  | (k, v) :: fields => extractVarsOf x k ++ extractVars v ++ extractVarsFields fields

def extractVarsItems : List Json → List CtxVar
  | [] => []
  | j :: xs => extractVars j ++ extractVarsItems xs

end

/-! ## One specification -/

/-- An error of the inspection. -/
structure ContextError where
  type : String
  expression : String
  message : String
  specPath : String
  schemaPath : String
  deriving DecidableEq, Repr

/-- What a specification is told by the one that it is part of. -/
structure Parent where
  ctx : Finset String
  specPath : String
  schemaPath : String

/-- `str.strip` of the characters with `p` -/
def strip (p : Char → Bool) (s : String) : String :=
  String.ofList ((s.toList.dropWhile p).reverse.dropWhile p).reverse

def getSpecPath (name : String) : Option Parent → String
  | some parent => strip (· = '.') (parent.specPath ++ "." ++ name)
  | none => name

def getSchemaPath (name : String) : Option Parent → String
  | some parent => strip (· = '.') (parent.schemaPath ++ "." ++ "properties." ++ name)
  | none => "properties." ++ name

/-- The names that a property assigns. -/
def getCtxInputs : Json → List String
  | .dict fields => fields.map Prod.fst
  | .list xs => xs.flatMap fun
    | .str s => [s]
    | .dict [(k, _)] => [k]
    | _ => []
  | .str s => [s]
  | _ => []

/-- The errors of a variable under the context. -/
def varErrors (specPath schemaPath : String) (ctx : Finset String) (v : CtxVar) :
    List ContextError :=
  (if v.name.startsWith "__" then
    [⟨v.type, v.expression, "Variable \"" ++ v.name ++ "\" that is prefixed with double "
      ++ "underscores is considered a private variable and cannot be referenced.",
      specPath, schemaPath⟩]
  else []) ++
  if v.name ∈ ctx then []
  else [⟨v.type, v.expression, "Variable \"" ++ v.name ++ "\" is referenced before assignment.",
    specPath, schemaPath⟩]

/-- A property of a specification: a value, or a specification with an inspection of
its own. -/
inductive Property where
  | value (j : Json)
  | spec (inspect : Parent → List ContextError × Finset String)

/-- A specification: the properties in `_context_evaluation_sequence`, and the names in
`_context_inputs`. -/
structure Spec where
  sequence : List (String × Property)
  inputs : List String

/-- The value, or the inline parameters in its text if it has some. -/
def inlined : Json → Json
  | .str s =>
    match x.inlineParams s with
    | [] => .str s
    | params => .list (params.map fun p => .dict [p])
  | j => j

/-- The values in a list, which are inspected one after the other, each with the end of
its path. -/
def pieces : Json → List (String × Json)
  | .list xs => xs.zipIdx.map fun (j, i) => ("[" ++ toString i ++ "]", j)
  | j => [("", j)]

namespace Spec

/-- Inspect one value: the errors so far and the context, and those after it. -/
def inspectCtx (spec : Spec) (name specPath schemaPath : String)
    (acc : List ContextError × Finset String) (piece : String × Json) :
    List ContextError × Finset String :=
  (acc.1 ++ (extractVars x piece.2).flatMap (varErrors (specPath ++ piece.1) schemaPath acc.2),
    if name ∈ spec.inputs then acc.2 ∪ (getCtxInputs piece.2).toFinset else acc.2)

def inspectProperty (spec : Spec) (parent : Option Parent)
    (acc : List ContextError × Finset String) (p : String × Property) :
    List ContextError × Finset String :=
  let specPath := getSpecPath p.1 parent
  let schemaPath := getSchemaPath p.1 parent
  match p.2 with
  | .spec inspect =>
    let result := inspect ⟨acc.2, specPath, schemaPath⟩
    (acc.1 ++ result.1, acc.2 ∪ result.2)
  | .value j =>
    if j.truthy then
      (pieces (inlined x j)).foldl (spec.inspectCtx x p.1 specPath schemaPath) acc
    else acc

/-- `Spec.inspect_context` -/
def inspectContext (spec : Spec) (parent : Option Parent) : List ContextError × Finset String :=
  let (errors, ctx) := spec.sequence.foldl (spec.inspectProperty x parent)
    ([], parent.elim ∅ Parent.ctx)
  (errors.insertionSort fun a b => a.specPath ≤ b.specPath, ctx)

end Spec

/-! ## The specifications of a workflow -/

/-- The tasks that a transition leads to: a text with commas, or a list. -/
inductive Do where
  | text (s : String)
  | names (xs : List String)
  deriving DecidableEq, Repr

namespace Do

def toJson : Do → Json
  | text s => .str s
  | names xs => .list (xs.map .str)

def nextTaskNames : Do → List String
  | text s =>
    if s = "" then []
    else (s.toList.splitOn ',').map fun cs => strip Char.isWhitespace (String.ofList cs)
  | names xs => xs

end Do

def optionJson {α : Type} (toJson : α → Json) : Option α → Json
  | some a => toJson a
  | none => .null

def intJson : IntSpec → Json
  | .int n => .num n
  | .expr text => .str text

/-- A list of single-key dictionaries. -/
def fieldsJson (fields : List (String × Json)) : Json := .list (fields.map fun p => .dict [p])

structure TaskTransitionSpec where
  when : Option String
  publish : List (String × Json)
  doTasks : Do
  deriving Repr

def TaskTransitionSpec.inspectContext (tr : TaskTransitionSpec) (parent : Parent) :
    List ContextError × Finset String :=
  Spec.inspectContext x ⟨[("when", .value (optionJson .str tr.when)),
    ("publish", .value (fieldsJson tr.publish)), ("do", .value tr.doTasks.toJson)], ["publish"]⟩
    (some parent)

structure ItemizedSpec where
  items : Option String
  concurrency : Option IntSpec
  deriving Repr

def ItemizedSpec.inspectContext (ts : ItemizedSpec) (parent : Parent) :
    List ContextError × Finset String :=
  Spec.inspectContext x ⟨[("items", .value (optionJson .str ts.items)),
    ("concurrency", .value (optionJson intJson ts.concurrency))], []⟩ (some parent)

/-- A task.  The inspection does not look at its `retry`. -/
structure TaskSpec where
  delay : Option IntSpec
  withItems : Option ItemizedSpec
  action : Option String
  input : Json
  join : Option Barrier
  next : List TaskTransitionSpec
  deriving Repr

namespace TaskSpec

/-- The task of an engine command. -/
def empty : TaskSpec := ⟨none, none, none, .null, none, []⟩

def hasJoin (ts : TaskSpec) : Bool :=
  match ts.join with
  | none => false
  | some .all => true
  | some (.count n) => n ≠ 0

/-- The list of transitions has no evaluation sequence: it is inspected by
`inspectTasks` of the mapping. -/
def inspectContext (ts : TaskSpec) (parent : Parent) : List ContextError × Finset String :=
  Spec.inspectContext x ⟨[("delay", .value (optionJson intJson ts.delay)),
    ("with", ts.withItems.elim (.value .null) fun w => .spec (w.inspectContext x)),
    ("action", .value (optionJson .str ts.action)), ("input", .value ts.input),
    ("next", .spec fun p => Spec.inspectContext x ⟨[], []⟩ (some p))], []⟩ (some parent)

/-- The transitions of the task with the next task of each, and its position. -/
def transitions (ts : TaskSpec) : List (Option String × TaskTransitionSpec × ℕ) :=
  ts.next.zipIdx.flatMap fun (tr, i) =>
    match tr.doTasks.nextTaskNames with
    | [] => [(none, tr, i)]
    | names => names.map fun t => (some t, tr, i)

end TaskSpec

/-- The tasks of a workflow. -/
abbrev TaskMappingSpec := List (String × TaskSpec)

namespace TaskMappingSpec

variable (tasks : TaskMappingSpec)

def hasTask (t : String) : Bool := isReserved t || (tasks.lookup t).isSome

/-- The task of the name.  Only names with `hasTask` are asked for. -/
def getTask (t : String) : TaskSpec :=
  if isReserved t then .empty else (tasks.lookup t).getD .empty

/-- The names that some transition of a task leads to. -/
def nextTasksOf (t : String) : List String :=
  (tasks.getTask t).next.flatMap fun tr => tr.doTasks.nextTaskNames

def getStartTasks : List String :=
  ((tasks.map Prod.fst).filter fun t =>
    !tasks.any fun e => t ∈ tasks.nextTasksOf e.1).insertionSort (· ≤ ·)

/-- The state of the inspection.  An entry of `q` is a task with the context that it is
to be inspected under. -/
structure Traversal where
  ctxs : List (String × Finset String)
  errors : List ContextError
  traversed : List String
  taskCtxMap : List (String × Finset String)
  rollingCtx : Finset String
  q : List (String × Finset String)

/-- Inspect one transition of a task, and put the next task in the queue. -/
def inspectTransition (specPath schemaPath : String) (taskCtx : Finset String) (s : Traversal)
    (entry : Option String × TaskTransitionSpec × ℕ) : Traversal :=
  let (next, tr, seqNum) := entry
  let result := tr.inspectContext x ⟨taskCtx, specPath ++ ".next[" ++ toString seqNum ++ "]",
    schemaPath ++ ".properties.next.items"⟩
  let s := { s with errors := s.errors ++ result.1 }
  let branchCtx := taskCtx ∪ result.2
  match next with
  | none => s
  | some next =>
    if next = "" ∨ next ∈ s.traversed ∨ tasks.hasTask next = false then s
    else if (tasks.getTask next).hasJoin then
      -- the entry has no context of its own, it is taken from `ctxs` when its turn comes
      { s with
        ctxs := Dict.put s.ctxs next (((s.ctxs.lookup next).getD ∅) ∪ branchCtx)
        q := s.q ++ [(next, ∅)] }
    else if s.taskCtxMap.lookup next = some branchCtx then s
    else
      { s with
        q := s.q ++ [(next, branchCtx)]
        taskCtxMap := Dict.put s.taskCtxMap next branchCtx }

/-- Inspect the task `t`, which was taken out of the queue with the context `ctx`. -/
def inspectTask (parent : Parent) (s : Traversal) (t : String) (ctx : Finset String) : Traversal :=
  let s := { s with traversed := s.traversed ++ [t] }
  let taskCtx := if ctx = ∅ then (s.ctxs.lookup t).getD ∅ else ctx
  let ts := tasks.getTask t
  let specPath := parent.specPath ++ "." ++ t
  let schemaPath := parent.schemaPath ++ ".patternProperties.^\\w+$"
  let result := ts.inspectContext x ⟨taskCtx, specPath, schemaPath⟩
  let taskCtx := taskCtx ∪ result.2
  let s := { s with errors := s.errors ++ result.1, rollingCtx := s.rollingCtx ∪ taskCtx }
  ts.transitions.foldl (inspectTransition x tasks specPath schemaPath taskCtx) s

/-! ## The loop -/

variable {x tasks}

/-- What the inspection of a transition keeps, and what it puts in the queue. -/
structure Follows (tasks : TaskMappingSpec) (s s' : Traversal) : Prop where
  traversed : s'.traversed = s.traversed
  errors : s.errors <+: s'.errors
  q : ∃ new, s'.q = s.q ++ new ∧ ∀ e ∈ new, tasks.hasTask e.1 = true ∧ e.1 ∉ s.traversed

namespace Follows

variable {s s' s'' : Traversal}

theorem refl (s : Traversal) : Follows tasks s s :=
  ⟨rfl, List.prefix_rfl, [], (List.append_nil _).symm, by simp⟩

theorem trans (h : Follows tasks s s') (h' : Follows tasks s' s'') : Follows tasks s s'' := by
  obtain ⟨new, hq, hnew⟩ := h.q
  obtain ⟨new', hq', hnew'⟩ := h'.q
  refine ⟨h'.traversed.trans h.traversed, h.errors.trans h'.errors, new ++ new', ?_, ?_⟩
  · rw [hq', hq, List.append_assoc]
  · rw [h.traversed] at hnew'
    exact fun e he => (List.mem_append.mp he).elim (hnew e) (hnew' e)

end Follows

theorem inspectTransition_follows (specPath schemaPath : String) (taskCtx : Finset String)
    (s : Traversal) (entry : Option String × TaskTransitionSpec × ℕ) :
    Follows tasks s (inspectTransition x tasks specPath schemaPath taskCtx s entry) := by
  obtain ⟨next, tr, seqNum⟩ := entry
  unfold inspectTransition
  cases next with
  | none => exact ⟨rfl, List.prefix_append _ _, [], (List.append_nil _).symm, by simp⟩
  | some next =>
    dsimp only
    split_ifs with hskip hjoin hsame
    · exact ⟨rfl, List.prefix_append _ _, [], (List.append_nil _).symm, by simp⟩
    all_goals
      simp only [not_or, Bool.not_eq_false] at hskip
      obtain ⟨-, hnot, htask⟩ := hskip
    · exact ⟨rfl, List.prefix_append _ _, _, rfl, by simp [hnot, htask]⟩
    · exact ⟨rfl, List.prefix_append _ _, [], (List.append_nil _).symm, by simp⟩
    · exact ⟨rfl, List.prefix_append _ _, _, rfl, by simp [hnot, htask]⟩

theorem foldl_follows (specPath schemaPath : String) (taskCtx : Finset String)
    (entries : List (Option String × TaskTransitionSpec × ℕ)) (s : Traversal) :
    Follows tasks s
      (entries.foldl (inspectTransition x tasks specPath schemaPath taskCtx) s) := by
  induction entries generalizing s with
  | nil => exact .refl s
  | cons entry entries ih => exact (inspectTransition_follows _ _ _ s entry).trans (ih _)

theorem inspectTask_follows (parent : Parent) (s : Traversal) (t : String) (ctx : Finset String) :
    Follows tasks { s with traversed := s.traversed ++ [t] }
      (inspectTask x tasks parent s t ctx) := by
  unfold inspectTask
  dsimp only
  refine Follows.trans ?_ (foldl_follows _ _ _ _ _)
  exact ⟨rfl, List.prefix_append _ _, [], (List.append_nil _).symm, by simp⟩

/-- The names that a task of the queue may have. -/
def names (tasks : TaskMappingSpec) : List String :=
  tasks.map Prod.fst ++ engineEventMap.map Prod.fst

theorem mem_names {t : String} : t ∈ tasks.names ↔ tasks.hasTask t = true := by
  unfold names hasTask isReserved
  have hsome : ∀ {ν : Type} (d : List (String × ν)),
      (d.lookup t).isSome = true ↔ t ∈ d.map Prod.fst := fun d => by
    rw [List.lookup_isSome_iff, List.mem_map]
    refine exists_congr fun e => and_congr_right fun _ => ?_
    rw [beq_iff_eq, eq_comm]
  rw [List.mem_append, Bool.or_eq_true, hsome, hsome, or_comm]

/-- The tasks that are not traversed yet. -/
def untraversed (tasks : TaskMappingSpec) (s : Traversal) : Finset String :=
  tasks.names.toFinset \ s.traversed.toFinset

/-- The entry is left over from a task that was traversed before. -/
def Stale (tasks : TaskMappingSpec) (traversed : List String) (e : String × Finset String) : Prop :=
  e.1 ∈ traversed ∨ tasks.hasTask e.1 = false

instance (tasks : TaskMappingSpec) (traversed : List String) :
    DecidablePred (Stale tasks traversed) :=
  fun e => inferInstanceAs (Decidable (e.1 ∈ traversed ∨ tasks.hasTask e.1 = false))

/-- The tasks that are not traversed yet, and the entries that are left over. -/
def ahead (tasks : TaskMappingSpec) (s : Traversal) : ℕ × ℕ :=
  ((tasks.untraversed s).card, s.q.countP fun e => Stale tasks s.traversed e)

/-- A task that is inspected, for the first time or again, leaves less to be done. -/
theorem inspectTask_lt {parent : Parent} {s : Traversal} {t : String} {ctx : Finset String}
    {rest : List (String × Finset String)} (hq : s.q = (t, ctx) :: rest) :
    Prod.Lex (· < ·) (· < ·) (tasks.ahead (inspectTask x tasks parent { s with q := rest } t ctx))
      (tasks.ahead s) := by
  obtain ⟨htraversed, -, new, hnew, hfresh⟩ :=
    @inspectTask_follows x tasks parent { s with q := rest } t ctx
  dsimp only at htraversed hnew hfresh
  rw [ahead, ahead, hnew, untraversed, untraversed, htraversed, hq]
  by_cases ht : tasks.hasTask t = true ∧ t ∉ s.traversed
  · refine Prod.Lex.left _ _ (Finset.card_lt_card ?_)
    have hmem : t ∈ tasks.names.toFinset \ s.traversed.toFinset := by
      simp [mem_names, ht]
    refine Finset.ssubset_iff_subset_ne.mpr ⟨fun u hu => ?_, fun heq => ?_⟩
    · simp only [Finset.mem_sdiff, List.mem_toFinset, List.mem_append, not_or] at hu ⊢
      exact ⟨hu.1, hu.2.1⟩
    · rw [← heq] at hmem
      simp at hmem
  · -- the task was traversed before, and so was none of those that it leads to anew
    have hstale : Stale tasks s.traversed (t, ctx) := by
      by_contra hnot
      rw [Stale, not_or, Bool.not_eq_false] at hnot
      exact ht ⟨hnot.2, hnot.1⟩
    have hsame : ∀ e, Stale tasks (s.traversed ++ [t]) e ↔ Stale tasks s.traversed e := by
      intro e
      rw [Stale, Stale, List.mem_append, List.mem_singleton]
      refine ⟨fun h => ?_, fun h => h.imp_left .inl⟩
      rcases h with (h | h) | h
      · exact .inl h
      · exact h ▸ hstale
      · exact .inr h
    have hnone : new.countP (fun e => Stale tasks (s.traversed ++ [t]) e) = 0 := by
      refine List.countP_eq_zero.mpr fun e he hs => ?_
      rw [decide_eq_true_eq] at hs
      rcases hs with hs | hs
      · exact (hfresh e he).2 hs
      · rw [(hfresh e he).1] at hs
        cases hs
    have hrest : tasks.names.toFinset \ (s.traversed ++ [t]).toFinset
        = tasks.names.toFinset \ s.traversed.toFinset := by
      ext u
      simp only [Finset.mem_sdiff, List.mem_toFinset, mem_names]
      refine and_congr_right fun hu => not_congr ?_
      have h := hsame (u, ∅)
      simp only [Stale, hu, Bool.true_eq_false, or_false] at h
      exact h
    have hhead : ((t, ctx) :: rest).countP (fun e => Stale tasks s.traversed e)
        = rest.countP (fun e => Stale tasks s.traversed e) + 1 :=
      List.countP_cons_of_pos (decide_eq_true hstale)
    rw [hrest, List.countP_append, hnone, Nat.add_zero, hhead]
    simp only [hsame]
    exact Prod.Lex.right _ (Nat.lt_succ_self _)

variable (x tasks)

/-- The `while` loop, which takes the tasks off the queue. -/
def loop (parent : Parent) : ℕ → Traversal → Option Traversal
  | 0, s => if s.q = [] then some s else none
  | n + 1, s =>
    match s.q with
    | [] => some s
    | (t, ctx) :: q => loop parent n (inspectTask x tasks parent { s with q := q } t ctx)

/-- The start tasks, which are queued with the context of the workflow. -/
def start (parent : Parent) : Traversal :=
  ⟨[], [], [], [], parent.ctx, tasks.getStartTasks.map fun t => (t, parent.ctx)⟩

/-- `TaskMappingSpec.inspect_context`: `none` stands for more rounds of the loop than are
given. -/
def inspectContext (fuel : ℕ) (parent : Parent) : Option (List ContextError × Finset String) :=
  (loop x tasks parent fuel (tasks.start parent)).map fun s => (s.errors, s.rollingCtx)

variable {x tasks}

/-- **The loop ends.** -/
theorem loop_ends (parent : Parent) (s : Traversal) :
    ∃ fuel s', loop x tasks parent fuel s = some s' := by
  have hwf : WellFounded (Prod.Lex (· < · : ℕ → ℕ → Prop) (· < · : ℕ → ℕ → Prop)) :=
    wellFounded_lt.prod_lex wellFounded_lt
  induction s using (InvImage.wf (tasks.ahead) hwf).induction with
  | _ s ih =>
    rcases hq : s.q with - | ⟨⟨t, ctx⟩, q⟩
    · exact ⟨0, s, if_pos hq⟩
    · obtain ⟨fuel, s', h⟩ := ih _ (@inspectTask_lt x tasks parent _ _ _ _ hq)
      exact ⟨fuel + 1, s', by rw [loop, hq]; exact h⟩

end TaskMappingSpec

/-! ## The workflow -/

structure WorkflowSpec where
  input : Json
  vars : Json
  tasks : TaskMappingSpec
  output : Json
  deriving Repr

namespace WorkflowSpec

/-- The names of `_context_inputs`. -/
def contextInputs : List String := ["input", "vars", "output"]

/-- `inspect_context` of a workflow, under the application context if there is one.  The
tasks come after the input and the variables, and before the output. -/
def inspectContext (fuel : ℕ) (wf : WorkflowSpec) (parent : Option Parent) :
    Option (List ContextError × Finset String) := do
  let spec : Spec := ⟨[], contextInputs⟩
  let before := [("input", Property.value wf.input), ("vars", .value wf.vars)].foldl
    (spec.inspectProperty x parent) ([], parent.elim ∅ Parent.ctx)
  let result ← wf.tasks.inspectContext x fuel
    ⟨before.2, getSpecPath "tasks" parent, getSchemaPath "tasks" parent⟩
  let after := spec.inspectProperty x parent (before.1 ++ result.1, before.2 ∪ result.2)
    ("output", .value wf.output)
  return (after.1.insertionSort fun a b => a.specPath ≤ b.specPath, after.2)

end WorkflowSpec

end ContextInspection
end Orquesta
end IntegratedCLI
