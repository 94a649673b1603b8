import Mathlib.Logic.Relation
import IntegratedCLI.Orquesta.Updating

/-!
# The writes of a call

Everything that a call does to the state is a sequence of a few kinds of writes.
`Write` lists the kinds, and the theorems below say that each part of a call, and each
call as a whole, is a sequence of them (`Writes`).  A property of the state that every
kind of write keeps is then kept by every call, and a frame condition is checked once
for each kind of write and not once for each part of a call.

The writes that are for the task of an event are told from the others.  An item is
recorded and an entry is started only for a task and route of which `K` holds; a status is
advanced by an event, and a retry counted, only for one of which `J` holds.  With a `J`
that holds of nothing, `Writes` is about the parts that do neither.
-/

namespace IntegratedCLI
namespace Orquesta

open Effect Status

/-- One write.  `K` and `J` hold of the tasks, with their routes, that an update is for. -/
inductive Write (wf : Workflow) (K J : String → ℕ → Prop) (s : Conductor) : Conductor → Prop
  /-- The status of the workflow, the log, and the objects apart from the retries. -/
  | rest {s' : Conductor} (hseq : s'.sequence = s.sequence) (htasks : s'.tasks = s.tasks)
      (hstaged : s'.staged = s.staged) (hretries : s'.retries = s.retries) : Write wf K J s s'
  /-- The outcome of the transitions of an entry. -/
  | note (i : ℕ) (f : TaskState → TaskState)
      (hf : ∀ e, f e = { e with ctxsOut := (f e).ctxsOut, next := (f e).next, term := (f e).term }) :
      Write wf K J s (s.updateEntry i f)
  /-- An entry is told of the status that is requested for the workflow. -/
  | tell {i : ℕ} {e : TaskState} {w : Option Status} {st : Status} (he : s.sequence[i]? = some e)
      (hst : TaskStateMachine.nextStatus s e (.workflow w) = .ok (some st)) :
      Write wf K J s (s.updateEntry i fun e => { e with status := some st })
  | unstage (t : String) (r : ℕ) : Write wf K J s (s.removeStagedTask t r)
  /-- The marks of a staged task. -/
  | mark (i : ℕ) (f : StagedTask → StagedTask)
      (hf : ∀ x, f x = { x with
        ready := (f x).ready, completed := (f x).completed, runOnFail := (f x).runOnFail }) :
      Write wf K J s (s.updateStaged i f)
  /-- The items of a staged task are forgotten. -/
  | clear (i : ℕ) :
      Write wf K J s (s.updateStaged i fun x => { x with items := none, completed := false })
  /-- The items of a staged task are made, none of them run. -/
  | offer {i n : ℕ} {x : StagedTask} (hx : s.staged[i]? = some x) (hitems : x.items.getD [] = []) :
      Write wf K J s
        (s.updateStaged i fun x => { x with items := some (List.replicate n (some .unset)) })
  | stage (x : StagedTask) (hitems : x.items = none) :
      Write wf K J s { s with staged := s.staged ++ [x] }
  /-- The status of an item is recorded. -/
  | item {t : String} {r i k : ℕ} {x : StagedTask} {items : List (Option Status)}
      (st : Option Status) (hK : K t r) (hi : s.stagedIdx t r = some i)
      (hx : s.staged[i]? = some x) (hitems : x.items = some items) (hk : k < items.length) :
      Write wf K J s (s.updateStaged i fun x => { x with items := some (items.set k st) })
  /-- An entry is started, with a retry of its own if the task has one. -/
  | start {e : TaskState} {q : List Retry} (hK : K e.id e.route) (hst : e.status = none)
      (hretry : wf.graph.getTaskRetrySpec e.id = none ∧ e.retry = none ∧ q = [] ∨
        (∃ spec, wf.graph.getTaskRetrySpec e.id = some spec) ∧
          ∃ x : Retry, x.tally = 0 ∧ q = [x] ∧ e.retry = some s.retries.length) :
      Write wf K J s (pushEntry e { s with retries := s.retries ++ q })
  /-- An event gives the last entry of its task the next status. -/
  | advance {t : String} {r i : ℕ} {e : TaskState} {event : Event} {st : Status} (hJ : J t r)
      (hi : s.taskStateIdx t r = some i) (he : s.sequence[i]? = some e)
      (hst : TaskStateMachine.nextStatus s e event = .ok (some st)) :
      Write wf K J s (s.updateEntry i fun e => { e with status := some st })
  /-- A retry of the last entry of a task is counted. -/
  | count {t : String} {r i : ℕ} {e : TaskState} {x : Ref} (hJ : J t r)
      (hi : s.taskStateIdx t r = some i) (he : s.sequence[i]? = some e) (hx : e.retry = some x) :
      Write wf K J s { s with
        retries := s.retries.modify x fun retry => { retry with tally := retry.tally + 1 } }

/-- Any number of writes. -/
abbrev Writes (wf : Workflow) (K J : String → ℕ → Prop) : Conductor → Conductor → Prop :=
  Relation.ReflTransGen (Write wf K J)

section

variable {wf : Workflow} {K J : String → ℕ → Prop} {s s' : Conductor}

instance : IsPreorder Conductor (Writes wf K J) where
  refl _ := .refl
  trans _ _ _ h h' := h.trans h'

theorem Write.writes (h : Write wf K J s s') : Writes wf K J s s' := .single h

/-- **The rule for writes.**  A preorder that every write is in has any number of them
in it. -/
theorem Writes.within {R : Conductor → Conductor → Prop} [IsPreorder Conductor R]
    (hR : ∀ s s', Write wf K J s s' → R s s') (h : Writes wf K J s s') : R s s' := by
  induction h with
  | refl => exact refl_of R s
  | tail _ hw ih => exact trans_of R ih (hR _ _ hw)

/-- What every write keeps is kept by any number of them. -/
theorem Writes.keeps {P : Conductor → Prop} (hP : ∀ s s', Write wf K J s s' → P s → P s')
    (h : Writes wf K J s s') (hs : P s) : P s' :=
  Writes.within (R := Preserves P) hP h hs

theorem moves_write {g : Conductor → Conductor} (h : ∀ s, Write wf K J s (g s)) :
    Moves (Writes wf K J) (modify g : M Unit) := moves_modify fun s => (h s).writes

/-! ## What is not in the entries and the staged tasks -/

theorem OnlyDicts.writes (h : OnlyDicts s s') : Writes wf K J s s' := by
  obtain ⟨d, rfl⟩ := h
  refine Write.writes ?_
  exact .rest rfl rfl rfl rfl

theorem OnlyStatus.writes (h : OnlyStatus s s') : Writes wf K J s s' := by
  unfold OnlyStatus at h
  rw [h]
  refine Write.writes ?_
  exact .rest rfl rfl rfl rfl

theorem moves_onlyDicts {α : Type} {m : M α} (h : Moves OnlyDicts m) : Moves (Writes wf K J) m :=
  h.mono fun _ _ => OnlyDicts.writes

theorem moves_logError (e : PyError) (t : Option String) (r : Option ℕ)
    (tid : Option TransitionId) :
    Moves (Writes wf K J) (modify (Conductor.logError e t r tid) : M Unit) :=
  moves_modify fun s => (logEntry_onlyStatus _ s).writes

theorem moves_logErrors (es : List EvaluationError) (t : Option String) (r : Option ℕ)
    (tid : Option TransitionId) :
    Moves (Writes wf K J) (modify (Conductor.logErrors es t r tid) : M Unit) :=
  moves_modify fun s => (logErrors_onlyStatus es t r tid s).1.writes

theorem processTaskEvent_writes (t : String) (r : ℕ) (st : Status) :
    Moves (Writes wf K J) (WorkflowStateMachine.processTaskEvent wf t r st) := by
  refine moves_iff.mpr fun s => (processTaskEvent_outcome wf t r st s).mono ?_ ?_
  · rintro _ s' ⟨_, ⟨_, rfl⟩ | ⟨new, _, ⟨rfl, _⟩ | ⟨h, _⟩⟩⟩
    · exact .refl
    · exact OnlyStatus.writes rfl
    · exact h.writes
  · rintro _ s' ⟨rfl, _⟩
    exact .refl

theorem notifyWorkflow_writes (t : String) (r idx : ℕ) :
    Moves (Writes wf K J) (notifyWorkflow wf t r idx) := by
  unfold notifyWorkflow
  refine moves_bind moves_get fun s => ?_
  split
  · exact moves_throw _
  · exact processTaskEvent_writes t r _

theorem markTerminal_writes (idx : ℕ) : Moves (Writes wf K J) (markTerminal idx) := by
  unfold markTerminal
  refine moves_bind moves_get fun s => ?_
  split
  · exact moves_write fun s => Write.note idx _ fun _ => rfl
  · exact moves_pure _

theorem processWorkflowEvent_writes (st : Option Status) :
    Moves (Writes wf K J) (WorkflowStateMachine.processWorkflowEvent st) := by
  refine moves_iff.mpr fun s => (processWorkflowEvent_outcome st s).mono ?_ ?_
  · rintro _ s' ⟨_, ⟨_, rfl⟩ | ⟨new, _, rfl⟩⟩
    · exact .refl
    · exact OnlyStatus.writes rfl
  · rintro _ s' ⟨rfl, _⟩
    exact .refl

theorem tellTask_writes (i : ℕ) (st : Option Status) :
    Moves (Writes wf K J) (TaskStateMachine.processEvent i (.workflow st)) := by
  refine moves_iff.mpr fun s => (processEvent_outcome i _ s).mono ?_ ?_
  · rintro _ s' ⟨e, he, ⟨_, rfl⟩ | ⟨st', hst, rfl⟩⟩
    · exact .refl
    · exact (Write.tell he hst).writes
  · rintro _ s' ⟨rfl, _⟩
    exact .refl

theorem requestWorkflowStatus_writes (st : Option Status) :
    Moves (Writes wf K J) (requestWorkflowStatus st) := by
  unfold requestWorkflowStatus
  refine moves_bind moves_get fun s => ?_
  refine moves_bind (moves_forM fun p _ => tellTask_writes p.2 st) fun _ => ?_
  refine moves_bind (processWorkflowEvent_writes st) fun _ => ?_
  refine moves_bind moves_get fun s' => ?_
  dsimp only
  split
  · exact moves_pure _
  · split
    · exact moves_pure _
    · split
      · exact moves_throw _
      · exact moves_pure _

/-! ## The next tasks -/

theorem getTask_writes (t : String) (r : ℕ) : Moves (Writes wf K J) (getTask wf t r) := by
  unfold getTask
  refine moves_bind (moves_tryCatch (moves_onlyDicts (getTaskInitialContext_moves t r))
    fun e => ?_) fun vars => ?_
  · split
    · exact moves_onlyDicts (getTaskContext_moves _)
    · exact moves_throw _
  · refine moves_bind moves_get fun s => ?_
    refine moves_bind (moves_lift _) fun spec => ?_
    refine moves_bind (moves_lift _) fun actions => ?_
    refine moves_bind (moves_lift _) fun delay => ?_
    split
    · exact moves_pure _
    · exact moves_bind (moves_lift _) fun _ => moves_pure _

/-- The items that the staged task has are written as they are, or they are made. -/
theorem evaluateTaskActions_writes (task : NextTask) :
    Moves (Writes wf K J) (evaluateTaskActions task) := by
  refine moves_iff.mpr fun s => ?_
  unfold evaluateTaskActions
  split
  · exact refl_of (Writes wf K J) s
  · rename_i count _
    rw [outcome_bind, outcome_get]
    split
    · exact refl_of (Writes wf K J) s
    · rename_i i hi
      obtain ⟨x, hx, _⟩ := stagedIdx_spec hi
      rw [outcome_bind, outcome_modify, hx, Option.bind_some]
      have htrim : ∀ s', Writes wf K J s s' → Outcome (do
          let available ← lift (availableActions task.actions
            (if (x.items.getD []).isEmpty then List.replicate count (some .unset)
              else x.items.getD []) (task.concurrency.getD .null))
          return { task with actions := available.1, concurrency := some available.2 } : M NextTask)
          (fun _ => Writes wf K J s) (fun _ => Writes wf K J s) s' := fun s' h =>
        (moves_bind (moves_lift _) fun _ => moves_pure _ : Moves (Writes wf K J) _).step
          (fun _ _ h' => trans_of (Writes wf K J) h h') fun _ _ h' => trans_of (Writes wf K J) h h'
      refine htrim _ ?_
      cases hitems : x.items.getD [] with
      | nil =>
        rw [List.isEmpty_nil, if_pos rfl]
        exact (Write.offer hx hitems).writes
      | cons st items =>
        -- the items are there, so that the write changes nothing
        rw [List.isEmpty_cons, if_neg Bool.false_ne_true]
        have hsame : s.updateStaged i (fun x => { x with items := some (st :: items) }) = s := by
          have hsome : x.items = some (st :: items) := by
            cases h : x.items with
            | none =>
              rw [h] at hitems
              cases hitems
            | some l =>
              rw [h] at hitems
              exact congrArg some hitems
          show { s with staged := s.staged.modify i _ } = s
          rw [Positions.modify_self hx]
          rw [← hsome]
        rw [hsame]

theorem nextTask_writes (x : StagedTask) : Moves (Writes wf K J) (nextTask wf x) := by
  unfold nextTask
  refine moves_bind (getTask_writes _ _) fun task => ?_
  refine moves_bind (evaluateTaskActions_writes task) fun task => ?_
  refine moves_bind moves_get fun s => ?_
  extract_lets last
  split
  · exact moves_pure _
  · exact moves_pure _

theorem collectNext_writes (acc : Bool × List NextTask) (x : StagedTask) :
    Moves (Writes wf K J) (collectNext wf acc x) := by
  unfold collectNext
  refine moves_tryCatch (moves_bind (nextTask_writes x) fun task => ?_) fun e => ?_
  · split
    · exact moves_pure _
    · exact moves_pure _
  · exact moves_bind (moves_logError e _ _ _) fun _ => moves_pure _

theorem getNextTasks_writes : Moves (Writes wf K J) (getNextTasks wf) := by
  unfold getNextTasks
  refine moves_bind moves_get fun s => ?_
  extract_lets staged remediation
  split
  · exact moves_pure _
  · refine moves_bind (moves_foldlM (fun x _ acc => collectNext_writes acc x) _) fun out => ?_
    obtain ⟨failOnRendering, tasks⟩ := out
    dsimp only
    split
    · exact moves_bind (requestWorkflowStatus_writes _) fun _ => moves_pure _
    · exact moves_pure _

/-! ## Recording an event and completing a task -/

theorem unstageOnEvent_writes (t : String) (r : ℕ) (event : Event) :
    Moves (Writes wf K J) (unstageOnEvent t r event) := by
  unfold unstageOnEvent
  refine moves_bind moves_get fun s => ?_
  split
  · exact moves_write fun s => .unstage t r
  · exact moves_pure _

theorem logFailed_writes (t : String) (event : Event) :
    Moves (Writes wf K J) (logFailed t event) := by
  unfold logFailed
  split
  · exact moves_modify fun s => (logEntry_onlyStatus _ s).writes
  · exact moves_pure _

/-- The staged task that the item is recorded in is the one that was found. -/
theorem recordItem_writes {t : String} {r : ℕ} (hK : K t r) (event : Event) (s : Conductor) :
    Outcome (unstageOnEvent t r event >>= fun _ => recordItem t r (s.getStagedTask t r) event)
      (fun _ => Writes wf K J s) (fun _ => Writes wf K J s) s := by
  have hkeep : ∀ {staged : Option StagedTask},
      (∀ s', recordItem t r staged event s' = .ok () s' ∨
        ∃ x, recordItem t r staged event s' = .error x s') →
      Outcome (unstageOnEvent t r event >>= fun _ => recordItem t r staged event)
        (fun _ => Writes wf K J s) (fun _ => Writes wf K J s) s := by
    intro staged h
    rw [outcome_bind]
    refine (unstageOnEvent_writes t r event).step (fun _ s₁ h₁ => ?_) fun _ _ h => h
    unfold Outcome
    rcases h s₁ with h | ⟨_, h⟩
    · rw [h]
      exact h₁
    · rw [h]
      exact h₁
  cases hx : s.getStagedTask t r with
  | none => exact hkeep fun s' => .inl rfl
  | some x =>
    cases hitems : x.items with
    | none =>
      refine hkeep fun s' => ?_
      unfold recordItem
      cases event with
      | item itemId st result accumulated =>
        simp only [hitems]
        exact .inr ⟨_, rfl⟩
      | _ => exact .inl rfl
    | some items =>
      rw [outcome_bind]
      unfold Outcome
      rw [unstageOnEvent_items hx hitems]
      show Outcome (recordItem t r (some x) event) _ _ s
      unfold recordItem
      cases event with
      | item itemId st result accumulated =>
        simp only [hitems]
        split
        · rename_i hlt
          rw [outcome_bind, outcome_get]
          split
          · exact refl_of (Writes wf K J) s
          · rename_i i hi
            rw [getStagedTask_eq hi] at hx
            exact (Write.item st hK hi hx hitems hlt).writes
        · exact refl_of (Writes wf K J) s
      | _ => exact refl_of (Writes wf K J) s

theorem recordEvent_writes {t : String} {r : ℕ} (hK : K t r) (event : Event) :
    Moves (Writes wf K J) (recordEvent t r event) := by
  refine moves_iff.mpr fun s => ?_
  unfold recordEvent
  rw [outcome_bind, outcome_get]
  dsimp only
  rw [← bind_assoc, outcome_bind]
  refine (recordItem_writes hK event s).mono (fun _ s₁ h₁ => ?_) fun _ _ h => h
  exact (logFailed_writes t event).step (fun _ _ h => trans_of (Writes wf K J) h₁ h)
    fun _ _ h => trans_of (Writes wf K J) h₁ h

theorem closeStaged_writes (spec : TaskSpec) (t : String) (r : ℕ) (st : Status) :
    Moves (Writes wf K J) (closeStaged spec t r st) := by
  unfold closeStaged
  split
  · refine moves_bind moves_get fun s => ?_
    split
    · exact moves_throw _
    · exact moves_write fun s => .mark _ _ fun _ => rfl
  · exact moves_write fun s => .unstage t r

theorem completeTask_writes (spec : TaskSpec) (t : String) (r idx : ℕ) (st : Status)
    (event : Event) : Moves (Writes wf K J) (completeTask spec t r idx st event) :=
  moves_bind (closeStaged_writes spec t r st) fun _ => moves_onlyDicts (makeTaskContext_moves idx _)

theorem needsRetry_writes (idx : ℕ) (ctx : EvalContext) :
    Moves (Writes wf K J) (needsRetry wf idx ctx) :=
  (needsRetry_moves wf idx ctx).mono fun s s' (h : s' = s) => h ▸ refl_of (Writes wf K J) s'

/-! ## The transitions of a completed task -/

theorem addStagedTask_writes (t : String) (r : ℕ) (ctxs prev : Ref) (ready : Bool)
    (retry : Option Ref) (s : Conductor) :
    Writes wf K J s (s.addStagedTask t r ctxs prev ready retry) := by
  obtain ⟨⟨l, p, q, d, _, hs⟩, _⟩ := orRoot_alloc s ctxs
  have hretries : (s.orRoot ctxs).2.retries = s.retries := by
    unfold Conductor.orRoot
    split <;> rfl
  have hrest : Writes wf K J s (s.orRoot ctxs).2 := by
    refine Write.writes (.rest ?_ ?_ ?_ hretries)
    · rw [hs]
    · rw [hs]
    · rw [hs]
  exact hrest.tail (.stage ⟨t, r, (s.orRoot ctxs).1, prev, ready, none, false, false, retry⟩ rfl)

theorem stageNext_writes (t : String) (edge : Edge) (idx route : ℕ) (ctxs : List ℕ) :
    Moves (Writes wf K J) (stageNext t edge idx route ctxs) := by
  refine moves_iff.mpr fun s => (stageNext_outcome t edge idx route ctxs s).mono ?_ ?_
  · rintro i s' (⟨i, x, _, _, _, rfl⟩ | ⟨_, rfl⟩)
    · refine trans_of (Writes wf K J) (b := { s with
        lists := s.lists.modify x.ctxsIn (· ++ ctxs.erase 0)
        prevs := s.prevs.modify x.prev fun p => Dict.put p ⟨t, edge.key⟩ idx }) ?_ ?_
      · exact .single (.rest rfl rfl rfl rfl)
      · exact .single (.clear i)
    · refine trans_of (Writes wf K J) (b := { s with
        lists := s.lists ++ [ctxs], prevs := s.prevs ++ [[(⟨t, edge.key⟩, idx)]] }) ?_ ?_
      · exact .single (.rest rfl rfl rfl rfl)
      · exact addStagedTask_writes _ _ _ _ _ _ _
  · rintro _ s' rfl
    exact .refl

theorem evaluateRoute_writes (edge : Edge) (r : ℕ) : Moves (Writes wf K J) (evaluateRoute wf edge r) := by
  refine moves_iff.mpr fun s => (evaluateRoute_outcome wf edge r s).mono ?_ ?_
  · rintro route s' (⟨_, rfl, _⟩ | ⟨ids, _, rfl⟩)
    · exact .refl
    · exact .single (.rest rfl rfl rfl rfl)
  · rintro _ s' rfl
    exact .refl

theorem stageTaken_writes (t : String) (r idx : ℕ) (out : Outgoing) (edge : Edge)
    (ctxs : List ℕ) : Moves (Writes wf K J) (stageTaken wf t r idx out edge ctxs) := by
  unfold stageTaken
  refine moves_bind (evaluateRoute_writes edge r) fun route => ?_
  refine moves_bind (stageNext_writes t edge idx route ctxs) fun i => ?_
  refine moves_bind moves_get fun s => ?_
  dsimp only
  refine moves_bind (moves_write fun s => .mark i _ fun _ => rfl) fun _ => ?_
  split
  · exact moves_pure _
  · split
    · exact moves_pure _
    · exact moves_pure _

theorem appendContext_writes (vars : List (String × Json)) :
    Moves (Writes wf K J) (appendContext vars) := by
  refine moves_iff.mpr fun s => (appendContext_outcome vars s).mono ?_ fun _ _ h => h.elim
  rintro i s' ⟨_, r, d, rfl⟩
  exact .single (.rest rfl rfl rfl rfl)

theorem takeTransition_writes (spec : TaskSpec) (t : String) (r idx : ℕ) (ctx : EvalContext)
    (out : Outgoing) (edge : Edge) :
    Moves (Writes wf K J) (takeTransition wf spec t r idx ctx out edge) := by
  rw [takeTransition_eq]
  refine moves_bind (moves_lift _) fun result => ?_
  obtain ⟨vars, errors⟩ := result
  dsimp only
  split
  · refine moves_bind (moves_logErrors _ _ _ _) fun _ => ?_
    exact moves_bind (requestWorkflowStatus_writes _) fun _ => moves_pure _
  · refine moves_bind moves_get fun s => ?_
    split
    · exact stageTaken_writes t r idx out edge _
    · refine moves_bind (appendContext_writes vars) fun new => ?_
      refine moves_bind (moves_write fun s => .note idx _ fun _ => rfl) fun _ => ?_
      exact stageTaken_writes t r idx out edge _

theorem stageTransition_writes (spec : TaskSpec) (t : String) (r idx : ℕ) (ctx : EvalContext)
    (out : Outgoing) (edge : Edge) :
    Moves (Writes wf K J) (stageTransition wf spec t r idx ctx out edge) := by
  unfold stageTransition
  dsimp only
  split
  · refine moves_bind (moves_logError _ _ _ _) fun _ => ?_
    exact moves_bind (requestWorkflowStatus_writes _) fun _ => moves_pure _
  · refine moves_bind (moves_write fun s => .note idx _ fun _ => rfl) fun _ => ?_
    split
    · exact takeTransition_writes spec t r idx ctx out edge
    · exact moves_pure _

theorem stageTransitions_writes (spec : TaskSpec) (t : String) (r idx : ℕ) (ctx : EvalContext) :
    Moves (Writes wf K J) (stageTransitions wf spec t r idx ctx) := by
  unfold stageTransitions
  dsimp only
  have hloop : Moves (Writes wf K J) (do
      let out ← (wf.graph.getNextTransitions t).foldlM (stageTransition wf spec t r idx ctx)
        ⟨[], false, []⟩
      if out.manualFail then
        forM out.readyNext fun i =>
          modify (Conductor.updateStaged i fun x => { x with runOnFail := true })
      else pure ()
      return out.commands) := by
    refine moves_bind (moves_foldlM (fun edge _ out => ?_) _) fun out => ?_
    · exact stageTransition_writes spec t r idx ctx out edge
    · dsimp only
      split
      · refine moves_bind (moves_forM fun i _ => ?_) fun _ => moves_pure _
        exact moves_write fun s => .mark i _ fun _ => rfl
      · exact moves_pure _
  split
  · refine moves_bind (moves_write fun s => .note idx _ fun _ => rfl) fun _ => hloop
  · exact hloop

/-! ## Starting an entry -/

/-- A new retry is not counted yet. -/
theorem setupRetry_tally (spec : RetrySpec) (ctxs : Ref) (s : Conductor) :
    Outcome (setupRetry wf spec ctxs) (fun x _ => x.tally = 0) (fun _ _ => True) s := by
  have hcount : ∀ (delay : Option ℤ) (vars : List (String × Json)) (s : Conductor), Outcome (do
      let count ← lift (evaluateInt wf ⟨vars, none, none, none⟩
        (.valueError "The retry count is not an integer.") spec.count)
      return ⟨spec.when, count, delay, 0⟩ : M Retry) (fun x _ => x.tally = 0)
      (fun _ _ => True) s := by
    intro delay vars s
    rw [outcome_bind]
    exact outcome_true.mono (fun _ _ _ => rfl) fun _ _ _ => trivial
  unfold setupRetry
  rw [outcome_bind, outcome_get, outcome_bind]
  refine outcome_true.mono (fun vars s₁ _ => ?_) fun _ _ _ => trivial
  dsimp only
  split
  · rw [outcome_bind, outcome_pure]
    exact hcount _ vars s₁
  · rw [outcome_bind]
    exact outcome_true.mono (fun delay s₂ _ => hcount delay vars s₂) fun _ _ _ => trivial

theorem addTaskState_writes {t : String} {r : ℕ} (hK : K t r) (ctxs prev : Ref) :
    Moves (Writes wf K J) (addTaskState wf t r ctxs prev) := by
  refine moves_iff.mpr fun s => ?_
  unfold addTaskState
  split
  · exact refl_of (Writes wf K J) s
  · have hroot : Writes wf K J s (s.orRoot ctxs).2 := by
      unfold Conductor.orRoot
      split
      · exact .single (.rest rfl rfl rfl rfl)
      · exact .refl
    have hempty : ∀ s, Writes wf K J s (Conductor.orEmpty prev s).2 := by
      intro s
      unfold Conductor.orEmpty
      split
      · exact .single (.rest rfl rfl rfl rfl)
      · exact .refl
    have hobjects := trans_of (Writes wf K J) hroot (hempty _)
    simp only [outcome_bind, outcome_get, outcome_set]
    split
    · rename_i hretry
      refine hobjects.tail ?_
      have hstart := Write.start (K := K) (J := J)
        (s := (Conductor.orEmpty prev (Conductor.orRoot ctxs s).2).2)
        (e := ⟨t, r, (Conductor.orRoot ctxs s).1, none,
          (Conductor.orEmpty prev (Conductor.orRoot ctxs s).2).1, [], none, none, false⟩)
        hK rfl (Or.inl ⟨hretry, rfl, rfl⟩)
      rw [List.append_nil] at hstart
      exact hstart
    · rename_i spec hretry
      rw [outcome_bind]
      refine (((setupRetry_moves wf spec _).outcome _).and (setupRetry_tally spec _ _)).mono ?_ ?_
      · rintro x s₁ ⟨h₁, hx⟩
        simp only [outcome_bind, outcome_get, outcome_set]
        refine (trans_of (Writes wf K J) hobjects h₁.writes).tail ?_
        exact .start hK rfl (Or.inr ⟨⟨spec, hretry⟩, x, hx, rfl, rfl⟩)
      · rintro _ s₁ ⟨h₁, _⟩
        exact trans_of (Writes wf K J) hobjects h₁.writes

/-- An entry is started for the route of the staged task. -/
theorem startEntry_writes {t : String} {r : ℕ} (hK : K t r) (s₀ : Conductor) :
    Moves (Writes wf K J) (startEntry wf t (s₀.getStagedTask t r)) := by
  unfold startEntry
  split
  · exact moves_throw _
  · rename_i x hx
    obtain ⟨_, _, hroute⟩ := getStagedTask_spec hx
    rw [hroute]
    exact addTaskState_writes hK _ _

theorem openEntry_writes {t : String} {r : ℕ} (hK : K t r) (event : Event) :
    Moves (Writes wf K J) (openEntry wf t r event) := by
  have hensure : ∀ s₀ : Conductor,
      Moves (Writes wf K J) (ensureEntry wf t r (s₀.getStagedTask t r)) := by
    intro s₀
    unfold ensureEntry
    refine moves_bind moves_get fun s => ?_
    split
    · exact startEntry_writes hK s₀
    · exact moves_pure _
  have hrenew : ∀ s₀ : Conductor,
      Moves (Writes wf K J) (renewEntry wf t r (s₀.getStagedTask t r) event) := by
    intro s₀
    unfold renewEntry
    refine moves_bind moves_get fun s => ?_
    split
    · exact moves_throw _
    · split
      · exact startEntry_writes hK s₀
      · exact moves_pure _
  unfold openEntry
  refine moves_bind moves_get fun s => ?_
  refine moves_bind (hensure s) fun _ => moves_bind (hrenew s) fun _ => ?_
  refine moves_bind moves_get fun s => ?_
  split
  · exact moves_throw _
  · exact moves_pure _

/-! ## Updates -/

/-- The last entry of the task is at the position. -/
def At (t : String) (r idx : ℕ) (s : Conductor) : Prop := s.taskStateIdx t r = some idx

/-- Only a new entry changes which entry of a task is the last one. -/
theorem Thins.at {t : String} {r idx : ℕ} (h : Thins s s') (hs : At t r idx s) : At t r idx s' := by
  unfold At Conductor.taskStateIdx at *
  rw [h.tasks]
  exact hs

/-- The first half of an update opens the entry `e` and records the event, which leads to
`s₁`; then the event gives the entry its next status, if there is one. -/
structure Begun (wf : Workflow) (t : String) (r : ℕ) (event : Event) (s : Conductor) (p : Progress)
    (s₀ s₁ : Conductor) (e : TaskState) (s' : Conductor) : Prop where
  opened : openEntry wf t r event s = .ok p.idx s₀
  recorded : recordEvent t r event s₀ = .ok () s₁
  last : At t r p.idx s₁
  entry : s₁.sequence[p.idx]? = some e
  old : p.old = e.statusOrUnset
  next : TaskStateMachine.nextStatus s₁ e event = .ok none ∧ p.new = p.old ∧ s' = s₁ ∨
    TaskStateMachine.nextStatus s₁ e event = .ok (some p.new) ∧
      s' = s₁.updateEntry p.idx fun e => { e with status := some p.new }

theorem beginUpdate_begun {t : String} {r : ℕ} (hK : K t r) (event : Event) (s : Conductor) :
    Outcome (beginUpdate wf t r event)
      (fun p s' => ∃ s₀ s₁ e, Writes wf K J s s₁ ∧ Begun wf t r event s p s₀ s₁ e s')
      (fun _ s' => Writes wf K J s s') s := by
  have hread : ∀ {s : Conductor} {idx : ℕ} {e : TaskState}, s.sequence[idx]? = some e →
      Outcome (statusAt idx) (fun st s' => st = e.statusOrUnset ∧ s' = s) (fun _ _ => False) s := by
    intro s idx e he
    rw [statusAt, outcome_bind, outcome_get, outcome_pure, he]
    exact ⟨rfl, rfl⟩
  unfold beginUpdate
  split
  · exact refl_of (Writes wf K J) s
  · simp only [outcome_bind, outcome_get]
    refine (moves_lift (R := Keeps id) _).step (fun spec s' hs' => ?_) fun _ s' hs' => ?_
    · obtain rfl : s' = s := hs'
      split
      · exact refl_of (Writes wf K J) s'
      · rw [outcome_bind]
        refine (((openEntry_writes hK event).outcome s').and
          ((openEntry_outcome wf t r event s').and outcome_run)).mono ?_ fun _ _ h => h.1
        rintro idx s₀ ⟨h₀, ⟨hidx, _⟩, hopen⟩
        rw [outcome_bind]
        refine (((recordEvent_writes hK event).outcome s₀).and
          (((recordEvent_thins t r event).outcome s₀).and outcome_run)).mono ?_
          fun _ _ h => h₀.trans h.1
        rintro _ s₁ ⟨h₁, hthins, hrecord⟩
        have hidx₁ : At t r idx s₁ := hthins.at hidx
        rw [outcome_bind]
        unfold statusAt
        rw [outcome_bind, outcome_get, outcome_pure, outcome_bind]
        refine (processEvent_outcome idx event s₁).mono ?_ ?_
        · rintro _ s₂ ⟨e, he, ⟨hst, rfl⟩ | ⟨st, hst, rfl⟩⟩
          · rw [outcome_bind]
            refine (hread he).mono ?_ fun _ _ h => h.elim
            rintro new s₃ ⟨rfl, rfl⟩
            refine ⟨s₀, s₃, e, h₀.trans h₁, hopen, hrecord, hidx₁, he, ?_, Or.inl ⟨hst, ?_, rfl⟩⟩
            · rw [he]
              rfl
            · rw [he]
              rfl
          · have he' : (s₁.updateEntry idx fun e => { e with status := some st }).sequence[idx]? =
                some { e with status := some st } := by
              show (s₁.sequence.modify _ _)[_]? = _
              rw [Positions.getElem?_modify, if_pos rfl, he, Option.map_some]
            rw [outcome_bind]
            refine (hread he').mono ?_ fun _ _ h => h.elim
            rintro new s₃ ⟨rfl, rfl⟩
            refine ⟨s₀, s₁, e, h₀.trans h₁, hopen, hrecord, hidx₁, he, ?_, Or.inr ⟨hst, rfl⟩⟩
            rw [he]
            rfl
        · rintro _ s₂ ⟨rfl, _⟩
          exact h₀.trans h₁
    · obtain rfl : s' = s := hs'
      exact .refl

theorem beginUpdate_writes {t : String} {r : ℕ} (hK : K t r) (hJ : J t r) (event : Event)
    (s : Conductor) :
    Outcome (beginUpdate wf t r event) (fun p s' => Writes wf K J s s' ∧ At t r p.idx s')
      (fun _ => Writes wf K J s) s := by
  refine (beginUpdate_begun hK event s).mono ?_ fun _ _ h => h
  rintro p s' ⟨_, s₁, e, h₁, hbegun⟩
  rcases hbegun.next with ⟨_, _, rfl⟩ | ⟨hst, rfl⟩
  · exact ⟨h₁, hbegun.last⟩
  · exact ⟨h₁.tail (.advance hJ hbegun.last hbegun.entry hst), hbegun.last⟩

theorem restage_writes {t : String} {r idx : ℕ} (hJ : J t r) {s : Conductor}
    (hidx : At t r idx s) :
    Outcome (restage t r idx) (fun _ => Writes wf K J s) (fun _ => Writes wf K J s) s := by
  unfold restage
  simp only [outcome_bind, outcome_get]
  split
  · exact refl_of (Writes wf K J) s
  · rename_i e he
    split
    · exact refl_of (Writes wf K J) s
    · rename_i x hx
      simp only [outcome_bind, outcome_modify]
      refine trans_of (Writes wf K J) (.single (.count hJ hidx he hx)) ?_
      exact trans_of (Writes wf K J) (.single (.unstage t r)) (addStagedTask_writes _ _ _ _ _ _ _)

/-- What follows from a new status is a sequence of writes, if the engine commands are. -/
theorem finishUpdate_writes {command : String × ℕ → M Unit}
    (hcommand : ∀ c : String × ℕ, isReserved c.1 = true → Moves (Writes wf K J) (command c))
    (spec : TaskSpec) (t : String) (r idx : ℕ) (old new : Status) (ctx : EvalContext) :
    Moves (Writes wf K J) (finishUpdate wf spec t r idx old new ctx command) := by
  have htail : ∀ commands : List (String × ℕ), (∀ c ∈ commands, isReserved c.1 = true) →
      Moves (Writes wf K J) (do
        notifyWorkflow wf t r idx
        forM commands command
        markTerminal idx) := by
    intro commands hcommands
    refine moves_bind (notifyWorkflow_writes t r idx) fun _ => ?_
    refine moves_bind (moves_forM fun c hc => ?_) fun _ => markTerminal_writes idx
    exact hcommand c (hcommands c hc)
  unfold finishUpdate
  dsimp only
  split
  · refine moves_iff.mpr fun s => ?_
    rw [outcome_bind]
    refine (((stageTransitions_writes spec t r idx ctx).outcome s).and
      (stageTransitions_reserved wf spec t r idx ctx s)).mono ?_ fun _ _ h => h.1
    rintro commands s₁ ⟨h₁, hcommands⟩
    exact (htail commands hcommands).step (fun _ _ h => h₁.trans h) fun _ _ h => h₁.trans h
  · exact htail [] (by simp)

/-- **An update** is a sequence of writes.  It is for its own task and for the engine
commands that follow from it. -/
theorem updateTaskStateTo_writes (hres : ∀ t r, isReserved t = true → K t r ∧ J t r) (n : ℕ) :
    ∀ {t : String} {r : ℕ} (event : Event), K t r → J t r →
      Moves (Writes wf K J) (updateTaskStateTo wf n t r event) := by
  induction n with
  | zero => exact fun _ _ _ => moves_throw _
  | succ n ih =>
    intro t r event hK hJ
    have hfinish : ∀ (p : Progress) (ctx : EvalContext), Moves (Writes wf K J)
        (finishUpdate wf p.spec t r p.idx p.old p.new ctx fun c =>
          updateTaskStateTo wf n c.1 c.2 (commandEvent c)) := by
      refine fun p ctx => finishUpdate_writes (fun c hc => ?_) p.spec t r p.idx p.old p.new ctx
      obtain ⟨hK, hJ⟩ := hres c.1 c.2 hc
      exact ih _ hK hJ
    refine moves_iff.mpr fun s => ?_
    rw [updateTaskStateTo_succ, outcome_bind]
    refine (beginUpdate_writes hK hJ event s).mono ?_ fun _ _ h => h
    rintro p s₁ ⟨h₁, hidx⟩
    have hafter : ∀ {m : M Unit} {s₂ : Conductor}, Moves (Writes wf K J) m → Writes wf K J s s₂ →
        Outcome m (fun _ => Writes wf K J s) (fun _ => Writes wf K J s) s₂ :=
      fun hm h₂ => hm.step (fun _ _ h => h₂.trans h) fun _ _ h => h₂.trans h
    have hrest : ∀ s₂, Writes wf K J s s₂ → Outcome (do
        if p.new ∈ completedStatuses then
          let ctx ← completeTask p.spec t r p.idx p.new event
          if ← needsRetry wf p.idx ctx then updateTaskStateTo wf n t r (.operation .taskRetry)
          else finishUpdate wf p.spec t r p.idx p.old p.new ctx fun c =>
            updateTaskStateTo wf n c.1 c.2 (commandEvent c)
        else finishUpdate wf p.spec t r p.idx p.old p.new ⟨[], none, none, none⟩ fun c =>
          updateTaskStateTo wf n c.1 c.2 (commandEvent c) : M Unit)
        (fun _ => Writes wf K J s) (fun _ => Writes wf K J s) s₂ := by
      intro s₂ h₂
      split
      · refine hafter (moves_bind (completeTask_writes p.spec t r p.idx p.new event) fun ctx => ?_)
          h₂
        refine moves_bind (needsRetry_writes p.idx ctx) fun due => ?_
        split
        · exact ih _ hK hJ
        · exact hfinish p ctx
      · exact hafter (hfinish p _) h₂
    unfold continueUpdate
    dsimp only
    split
    · rw [outcome_bind]
      refine (restage_writes hJ hidx).mono (fun _ s₂ h₂ => hrest s₂ (h₁.trans h₂))
        fun _ _ h => h₁.trans h
    · exact hrest s₁ h₁

/-! ## A new workflow -/

theorem mergeFields_writes (d : Ref) (vars : List (String × Json)) :
    Moves (Writes wf K J) (mergeFields d vars) := by
  unfold mergeFields
  refine moves_bind (moves_onlyDicts (loadDict_moves vars)) fun d' => ?_
  exact moves_write fun s => .rest rfl rfl rfl rfl

theorem stageRoots_writes : Moves (Writes wf K J) (stageRoots wf) := by
  refine moves_forM fun t _ => moves_iff.mpr fun s => ?_
  rw [outcome_bind, outcome_get]
  dsimp only
  rw [outcome_set]
  refine trans_of (Writes wf K J) (b := ((s.allocList [0]).2.allocPrev []).2) ?_ ?_
  · exact .single (.rest rfl rfl rfl rfl)
  · exact addStagedTask_writes _ _ _ _ _ _ _

theorem makeWorkflowState_writes : Moves (Writes wf K J) (makeWorkflowState wf) := by
  have hend : ∀ d : Ref, Moves (Writes wf K J) (do
      let s ← get
      if s.status ∈ abendedStatuses then return
      else
        modify fun s => { s with contexts := s.contexts ++ [d], routes := s.routes ++ [[]] }
        stageRoots wf : M Unit) := by
    intro d
    refine moves_bind moves_get fun s => ?_
    split
    · exact moves_pure _
    · exact moves_bind (moves_write fun s => .rest rfl rfl rfl rfl) fun _ => stageRoots_writes
  unfold makeWorkflowState
  refine moves_bind (moves_onlyDicts (loadDict_moves _)) fun d => ?_
  dsimp only
  refine moves_bind (mergeFields_writes d _) fun _ => moves_bind moves_get fun s => ?_
  refine moves_bind (mergeFields_writes d _) fun _ => ?_
  split
  · refine moves_bind (moves_logErrors _ _ _ _) fun _ => ?_
    exact moves_bind (requestWorkflowStatus_writes _) fun _ => hend d
  · exact hend d

theorem init_writes (wf : Workflow) : Writes wf K J .empty (.init wf) := makeWorkflowState_writes _

end

end Orquesta
end IntegratedCLI
