import IntegratedCLI.Orquesta.Composed
import IntegratedCLI.Orquesta.Frames

/-!
# What a call does to the skeleton of the state

The skeleton of the state (`Core`) is what the entries of the sequence and the staged
tasks are about: the task and the route, and the objects with the contexts and the
back references.  Most of what a call does leaves the skeleton as it is, but for
staged tasks that are taken away (`Thins`).  There are three exceptions: a new entry
is started, a task that is retried is staged again, and the transitions of a
completed task stage the next tasks.

`update_rule` is the rule for a property of the state that `Thins` keeps: it is kept
by `update_task_state` if it is kept by the three exceptions.  The last two may ask for
a condition, and then the rule asks that the update `admits` it: it is what the
condition says at the point of the update where the exception is about to happen.
The engine commands that an update gives itself reach neither.
-/

namespace IntegratedCLI
namespace Orquesta

open Effect Status

/-! ## The skeleton -/

/-- What an entry is about. -/
structure Core where
  id : String
  route : ℕ
  ctxsIn : Ref
  prev : Ref
  deriving DecidableEq, Repr

def TaskStateOf.core (e : TaskState) : Core := ⟨e.id, e.route, e.ctxsIn, e.prev⟩

def StagedTaskOf.core (x : StagedTask) : Core := ⟨x.id, x.route, x.ctxsIn, x.prev⟩

namespace Conductor

/-- The entries of the sequence. -/
def started (s : Conductor) : List Core := s.sequence.map TaskStateOf.core

/-- The staged tasks. -/
def waiting (s : Conductor) : List Core := s.staged.map StagedTaskOf.core

@[simp] theorem length_started (s : Conductor) : s.started.length = s.sequence.length := by
  simp [started]

theorem started_getElem? {s : Conductor} {i : ℕ} {e : TaskState} (h : s.sequence[i]? = some e) :
    s.started[i]? = some e.core := by
  rw [started, List.getElem?_map, h, Option.map_some]

theorem core_mem_waiting {s : Conductor} {x : StagedTask} (h : x ∈ s.staged) :
    x.core ∈ s.waiting := List.mem_map_of_mem h

end Conductor

/-- The skeleton is as it was, but for staged tasks that are gone. -/
structure Thins (s s' : Conductor) : Prop where
  contexts : s'.contexts = s.contexts
  routes : s'.routes = s.routes
  tasks : s'.tasks = s.tasks
  lists : s'.lists = s.lists
  prevs : s'.prevs = s.prevs
  started : s'.started = s.started
  waiting : s'.waiting.Sublist s.waiting

instance : IsPreorder Conductor Thins where
  refl _ := ⟨rfl, rfl, rfl, rfl, rfl, rfl, List.Sublist.refl _⟩
  trans _ _ _ h h' :=
    ⟨h'.contexts.trans h.contexts, h'.routes.trans h.routes, h'.tasks.trans h.tasks,
      h'.lists.trans h.lists, h'.prevs.trans h.prevs, h'.started.trans h.started,
      h'.waiting.trans h.waiting⟩

theorem OnlyDicts.thins {s s' : Conductor} (h : OnlyDicts s s') : Thins s s' := by
  obtain ⟨d, rfl⟩ := h
  exact ⟨rfl, rfl, rfl, rfl, rfl, rfl, List.Sublist.refl _⟩

theorem OnlyStatus.thins {s s' : Conductor} (h : OnlyStatus s s') : Thins s s' := by
  unfold OnlyStatus at h
  rw [h]
  exact ⟨rfl, rfl, rfl, rfl, rfl, rfl, List.Sublist.refl _⟩

theorem thins_updateEntry {f : TaskState → TaskState} (h : ∀ e, (f e).core = e.core) (idx : ℕ)
    (s : Conductor) : Thins s (s.updateEntry idx f) :=
  ⟨rfl, rfl, rfl, rfl, rfl, Positions.map_modify h, List.Sublist.refl _⟩

theorem thins_updateStaged {f : StagedTask → StagedTask} (h : ∀ x, (f x).core = x.core) (i : ℕ)
    (s : Conductor) : Thins s (s.updateStaged i f) :=
  ⟨rfl, rfl, rfl, rfl, rfl, rfl, by
    show ((s.staged.modify i f).map StagedTaskOf.core).Sublist _
    rw [Positions.map_modify h]
    exact List.Sublist.refl _⟩

theorem moves_updateEntry {idx : ℕ} {f : TaskState → TaskState} (h : ∀ e, (f e).core = e.core) :
    Moves Thins (modify (Conductor.updateEntry idx f) : M Unit) :=
  moves_modify fun s => thins_updateEntry h idx s

theorem moves_updateStaged {i : ℕ} {f : StagedTask → StagedTask} (h : ∀ x, (f x).core = x.core) :
    Moves Thins (modify (Conductor.updateStaged i f) : M Unit) :=
  moves_modify fun s => thins_updateStaged h i s

theorem thins_removeStagedTask (t : String) (r : ℕ) (s : Conductor) :
    Thins s (s.removeStagedTask t r) := by
  unfold Conductor.removeStagedTask
  split
  · exact refl_of Thins s
  · split
    · exact refl_of Thins s
    · exact ⟨rfl, rfl, rfl, rfl, rfl, rfl, (List.eraseIdx_sublist _ _).map _⟩

theorem thins_logError (e : PyError) (t : Option String) (r : Option ℕ)
    (tid : Option TransitionId) (s : Conductor) : Thins s (s.logError e t r tid) :=
  (logEntry_onlyStatus _ s).thins

/-! ## The parts of an update -/

theorem unstageOnEvent_thins (t : String) (r : ℕ) (event : Event) :
    Moves Thins (unstageOnEvent t r event) := by
  unfold unstageOnEvent
  refine moves_bind moves_get fun s => ?_
  split
  · exact moves_modify fun s => thins_removeStagedTask t r s
  · exact moves_pure _

theorem recordItem_thins (t : String) (r : ℕ) (staged : Option StagedTask) (event : Event) :
    Moves Thins (recordItem t r staged event) := by
  unfold recordItem
  split
  · split
    · exact moves_throw _
    · split
      · refine moves_bind moves_get fun s => ?_
        split
        · exact moves_pure _
        · exact moves_updateStaged fun _ => rfl
      · exact moves_throw _
  · exact moves_pure _

theorem logFailed_thins (t : String) (event : Event) : Moves Thins (logFailed t event) := by
  unfold logFailed
  split
  · exact moves_modify fun s => (logEntry_onlyStatus _ s).thins
  · exact moves_pure _

theorem recordEvent_thins (t : String) (r : ℕ) (event : Event) :
    Moves Thins (recordEvent t r event) := by
  unfold recordEvent
  refine moves_bind moves_get fun s => ?_
  refine moves_bind (unstageOnEvent_thins t r event) fun _ => ?_
  exact moves_bind (recordItem_thins t r _ event) fun _ => logFailed_thins t event

theorem StatusAt.thins {idx : ℕ} {s s' : Conductor} (h : StatusAt idx s s') : Thins s s' := by
  rcases h with rfl | ⟨st, rfl⟩
  · exact refl_of Thins s'
  · refine thins_updateEntry ?_ idx s
    exact fun _ => rfl

theorem processEvent_thins (idx : ℕ) (event : Event) :
    Moves Thins (TaskStateMachine.processEvent idx event) :=
  fun s => (processEvent_statusAt idx event s).thins

theorem statusAt_thins (idx : ℕ) : Moves Thins (statusAt idx) :=
  moves_bind moves_get fun _ => moves_pure _

theorem closeStaged_thins (spec : TaskSpec) (t : String) (r : ℕ) (st : Status) :
    Moves Thins (closeStaged spec t r st) := by
  unfold closeStaged
  split
  · refine moves_bind moves_get fun s => ?_
    split
    · exact moves_throw _
    · exact moves_updateStaged fun _ => rfl
  · exact moves_modify fun s => thins_removeStagedTask t r s

theorem completeTask_thins (spec : TaskSpec) (t : String) (r idx : ℕ) (st : Status)
    (event : Event) : Moves Thins (completeTask spec t r idx st event) :=
  moves_bind (closeStaged_thins spec t r st) fun _ =>
    (makeTaskContext_moves idx _).mono fun _ _ => OnlyDicts.thins

theorem needsRetry_thins (wf : Workflow) (idx : ℕ) (ctx : EvalContext) :
    Moves Thins (needsRetry wf idx ctx) :=
  (needsRetry_moves wf idx ctx).mono fun s s' (h : s' = s) => h ▸ refl_of Thins s'

theorem processTaskEvent_thins (wf : Workflow) (t : String) (r : ℕ) (st : Status) :
    Moves Thins (WorkflowStateMachine.processTaskEvent wf t r st) := by
  refine moves_iff.mpr fun s => (processTaskEvent_outcome wf t r st s).mono ?_ ?_
  · rintro _ s' ⟨_, ⟨_, rfl⟩ | ⟨new, _, ⟨rfl, _⟩ | ⟨h, _⟩⟩⟩
    · exact refl_of Thins s'
    · exact OnlyStatus.thins rfl
    · exact h.thins
  · rintro _ s' ⟨rfl, _⟩
    exact refl_of Thins s'

theorem notifyWorkflow_thins (wf : Workflow) (t : String) (r idx : ℕ) :
    Moves Thins (notifyWorkflow wf t r idx) := by
  unfold notifyWorkflow
  refine moves_bind moves_get fun s => ?_
  split
  · exact moves_throw _
  · exact processTaskEvent_thins wf t r _

theorem markTerminal_thins (idx : ℕ) : Moves Thins (markTerminal idx) := by
  unfold markTerminal
  refine moves_bind moves_get fun s => ?_
  split
  · exact moves_updateEntry fun _ => rfl
  · exact moves_pure _

/-! ## The other calls -/

theorem processWorkflowEvent_thins (st : Option Status) :
    Moves Thins (WorkflowStateMachine.processWorkflowEvent st) := by
  refine moves_iff.mpr fun s => (processWorkflowEvent_outcome st s).mono ?_ ?_
  · rintro _ s' ⟨_, ⟨_, rfl⟩ | ⟨new, _, rfl⟩⟩
    · exact refl_of Thins s'
    · exact OnlyStatus.thins rfl
  · rintro _ s' ⟨rfl, _⟩
    exact refl_of Thins s'

theorem requestWorkflowStatus_thins (st : Option Status) :
    Moves Thins (requestWorkflowStatus st) := by
  unfold requestWorkflowStatus
  refine moves_bind moves_get fun s => ?_
  refine moves_bind (moves_forM fun p _ => processEvent_thins p.2 _) fun _ => ?_
  refine moves_bind (processWorkflowEvent_thins st) fun _ => ?_
  refine moves_bind moves_get fun s' => ?_
  dsimp only
  split
  · exact moves_pure _
  · split
    · exact moves_pure _
    · split
      · exact moves_throw _
      · exact moves_pure _

theorem getTask_thins (wf : Workflow) (t : String) (r : ℕ) : Moves Thins (getTask wf t r) := by
  have hctx : ∀ {m : M (List (String × Json))}, Moves OnlyDicts m → Moves Thins m :=
    fun h => h.mono fun _ _ => OnlyDicts.thins
  unfold getTask
  refine moves_bind (moves_tryCatch (hctx (getTaskInitialContext_moves t r)) fun e => ?_)
    fun vars => ?_
  · split
    · exact hctx (getTaskContext_moves _)
    · exact moves_throw _
  · refine moves_bind moves_get fun s => ?_
    refine moves_bind (moves_lift _) fun spec => ?_
    refine moves_bind (moves_lift _) fun actions => ?_
    refine moves_bind (moves_lift _) fun delay => ?_
    split
    · exact moves_pure _
    · exact moves_bind (moves_lift _) fun _ => moves_pure _

theorem evaluateTaskActions_thins (task : NextTask) : Moves Thins (evaluateTaskActions task) := by
  unfold evaluateTaskActions
  split
  · exact moves_pure _
  · refine moves_bind moves_get fun s => ?_
    split
    · exact moves_throw _
    · refine moves_bind (moves_updateStaged fun _ => rfl) fun _ => ?_
      exact moves_bind (moves_lift _) fun _ => moves_pure _

theorem nextTask_thins (wf : Workflow) (x : StagedTask) : Moves Thins (nextTask wf x) := by
  unfold nextTask
  refine moves_bind (getTask_thins wf _ _) fun task => ?_
  refine moves_bind (evaluateTaskActions_thins task) fun task => ?_
  refine moves_bind moves_get fun s => ?_
  extract_lets last
  split
  · exact moves_pure _
  · exact moves_pure _

theorem collectNext_thins (wf : Workflow) (acc : Bool × List NextTask) (x : StagedTask) :
    Moves Thins (collectNext wf acc x) := by
  unfold collectNext
  refine moves_tryCatch (moves_bind (nextTask_thins wf x) fun task => ?_) fun e => ?_
  · split
    · exact moves_pure _
    · exact moves_pure _
  · exact moves_bind (moves_modify fun s => thins_logError e _ _ _ s) fun _ => moves_pure _

theorem getNextTasks_thins (wf : Workflow) : Moves Thins (getNextTasks wf) := by
  unfold getNextTasks
  refine moves_bind moves_get fun s => ?_
  extract_lets staged remediation
  split
  · exact moves_pure _
  · refine moves_bind (moves_foldlM (fun x _ acc => collectNext_thins wf acc x) _) fun out => ?_
    obtain ⟨failOnRendering, tasks⟩ := out
    dsimp only
    split
    · exact moves_bind (requestWorkflowStatus_thins _) fun _ => moves_pure _
    · exact moves_pure _

/-! ## The two halves of an update -/

/-- What an update knows when the task has its new status. -/
structure Progress where
  spec : TaskSpec
  idx : ℕ
  old : Status
  new : Status

/-- The first half of `update_task_state`: up to the new status of the task. -/
def beginUpdate (wf : Workflow) (t : String) (r : ℕ) (event : Event) : M Progress := do
  if !wf.graph.hasTask t then throw (.invalidTask t)
  else
    let s ← get
    let spec ← lift (wf.spec.getTask t)
    if (s.getStagedTask t r).isNone && (s.getTaskStateEntry t r).isNone then
      throw (.invalidTaskStateEntry t)
    else
      let idx ← openEntry wf t r event
      recordEvent t r event
      let old ← statusAt idx
      TaskStateMachine.processEvent idx event
      let new ← statusAt idx
      return ⟨spec, idx, old, new⟩

/-- The event of an engine command. -/
def commandEvent (c : String × ℕ) : Event :=
  .operation ((engineEventMap.lookup c.1).getD .taskNoop)

/-- The second half: what follows from the new status.  `update` is the update to a
smaller depth. -/
def continueUpdate (wf : Workflow) (update : String → ℕ → Event → M Unit) (t : String) (r : ℕ)
    (event : Event) (p : Progress) : M Unit := do
  if p.new = retrying then restage t r p.idx else pure ()
  let command := fun (c : String × ℕ) => update c.1 c.2 (commandEvent c)
  if p.new ∈ completedStatuses then
    let ctx ← completeTask p.spec t r p.idx p.new event
    if ← needsRetry wf p.idx ctx then update t r (.operation .taskRetry)
    else finishUpdate wf p.spec t r p.idx p.old p.new ctx command
  else finishUpdate wf p.spec t r p.idx p.old p.new ⟨[], none, none, none⟩ command

theorem updateTaskStateTo_succ (wf : Workflow) (n : ℕ) (t : String) (r : ℕ) (event : Event) :
    updateTaskStateTo wf (n + 1) t r event =
      beginUpdate wf t r event >>= continueUpdate wf (updateTaskStateTo wf n) t r event := by
  rw [updateTaskStateTo, beginUpdate]
  split
  · rfl
  · simp only [bind_assoc]
    refine bind_congr fun s => bind_congr fun spec => ?_
    split
    · rfl
    · simp only [bind_assoc, pure_bind]
      rfl

/-- A satisfied transition after its context is finalized: the next task is staged with
the contexts. -/
def stageTaken (wf : Workflow) (t : String) (r idx : ℕ) (out : Outgoing) (edge : Edge)
    (ctxs : List ℕ) : M Outgoing := do
  let route ← evaluateRoute wf edge r
  let i ← stageNext t edge idx route ctxs
  let s ← get
  let ready := decide (s.getInboundCriteriaStatus wf edge.dst r = .satisfied)
  modify (Conductor.updateStaged i fun x => { x with ready := ready })
  if isReserved edge.dst then
    return { out with
      commands := out.commands ++ [(edge.dst, route)]
      manualFail := out.manualFail || edge.dst = "fail" }
  else if ready then return { out with readyNext := out.readyNext ++ [i] }
  else return out

/-- The contexts that the entry was started with. -/
def incoming (s : Conductor) (idx : ℕ) : List ℕ :=
  (s.sequence[idx]?).elim [] fun e => s.list e.ctxsIn

theorem takeTransition_eq (wf : Workflow) (spec : TaskSpec) (t : String) (r idx : ℕ)
    (ctx : EvalContext) (out : Outgoing) (edge : Edge) :
    takeTransition wf spec t r idx ctx out edge = (do
      let (vars, errors) ← lift (spec.finalizeContext wf.evaluator edge.dst edge.ref ctx)
      if !errors.isEmpty then
        modify (Conductor.logErrors errors (some t) (some r) (some ⟨edge.dst, edge.key⟩))
        requestWorkflowStatus (some failed)
        return out
      else
        let s ← get
        if vars.isEmpty then stageTaken wf t r idx out edge (incoming s idx)
        else
          let new ← appendContext vars
          modify (Conductor.updateEntry idx fun e =>
            { e with ctxsOut := some (⟨edge.dst, edge.key⟩, new) })
          stageTaken wf t r idx out edge (incoming s idx ++ [new])) := rfl

/-- **One transition** keeps what staging its next task keeps, if that is kept by a new
context, too.  The contexts that the task is staged with are the ones of the entry,
with the new one after them if there is one. -/
theorem stageTransition_rule {wf : Workflow} {spec : TaskSpec} {t : String} {r idx : ℕ}
    {ctx : EvalContext} {edge : Edge} {I : Conductor → Prop}
    (hthins : ∀ s s', Thins s s' → I s → I s')
    (hcontext : ∀ s c d, I s → I { s with contexts := s.contexts ++ [c], dicts := d })
    (htaken : evaluateCriteria wf edge ctx = .ok true →
      (∃ vars, spec.finalizeContext wf.evaluator edge.dst edge.ref ctx = .ok (vars, [])) →
      ∀ out s₀ s ctxs, I s₀ → I s →
        (s.contexts.length = s₀.contexts.length ∧ ctxs = incoming s₀ idx ∨
          s.contexts.length = s₀.contexts.length + 1 ∧
            ctxs = incoming s₀ idx ++ [s₀.contexts.length]) →
        Outcome (stageTaken wf t r idx out edge ctxs) (fun _ => I) (fun _ => I) s)
    (out : Outgoing) (s : Conductor) (hs : I s) :
    Outcome (stageTransition wf spec t r idx ctx out edge) (fun _ => I) (fun _ => I) s := by
  have hmoves : ∀ {α : Type} {m : M α} {s : Conductor}, Moves Thins m → I s →
      Outcome m (fun _ => I) (fun _ => I) s := fun hm hs =>
    hm.step (fun _ s' h => hthins _ s' h hs) fun _ s' h => hthins _ s' h hs
  have hfailed : Moves Thins (do requestWorkflowStatus (some failed); return out : M Outgoing) :=
    moves_bind (requestWorkflowStatus_thins _) fun _ => moves_pure _
  unfold stageTransition
  dsimp only
  split
  · exact hmoves (moves_bind (moves_modify fun s => thins_logError _ _ _ _ s) fun _ => hfailed) hs
  · rename_i met hmet
    rw [outcome_bind, outcome_modify]
    have hs₁ := hthins s _ (thins_updateEntry
      (f := fun e => { e with next := Dict.put e.next ⟨edge.dst, edge.key⟩ met })
      (fun _ => rfl) idx s) hs
    generalize s.updateEntry idx _ = s₁ at hs₁ ⊢
    split
    · rename_i htrue
      rw [htrue] at hmet
      rw [takeTransition_eq, outcome_bind, outcome_lift]
      refine ⟨?_, fun _ _ => hs₁⟩
      rintro ⟨vars, errors⟩ hvars
      dsimp only
      split
      · exact hmoves (moves_bind
          (moves_modify fun s => (logErrors_onlyStatus _ _ _ _ s).1.thins) fun _ => hfailed) hs₁
      · rename_i hempty
        have herrors : errors = [] := by simpa using hempty
        rw [herrors] at hvars
        rw [outcome_bind, outcome_get]
        split
        · exact htaken hmet ⟨vars, hvars⟩ out s₁ s₁ _ hs₁ hs₁ (Or.inl ⟨rfl, rfl⟩)
        · rw [outcome_bind]
          refine (appendContext_outcome vars s₁).mono ?_ fun _ _ h => h.elim
          rintro new s₂ ⟨rfl, c, d, rfl⟩
          rw [outcome_bind, outcome_modify]
          refine htaken hmet ⟨vars, hvars⟩ out s₁ _ _ hs₁ ?_ (Or.inr ⟨?_, rfl⟩)
          · refine hthins _ _ (thins_updateEntry ?_ idx _) (hcontext s₁ c d hs₁)
            exact fun _ => rfl
          · exact List.length_append
    · exact hs₁

/-- The transition stays on the route, or a new route is made for it. -/
theorem evaluateRoute_outcome (wf : Workflow) (edge : Edge) (r : ℕ) (s : Conductor) :
    Outcome (evaluateRoute wf edge r)
      (fun route s' => route = r ∧ s' = s ∧ (∀ s₀ : Conductor, s₀.routes[r]? = s.routes[r]? →
          result (evaluateRoute wf edge r) s₀ = .ok r) ∨
        ∃ ids, route = s.routes.length ∧ s' = { s with routes := s.routes ++ [ids] })
      (fun _ s' => s' = s) s := by
  unfold evaluateRoute
  rw [outcome_bind, outcome_lift]
  refine ⟨fun split hsplit => ?_, fun _ _ => rfl⟩
  split
  · rename_i hkeep
    refine Or.inl ⟨rfl, rfl, fun s₀ _ => result_eq_ok ?_⟩
    rw [hsplit, lift_ok, pure_bind, if_pos hkeep]
    rfl
  · rename_i hkeep
    rw [outcome_bind, outcome_get]
    split
    · rfl
    · rename_i old hold
      dsimp only
      split
      · rename_i hmem
        refine Or.inl ⟨rfl, rfl, fun s₀ h₀ => result_eq_ok ?_⟩
        rw [hsplit, lift_ok, pure_bind, if_neg hkeep, outcome_bind, outcome_get, h₀, hold]
        dsimp only
        rw [if_pos hmem]
        rfl
      · exact Or.inr ⟨_, rfl, rfl⟩

/-- The next task is staged already, and its objects are extended where they are, or it
is staged with new ones. -/
theorem stageNext_outcome (t : String) (edge : Edge) (idx route : ℕ) (ctxs : List ℕ)
    (s : Conductor) :
    Outcome (stageNext t edge idx route ctxs)
      (fun _ s' =>
        (∃ i x, s.stagedIdx edge.dst route = some i ∧ s.staged[i]? = some x ∧ 0 ∈ ctxs ∧
          s' = Conductor.updateStaged i (fun x => { x with items := none, completed := false })
            { s with
              lists := s.lists.modify x.ctxsIn (· ++ ctxs.erase 0)
              prevs := s.prevs.modify x.prev fun p => Dict.put p ⟨t, edge.key⟩ idx }) ∨
        s.stagedIdx edge.dst route = none ∧
          s' = Conductor.addStagedTask edge.dst route s.lists.length s.prevs.length false none
            { s with lists := s.lists ++ [ctxs], prevs := s.prevs ++ [[(⟨t, edge.key⟩, idx)]] })
      (fun _ s' => s' = s) s := by
  unfold stageNext
  rw [outcome_bind, outcome_get]
  dsimp only
  split
  · rename_i i hi
    split
    · rfl
    · rename_i x hx
      split
      · rfl
      · rename_i hmem
        exact Or.inl ⟨i, x, hi, hx, not_not.mp hmem, rfl⟩
  · rename_i hnone
    exact Or.inr ⟨hnone, rfl⟩

/-! ## The rule for an update -/

section Rule

variable (wf : Workflow) (again : String → ℕ → Conductor → Bool)
  (leave : TaskSpec → String → ℕ → ℕ → EvalContext → Conductor → Bool)

/-- Where the update is about to stage a task that is retried, `again` holds, and
where it is about to take the transitions of a completed task, `leave` does. -/
def admits : ℕ → String → ℕ → Event → Conductor → Bool
  | 0, _, _, _, _ => true
  | n + 1, t, r, event, s =>
    passes (beginUpdate wf t r event) (fun p s =>
      if p.new = retrying then again t r s
      else if p.new ∈ completedStatuses then
        passes (completeTask p.spec t r p.idx p.new event) (fun ctx s =>
          passes (needsRetry wf p.idx ctx) (fun due s =>
            if due then admits n t r (.operation .taskRetry) s
            else decide (p.new = p.old) || leave p.spec t r p.idx ctx s) s) s
      else true) s

/-- What the parts of an update keep, the last two under their conditions. -/
structure Kept (P : Conductor → Prop) : Prop where
  thins : ∀ s s', Thins s s' → P s → P s'
  start : ∀ x s, P s → x ∈ s.staged →
    Outcome (addTaskState wf x.id x.route x.ctxsIn x.prev) (fun _ => P) (fun _ => P) s
  restage : ∀ t r idx s, P s → s.taskStateIdx t r = some idx → again t r s = true →
    Outcome (restage t r idx) (fun _ => P) (fun _ => P) s
  leave : ∀ spec t r idx ctx s, P s → s.taskStateIdx t r = some idx →
    leave spec t r idx ctx s = true →
    Outcome (stageTransitions wf spec t r idx ctx) (fun _ => P) (fun _ => P) s

variable {wf again leave} {P : Conductor → Prop}

theorem Kept.moves {α : Type} {m : M α} {s : Conductor} (h : Kept wf again leave P)
    (hm : Moves Thins m) (hs : P s) : Outcome m (fun _ => P) (fun _ => P) s :=
  hm.step (fun _ s' hs' => h.thins s s' hs' hs) fun _ s' hs' => h.thins s s' hs' hs

/-- The staged tasks are not written when an entry is started. -/
theorem addTaskState_staged (wf : Workflow) (t : String) (r : ℕ) (ctxs prev : Ref)
    (s : Conductor) :
    Outcome (addTaskState wf t r ctxs prev) (fun _ s' => s'.staged = s.staged)
      (fun _ s' => s'.staged = s.staged) s := by
  refine (addTaskState_outcome wf t r ctxs prev s).mono ?_ ?_
  · rintro _ s' ⟨s₁, e, ⟨_, _, _, _, _, rfl⟩, rfl, _⟩
    rfl
  · rintro _ s' ⟨_, _, _, _, _, rfl⟩
    rfl

theorem Kept.startEntry {t : String} {r : ℕ} {s s₀ : Conductor} (h : Kept wf again leave P)
    (hs : P s) (hst : s.staged = s₀.staged) :
    Outcome (startEntry wf t (s₀.getStagedTask t r)) (fun _ s' => P s' ∧ s'.staged = s₀.staged)
      (fun _ => P) s := by
  cases hx : s₀.getStagedTask t r with
  | none => exact hs
  | some x =>
    obtain ⟨hmem, rfl, _⟩ := getStagedTask_spec hx
    refine ((h.start x s hs (hst ▸ hmem)).and (addTaskState_staged wf _ _ _ _ s)).mono ?_ ?_
    · rintro _ s' ⟨hs', hst'⟩
      exact ⟨hs', hst'.trans hst⟩
    · exact fun _ _ h => h.1

theorem Kept.openEntry {s : Conductor} (h : Kept wf again leave P) (t : String) (r : ℕ)
    (event : Event) (hs : P s) : Outcome (openEntry wf t r event) (fun _ => P) (fun _ => P) s := by
  unfold IntegratedCLI.Orquesta.openEntry ensureEntry renewEntry
  simp only [outcome_bind, outcome_get]
  have hensure : Outcome
      (if ((s.getTaskStateEntry t r).isNone || isReserved t) = true then
        IntegratedCLI.Orquesta.startEntry wf t (s.getStagedTask t r) else pure ())
      (fun _ s' => P s' ∧ s'.staged = s.staged) (fun _ => P) s := by
    split
    · exact h.startEntry hs rfl
    · exact ⟨hs, rfl⟩
  refine hensure.mono (fun _ s₁ hs₁ => ?_) fun _ _ h => h
  split
  · exact hs₁.1
  · split
    · refine (h.startEntry hs₁.1 hs₁.2).mono (fun _ s₂ hs₂ => ?_) fun _ _ h => h
      split
      · exact hs₂.1
      · exact hs₂.1
    · simp only [outcome_pure]
      split
      · exact hs₁.1
      · exact hs₁.1

/-- **The first half of an update** keeps the property, and finds the last entry of the
task. -/
theorem Kept.beginUpdate {s : Conductor} (h : Kept wf again leave P) (t : String) (r : ℕ)
    (event : Event) (hs : P s) :
    Outcome (beginUpdate wf t r event) (fun p s' => P s' ∧ s'.taskStateIdx t r = some p.idx)
      (fun _ => P) s := by
  unfold IntegratedCLI.Orquesta.beginUpdate
  split
  · exact hs
  · simp only [outcome_bind, outcome_get]
    refine (moves_lift (R := Thins) _).step (fun spec s₀ h₀ => ?_) fun _ s₀ h₀ => h.thins s s₀ h₀ hs
    replace h₀ := h.thins s s₀ h₀ hs
    split
    · exact h₀
    · rw [outcome_bind]
      refine ((h.openEntry t r event h₀).and (openEntry_outcome wf t r event s₀)).mono ?_
        fun _ _ h => h.1
      rintro idx s₁ ⟨hs₁, hidx, _⟩
      have hstep : ∀ {α : Type} {m : M α} {s₂ : Conductor}, Moves Thins m →
          P s₂ ∧ s₂.taskStateIdx t r = some idx →
          Outcome m (fun _ s' => P s' ∧ s'.taskStateIdx t r = some idx) (fun _ => P) s₂ := by
        rintro α m s₂ hm ⟨hs₂, hidx₂⟩
        refine hm.step (fun _ s' h' => ⟨h.thins s₂ s' h' hs₂, ?_⟩) fun _ s' h' =>
          h.thins s₂ s' h' hs₂
        unfold Conductor.taskStateIdx at hidx₂ ⊢
        rw [h'.tasks]
        exact hidx₂
      rw [outcome_bind]
      refine (hstep (recordEvent_thins t r event) ⟨hs₁, hidx⟩).mono (fun _ s₂ h₂ => ?_)
        fun _ _ h => h
      rw [outcome_bind]
      refine (hstep (statusAt_thins idx) h₂).mono (fun old s₃ h₃ => ?_) fun _ _ h => h
      rw [outcome_bind]
      refine (hstep (processEvent_thins idx event) h₃).mono (fun _ s₄ h₄ => ?_) fun _ _ h => h
      rw [outcome_bind]
      exact (hstep (statusAt_thins idx) h₄).mono (fun _ _ h => h) fun _ _ h => h

/-! ### Engine commands -/

/-- The table has no way from a task without a status to one that is retried. -/
theorem transition_unset {name : EventName} {st : Status}
    (h : TaskStateMachine.transition .unset name = .ok (some st)) : st ≠ retrying := by
  have hrow : (name, st) ∈ taskRowUnset := Dict.mem_of_lookup (Except.ok.inj h)
  have hall : ∀ p ∈ taskRowUnset, p.2 ≠ retrying := by decide
  exact hall _ hrow

theorem nextStatus_unset {s : Conductor} {e : TaskState} {event : Event} {st : Status}
    (he : e.status = none) (h : TaskStateMachine.nextStatus s e event = .ok (some st)) :
    st ≠ retrying := by
  have hst : e.statusOrUnset = .unset := by
    unfold TaskStateOf.statusOrUnset
    rw [he, Option.getD_none]
  unfold TaskStateMachine.nextStatus at h
  rw [hst] at h
  cases event with
  | workflow st =>
    dsimp only at h
    split at h
    · exact transition_unset h
    · cases h
  | task id route st => cases h
  | action st result =>
    dsimp only at h
    split at h
    · exact transition_unset h
    · cases h
  | item itemId st result accumulated =>
    dsimp only at h
    split at h
    · obtain ⟨name, _, h⟩ := Fallible.bind_eq_ok.mp h
      exact transition_unset h
    · cases h
  | operation command =>
    dsimp only at h
    split at h
    · exact transition_unset h
    · cases h

/-- An engine command has an entry of its own, which is not retried. -/
theorem beginUpdate_reserved {t : String} (ht : isReserved t = true) (r : ℕ) (event : Event)
    (s : Conductor) :
    Outcome (IntegratedCLI.Orquesta.beginUpdate wf t r event)
      (fun p s' => p.new ≠ retrying ∧ ∃ e, s'.sequence[p.idx]? = some e ∧ e.retry = none)
      (fun _ _ => True) s := by
  unfold IntegratedCLI.Orquesta.beginUpdate
  split
  · trivial
  · rename_i hhas
    replace hhas : wf.graph.hasTask t = true := by simpa using hhas
    simp only [outcome_bind, outcome_get]
    refine (moves_lift (R := Keeps id) _).step (fun spec s₀ h₀ => ?_) fun _ _ _ => trivial
    split
    · trivial
    · rw [outcome_bind]
      refine (openEntry_outcome wf t r event s₀).mono ?_ fun _ _ _ => trivial
      rintro idx s₁ ⟨hidx, ⟨_, hres, _⟩ | ⟨x, _, hstart, _⟩⟩
      · rw [ht] at hres
        cases hres
      · have hidx' := hstart.entry.1
        obtain ⟨s₂, e, ⟨_, _, _, _, _, rfl⟩, rfl, hid, hroute, hst, _, _, _, _, hretry⟩ := hstart
        obtain rfl := Option.some.inj (hidx.symm.trans hidx')
        rw [outcome_bind]
        refine (recordEvent_moves t r event).step (fun _ s₃ h₃ => ?_) fun _ _ _ => trivial
        have he : s₃.sequence[s₀.sequence.length]? = some e := by
          rw [h₃.rest]
          exact List.getElem?_concat_length
        have hnone : e.retry = none := hretry (Workflow.getTaskRetrySpec_reserved hhas ht)
        have hget : ∀ {s : Conductor} {e : TaskState}, s.sequence[s₀.sequence.length]? = some e →
            Outcome (statusAt s₀.sequence.length)
              (fun st s' => st = e.statusOrUnset ∧ s' = s) (fun _ _ => False) s := by
          intro s e he
          unfold statusAt
          simp [he]
        rw [outcome_bind]
        refine (hget he).mono ?_ fun _ _ h => h.elim
        rintro old s' ⟨_, hs'⟩
        rw [hs', outcome_bind]
        refine (processEvent_outcome _ event _).mono ?_ fun _ _ _ => trivial
        rintro _ s₄ ⟨e', he', ⟨_, rfl⟩ | ⟨st, hnext, rfl⟩⟩
        · rw [outcome_bind]
          refine (hget he).mono ?_ fun _ _ h => h.elim
          rintro _ _ ⟨rfl, rfl⟩
          refine ⟨?_, e, he, hnone⟩
          show e.statusOrUnset ≠ retrying
          unfold TaskStateOf.statusOrUnset
          rw [hst]
          decide
        · rw [he, Option.some_inj] at he'
          subst he'
          have he₄ : (s₃.updateEntry s₀.sequence.length fun e =>
              { e with status := some st }).sequence[s₀.sequence.length]? =
                some { e with status := some st } := by
            show (s₃.sequence.modify _ _)[_]? = _
            rw [Positions.getElem?_modify, if_pos rfl, he, Option.map_some]
          rw [outcome_bind]
          refine (hget he₄).mono ?_ fun _ _ h => h.elim
          rintro _ _ ⟨rfl, rfl⟩
          exact ⟨nextStatus_unset hst hnext, _, he₄, hnone⟩

/-- An entry without a retry is not due for one. -/
theorem needsRetry_none {s : Conductor} {idx : ℕ} {e : TaskState} (he : s.sequence[idx]? = some e)
    (hr : e.retry = none) (wf : Workflow) (ctx : EvalContext) :
    Outcome (needsRetry wf idx ctx) (fun due _ => due = false) (fun _ _ => False) s := by
  unfold needsRetry
  rw [outcome_bind, outcome_get]
  split
  · have hfalse : evaluateTaskRetry wf s idx ctx = .ok false := by
      unfold evaluateTaskRetry
      rw [he]
      dsimp only
      rw [hr]
      rfl
    rw [hfalse]
    rfl
  · rfl

/-- The entries, and what is retried of them, are not written when a task is completed. -/
theorem completeTask_sequence (spec : TaskSpec) (t : String) (r idx : ℕ) (st : Status)
    (event : Event) (s : Conductor) :
    Outcome (completeTask spec t r idx st event) (fun _ s' => s'.sequence = s.sequence)
      (fun _ _ => True) s := by
  refine (completeTask_outcome spec t r idx st event s).mono ?_ fun _ _ _ => trivial
  rintro _ s' ⟨s₁, h₁, d, rfl⟩
  rw [h₁.rest]

/-- **An engine command** is neither retried nor left by a transition. -/
theorem admits_reserved (hend : ∀ spec t r idx ctx s, wf.graph.getNextTransitions t = [] →
      leave spec t r idx ctx s = true) {t : String} (ht : isReserved t = true) (n r : ℕ)
    (event : Event) (s : Conductor) : admits wf again leave n t r event s = true := by
  cases n with
  | zero => rfl
  | succ n =>
    rw [admits, passes_iff]
    refine (beginUpdate_reserved ht r event s).mono ?_ fun _ _ _ => trivial
    rintro p s₁ ⟨hnew, e, he, hretry⟩
    rw [if_neg hnew]
    split
    · rw [passes_iff]
      refine (completeTask_sequence p.spec t r p.idx p.new event s₁).mono ?_ fun _ _ _ => trivial
      intro ctx s₂ hseq
      rw [passes_iff]
      refine (needsRetry_none (hseq ▸ he) hretry wf ctx).mono ?_ fun _ _ _ => trivial
      rintro _ s₃ rfl
      rw [if_neg Bool.false_ne_true, hend _ _ _ _ _ _ (Workflow.getNextTransitions_reserved ht),
        Bool.or_true]
    · rfl

/-- The commands that are collected are engine commands. -/
theorem stageTaken_reserved (wf : Workflow) (t : String) (r idx : ℕ) (out : Outgoing)
    (edge : Edge) (ctxs : List ℕ) (s : Conductor)
    (h : ∀ c ∈ out.commands, isReserved c.1 = true) :
    Outcome (stageTaken wf t r idx out edge ctxs)
      (fun out _ => ∀ c ∈ out.commands, isReserved c.1 = true) (fun _ _ => True) s := by
  unfold stageTaken
  rw [outcome_bind]
  refine outcome_true.mono (fun route s₁ _ => ?_) fun _ _ _ => trivial
  rw [outcome_bind]
  refine outcome_true.mono (fun i s₂ _ => ?_) fun _ _ _ => trivial
  rw [outcome_bind]
  refine outcome_true.mono (fun s₃ s₄ _ => ?_) fun _ _ _ => trivial
  dsimp only
  rw [outcome_bind]
  refine outcome_true.mono (fun _ s₅ _ => ?_) fun _ _ _ => trivial
  split
  · rename_i hres
    intro c hc
    rcases List.mem_append.mp hc with hc | hc
    · exact h c hc
    · rw [List.mem_singleton.mp hc]
      exact hres
  · split
    · exact h
    · exact h

theorem takeTransition_reserved (wf : Workflow) (spec : TaskSpec) (t : String) (r idx : ℕ)
    (ctx : EvalContext) (out : Outgoing) (edge : Edge) (s : Conductor)
    (h : ∀ c ∈ out.commands, isReserved c.1 = true) :
    Outcome (takeTransition wf spec t r idx ctx out edge)
      (fun out _ => ∀ c ∈ out.commands, isReserved c.1 = true) (fun _ _ => True) s := by
  rw [takeTransition_eq, outcome_bind]
  refine outcome_true.mono ?_ fun _ _ _ => trivial
  rintro ⟨vars, errors⟩ s₁ _
  dsimp only
  split
  · rw [outcome_bind]
    refine outcome_true.mono (fun _ s₂ _ => ?_) fun _ _ _ => trivial
    rw [outcome_bind]
    exact outcome_true.mono (fun _ _ _ => h) fun _ _ _ => trivial
  · rw [outcome_bind]
    refine outcome_true.mono (fun s₂ s₃ _ => ?_) fun _ _ _ => trivial
    split
    · exact stageTaken_reserved wf t r idx out edge _ s₃ h
    · rw [outcome_bind]
      refine outcome_true.mono (fun new s₄ _ => ?_) fun _ _ _ => trivial
      rw [outcome_bind]
      refine outcome_true.mono (fun _ s₅ _ => ?_) fun _ _ _ => trivial
      exact stageTaken_reserved wf t r idx out edge _ s₅ h

/-- The loop over the transitions keeps what each transition keeps. -/
theorem stageTransitions_rule {wf : Workflow} {spec : TaskSpec} {t : String} {r idx : ℕ}
    {ctx : EvalContext} {I : Outgoing → Conductor → Prop} {E : PyError → Conductor → Prop}
    {s : Conductor} (hthins : ∀ out s s', Thins s s' → I out s → I out s')
    (hround : ∀ edge ∈ wf.graph.getNextTransitions t, ∀ out s, I out s →
      Outcome (stageTransition wf spec t r idx ctx out edge) I E s)
    (hs : I ⟨[], false, []⟩ s) :
    Outcome (stageTransitions wf spec t r idx ctx)
      (fun commands s' => ∃ out, out.commands = commands ∧ I out s') E s := by
  have hloop : ∀ s₁, I ⟨[], false, []⟩ s₁ → Outcome (do
      let out ← (wf.graph.getNextTransitions t).foldlM (stageTransition wf spec t r idx ctx)
        ⟨[], false, []⟩
      if out.manualFail then
        forM out.readyNext fun i =>
          modify (Conductor.updateStaged i fun x => { x with runOnFail := true })
      else pure ()
      return out.commands) (fun commands s' => ∃ out, out.commands = commands ∧ I out s') E s₁ := by
    intro s₁ hs₁
    rw [outcome_bind]
    refine (outcome_foldlM hround hs₁).mono (fun out s₂ hs₂ => ?_) fun _ _ h => h
    dsimp only
    split
    · rw [outcome_bind]
      refine (outcome_forM (I := I out) (fun i _ s₃ hs₃ => ?_) hs₂).mono (fun _ s₃ hs₃ => ?_)
        fun _ _ h => h
      · refine hthins out s₃ _ (thins_updateStaged ?_ i s₃) hs₃
        exact fun _ => rfl
      · exact ⟨out, rfl, hs₃⟩
    · exact ⟨out, rfl, hs₂⟩
  unfold stageTransitions
  dsimp only
  split
  · refine hloop _ (hthins _ s _ (thins_updateEntry ?_ idx s) hs)
    exact fun _ => rfl
  · exact hloop s hs

theorem stageTransitions_reserved (wf : Workflow) (spec : TaskSpec) (t : String) (r idx : ℕ)
    (ctx : EvalContext) (s : Conductor) :
    Outcome (stageTransitions wf spec t r idx ctx)
      (fun commands _ => ∀ c ∈ commands, isReserved c.1 = true) (fun _ _ => True) s := by
  refine (stageTransitions_rule (I := fun out _ => ∀ c ∈ out.commands, isReserved c.1 = true)
    (fun _ _ _ _ h => h) ?_ (by simp)).mono ?_ fun _ _ h => h
  · intro edge _ out s₂ h
    unfold stageTransition
    dsimp only
    split
    · rw [outcome_bind]
      refine outcome_true.mono (fun _ _ _ => ?_) fun _ _ _ => trivial
      rw [outcome_bind]
      exact outcome_true.mono (fun _ _ _ => h) fun _ _ _ => trivial
    · rw [outcome_bind]
      refine outcome_true.mono (fun _ s₃ _ => ?_) fun _ _ _ => trivial
      split
      · exact takeTransition_reserved wf spec t r idx ctx out edge s₃ h
      · exact h
  · rintro _ s₂ ⟨out, rfl, h⟩
    exact h

/-- **The rule for `update_task_state`.** -/
theorem Kept.update (h : Kept wf again leave P)
    (hend : ∀ spec t r idx ctx s, wf.graph.getNextTransitions t = [] →
      leave spec t r idx ctx s = true) (n : ℕ) :
    ∀ t r event s, P s → admits wf again leave n t r event s = true →
      Outcome (updateTaskStateTo wf n t r event) (fun _ => P) (fun _ => P) s := by
  induction n with
  | zero => exact fun _ _ _ _ hs _ => hs
  | succ n ih =>
    intro t r event s hs hadmits
    rw [admits, passes_iff] at hadmits
    rw [updateTaskStateTo_succ, outcome_bind]
    refine ((h.beginUpdate t r event hs).and hadmits).mono ?_ fun _ _ h => h.1
    rintro p s₁ ⟨⟨hs₁, hidx⟩, hcond⟩
    have hfinish : ∀ (ctx : EvalContext) (s₂ : Conductor), P s₂ →
        (p.new ∈ completedStatuses ∧ p.new ≠ p.old →
          s₂.taskStateIdx t r = some p.idx ∧ leave p.spec t r p.idx ctx s₂ = true) →
        Outcome (finishUpdate wf p.spec t r p.idx p.old p.new ctx fun c =>
          updateTaskStateTo wf n c.1 c.2 (commandEvent c)) (fun _ => P) (fun _ => P) s₂ := by
      intro ctx s₂ hs₂ hleave
      have htail : ∀ (commands : List (String × ℕ)) (s₃ : Conductor), P s₃ →
          (∀ c ∈ commands, isReserved c.1 = true) →
          Outcome (do
            notifyWorkflow wf t r p.idx
            forM commands fun c => updateTaskStateTo wf n c.1 c.2 (commandEvent c)
            markTerminal p.idx) (fun _ => P) (fun _ => P) s₃ := by
        intro commands s₃ hs₃ hres
        rw [outcome_bind]
        refine (h.moves (notifyWorkflow_thins wf t r p.idx) hs₃).mono (fun _ s₄ hs₄ => ?_)
          fun _ _ h => h
        rw [outcome_bind]
        refine (outcome_forM (I := P) (fun c hc s₅ hs₅ => ?_) hs₄).mono (fun _ s₅ hs₅ => ?_)
          fun _ _ h => h
        · exact ih _ _ _ _ hs₅ (admits_reserved hend (hres c hc) n _ _ _)
        · exact h.moves (markTerminal_thins p.idx) hs₅
      unfold finishUpdate
      dsimp only
      split
      · rename_i hnew
        rw [outcome_bind]
        obtain ⟨hidx₂, hcond₂⟩ := hleave hnew
        refine ((h.leave p.spec t r p.idx ctx s₂ hs₂ hidx₂ hcond₂).and
          (stageTransitions_reserved wf p.spec t r p.idx ctx s₂)).mono ?_ fun _ _ h => h.1
        exact fun commands s₃ h₃ => htail commands s₃ h₃.1 h₃.2
      · exact htail [] s₂ hs₂ (by simp)
    unfold continueUpdate
    dsimp only
    by_cases hretrying : p.new = retrying
    · -- the task is staged again, and the second half goes on as for a task that runs
      have hnot : p.new ∉ completedStatuses := by
        rw [hretrying]
        decide
      rw [if_pos hretrying] at hcond ⊢
      rw [if_neg hnot, outcome_bind]
      refine (h.restage t r p.idx s₁ hs₁ hidx hcond).mono (fun _ s₂ hs₂ => ?_) fun _ _ h => h
      exact hfinish _ s₂ hs₂ fun h => absurd h.1 hnot
    · rw [if_neg hretrying] at hcond ⊢
      split
      · rename_i hnew
        rw [if_pos hnew, passes_iff] at hcond
        have hkeep := completeTask_thins p.spec t r p.idx p.new event
        rw [outcome_bind]
        refine ((hkeep.outcome s₁).and hcond).mono ?_ fun _ s₂ h₂ => h.thins s₁ s₂ h₂.1 hs₁
        rintro ctx s₂ ⟨h₂, hcond₂⟩
        rw [passes_iff] at hcond₂
        rw [outcome_bind]
        refine (((needsRetry_thins wf p.idx ctx).outcome s₂).and hcond₂).mono ?_ ?_
        · rintro due s₃ ⟨h₃, hcond₃⟩
          replace h₃ := trans_of Thins h₂ h₃
          have hs₃ : P s₃ := h.thins s₁ s₃ h₃ hs₁
          cases due with
          | true => exact ih t r _ s₃ hs₃ hcond₃
          | false =>
            refine hfinish ctx s₃ hs₃ fun hnew => ⟨?_, ?_⟩
            · unfold Conductor.taskStateIdx at hidx ⊢
              rw [h₃.tasks]
              exact hidx
            · rw [if_neg Bool.false_ne_true, Bool.or_eq_true] at hcond₃
              exact hcond₃.resolve_left fun h => hnew.2 (of_decide_eq_true h)
        · rintro _ s₃ ⟨h₃, _⟩
          exact h.thins s₁ s₃ (trans_of Thins h₂ h₃) hs₁
      · rename_i hnew
        exact hfinish _ s₁ hs₁ fun h => absurd h.1 hnew

end Rule

end Orquesta
end IntegratedCLI
