import IntegratedCLI.Orquesta.Turns

/-!
# How a workflow ends

A workflow that is canceled or failed stays so, and one that succeeded can only fail; and
one that is being canceled is canceled in the end, unless an expression cannot be evaluated,
the client asks for a failure, or there is a staged join that cannot be reached any more when
the last task completes.  In the last case `process_task_event` takes the status back and
fails the workflow, whatever the status was to be.
-/

namespace IntegratedCLI
namespace Orquesta

open Effect Status

/-! ## The rows -/

theorem WorkflowStateMachine.transition_row {current st : Status} {name : EventName}
    (h : WorkflowStateMachine.transition current name = .ok (some st)) :
    (name, st) ∈ (workflowStateMachineData current).getD [] := by
  unfold WorkflowStateMachine.transition at h
  cases hrow : workflowStateMachineData current with
  | none =>
    rw [hrow] at h
    cases h
  | some row =>
    rw [hrow] at h
    exact Dict.mem_of_lookup (Except.ok.inj h)

/-- The names that the machine looks up for a task are of the task, or of a task that was
remediated. -/
theorem addContextToTaskEvent_head (wf : Workflow) (s : Conductor) (t : String) (r : ℕ)
    (st : Status) :
    (WorkflowStateMachine.addContextToTaskEvent wf s t r st).head = .remediated ∨
      (WorkflowStateMachine.addContextToTaskEvent wf s t r st).head = .task (some st) := by
  unfold WorkflowStateMachine.addContextToTaskEvent
  extract_lets hasNextTasks remediated name activity conditional
  have hname : name.head = .remediated ∨ name.head = .task (some st) := by
    by_cases h : remediated
    · exact Or.inl (by simp only [name, if_pos h, EventName.remediated])
    · exact Or.inr (by simp only [name, if_neg h, EventName.task])
  have hconditional : conditional.head = name.head := by
    by_cases h : name ∈ taskConditionalEvents
    · simp only [conditional, if_pos h, EventName.append]
    · simp only [conditional, if_neg h]
  rw [← hconditional] at hname
  split
  · exact hname
  · split
    · exact hname
    · split
      · exact hname
      · split
        · exact hname
        · exact hname

theorem addContextToWorkflowRequest_head (s : Conductor) (st : Option Status) :
    (WorkflowStateMachine.addContextToWorkflowEvent s st).head = .workflow st := by
  unfold WorkflowStateMachine.addContextToWorkflowEvent
  extract_lets name name'
  have hname : name'.head = .workflow st := by
    by_cases h : st.any (· ∈ pauseStatuses ++ cancelStatuses) = true
    · simp only [name', if_pos h, EventName.append, name]
    · simp only [name', if_neg h, name]
  split
  · exact hname
  · exact hname

/-- A task does not take a workflow out of being canceled, but to its end. -/
theorem canceling_of_task {wf : Workflow} {s : Conductor} {t : String} {r : ℕ} {st new : Status}
    (hstatus : s.status = canceling)
    (h : WorkflowStateMachine.transition s.status
      (WorkflowStateMachine.addContextToTaskEvent wf s t r st) = .ok (some new)) :
    new = canceling ∨ new = canceled := by
  have htable : ∀ p ∈ workflowRowCanceling, (p.1.head = .remediated ∨ ∃ st, p.1.head = .task (some st)) →
      p.2 = canceling ∨ p.2 = canceled := by
    have hcases : ∀ p ∈ workflowRowCanceling,
        p.1.head = .workflow (some failed) ∨ p.2 = canceling ∨ p.2 = canceled := by decide
    rintro p hp hhead
    refine (hcases p hp).resolve_left fun hfailed => ?_
    rw [hfailed] at hhead
    rcases hhead with hhead | ⟨_, hhead⟩
    · cases hhead
    · cases hhead
  rw [hstatus] at h
  refine htable _ (WorkflowStateMachine.transition_row h) ?_
  exact (addContextToTaskEvent_head wf s t r st).imp_right fun h => ⟨st, h⟩

/-- A request does not take a workflow out of being canceled, but to its end, and it fails only
if it is asked to. -/
theorem canceling_of_request {s : Conductor} {st : Option Status} {new : Status}
    (hstatus : s.status = canceling)
    (h : WorkflowStateMachine.transition s.status
      (WorkflowStateMachine.addContextToWorkflowEvent s st) = .ok (some new)) :
    new = canceling ∨ new = canceled ∨ new = failed ∧ st = some failed := by
  have htable : ∀ p ∈ workflowRowCanceling, p.2 = canceling ∨ p.2 = canceled ∨
      p.2 = failed ∧ p.1.head = .workflow (some failed) := by decide
  rw [hstatus] at h
  refine (htable _ (WorkflowStateMachine.transition_row h)).imp_right (Or.imp_right ?_)
  rintro ⟨hnew, hhead⟩
  rw [addContextToWorkflowRequest_head] at hhead
  cases hhead
  exact ⟨hnew, rfl⟩

/-- A completed workflow is not moved on, but that it may fail after it succeeded. -/
theorem failed_of_completed {current new : Status} {name : EventName}
    (hcurrent : current ∈ completedStatuses)
    (h : WorkflowStateMachine.transition current name = .ok (some new)) :
    current = succeeded ∧ new = failed := by
  have htable : ∀ current ∈ completedStatuses, ∀ p ∈ (workflowStateMachineData current).getD [],
      current = succeeded ∧ p.2 = failed := by decide
  exact htable current hcurrent _ (WorkflowStateMachine.transition_row h)

/-- What a workflow that is told of a task comes to. -/
theorem processTaskEvent_log (wf : Workflow) (t : String) (r : ℕ) (st : Status) (s : Conductor) :
    Outcome (WorkflowStateMachine.processTaskEvent wf t r st)
      (fun _ s' => s.errors ⊆ s'.errors ∧ (s' = s ∨
        ∃ new, WorkflowStateMachine.transition s.status
            (WorkflowStateMachine.addContextToTaskEvent wf s t r st) = .ok (some new) ∧
          (s'.status = new ∨ s'.status = failed ∧ s'.FoundUnreachable)))
      (fun _ s' => s' = s) s := by
  unfold WorkflowStateMachine.processTaskEvent
  rw [outcome_bind, outcome_get]
  dsimp only
  split
  · split
    · rfl
    · exact ⟨fun _ h => h, Or.inl rfl⟩
    · rename_i new hnew
      rw [outcome_bind, outcome_modify]
      refine (failUnreachable_log wf (s.setStatus new)).mono ?_ fun _ _ h => h.elim
      rintro _ s' ⟨hlog, hs'⟩
      refine ⟨hlog, Or.inr ⟨new, hnew, ?_⟩⟩
      rcases hs' with rfl | ⟨hfailed, _, hfound⟩
      · exact Or.inl rfl
      · exact Or.inr ⟨hfailed, hfound⟩
  · rfl

/-! ## Endings last -/

/-- A completed workflow stays as it is, but that it may fail after it succeeded. -/
def Lasting (s s' : Conductor) : Prop :=
  s.status ∈ completedStatuses → s'.status = s.status ∨ s.status = succeeded ∧ s'.status = failed

instance : IsPreorder Conductor Lasting where
  refl _ _ := Or.inl rfl
  trans := by
    rintro s₁ s₂ s₃ h h' hs
    rcases h hs with hsame | ⟨hsucceeded, hfailed⟩
    · rw [← hsame] at hs ⊢
      exact h' hs
    · rcases h' (by rw [hfailed]; decide) with hsame | ⟨hsucceeded', _⟩
      · exact Or.inr ⟨hsucceeded, hsame.trans hfailed⟩
      · rw [hfailed] at hsucceeded'
        cases hsucceeded'

theorem Lasting.completed {s s' : Conductor} (h : Lasting s s') (hs : s.status ∈ completedStatuses) :
    s'.status ∈ completedStatuses := by
  rcases h hs with hsame | ⟨_, hfailed⟩
  · rw [hsame]
    exact hs
  · rw [hfailed]
    decide

/-- Only a success does not last. -/
theorem Lasting.same {s s' : Conductor} (h : Lasting s s') {st : Status} (hs : s.status = st)
    (hst : st ∈ completedStatuses ∧ st ≠ succeeded) : s'.status = st := by
  rcases h (hs ▸ hst.1) with hsame | ⟨hsucceeded, _⟩
  · exact hsame.trans hs
  · exact absurd (hs.symm.trans hsucceeded) hst.2

/-- A workflow that is being canceled goes on with that until it is canceled, or until it fails
for a reason that is in the log. -/
structure Canceling (s s' : Conductor) : Prop where
  log : s.errors ⊆ s'.errors
  lasting : Lasting s s'
  canceling : s.status = .canceling → s'.status = .canceling ∨ s'.status = canceled ∨
    s'.status = failed ∧ (s'.FailedToEvaluate ∨ s'.FoundUnreachable)

theorem Conductor.FailedToEvaluate.mono {s s' : Conductor} (h : s.FailedToEvaluate)
    (hlog : s.errors ⊆ s'.errors) : s'.FailedToEvaluate := by
  obtain ⟨entry, hmem, hmessage⟩ := h
  exact ⟨entry, hlog hmem, hmessage⟩

theorem Conductor.FoundUnreachable.mono {s s' : Conductor} (h : s.FoundUnreachable)
    (hlog : s.errors ⊆ s'.errors) : s'.FoundUnreachable := by
  obtain ⟨entry, hmem, hmessage⟩ := h
  exact ⟨entry, hlog hmem, hmessage⟩

instance : IsPreorder Conductor Canceling where
  refl _ := ⟨fun _ h => h, refl_of Lasting _, Or.inl⟩
  trans _ _ _ h h' := by
    refine ⟨fun _ hx => h'.log (h.log hx), trans_of Lasting h.lasting h'.lasting, fun hs => ?_⟩
    rcases h.canceling hs with hs | hs | ⟨hs, hwhy⟩
    · exact h'.canceling hs
    · exact Or.inr (Or.inl (h'.lasting.same hs (by decide)))
    · refine Or.inr (Or.inr ⟨h'.lasting.same hs (by decide), ?_⟩)
      exact hwhy.imp (·.mono h'.log) (·.mono h'.log)

section Endings

variable {wf : Workflow} {F : Option Status → Conductor → Prop} {R : Conductor → Status → Prop}
  {s s' : Conductor}

theorem lasting_of_status (h : s'.status = s.status) : Lasting s s' := fun _ => Or.inl h

theorem canceling_of_status (h : s'.status = s.status) (hlog : s.errors ⊆ s'.errors) :
    Canceling s s' := ⟨hlog, lasting_of_status h, fun hs => Or.inl (h.trans hs)⟩

/-- The workflow machine is asked for the next status, and the workflow may fail instead. -/
theorem lasting_of_transition {name : EventName} {new : Status}
    (h : WorkflowStateMachine.transition s.status name = .ok (some new))
    (hs' : s'.status = new ∨ s'.status = failed) : Lasting s s' := by
  intro hs
  obtain ⟨hold, rfl⟩ := failed_of_completed hs h
  exact Or.inr ⟨hold, or_self_iff.mp hs'⟩

theorem Turn.lasting (h : Turn wf F R s s') : Lasting s s' := by
  cases h with
  | aside h => exact lasting_of_status h.status
  | notified h =>
    obtain ⟨_, rfl | ⟨new, hnew, hs'⟩⟩ := (processTaskEvent_log wf _ _ _ s).of_run h
    · exact refl_of Lasting s'
    · exact lasting_of_transition hnew (hs'.imp_right And.left)
  | requested _ h =>
    obtain ⟨_, ⟨_, rfl⟩ | ⟨new, hnew, rfl⟩⟩ := (processWorkflowEvent_outcome _ s).of_run h
    · exact refl_of Lasting s'
    · exact lasting_of_transition hnew (Or.inl rfl)
  | told _ _ => exact lasting_of_status rfl
  | advanced _ _ _ => exact lasting_of_status rfl

/-- While the workflow is being canceled, it is asked to fail only where an expression could
not be evaluated. -/
theorem Turn.canceling (hF : ∀ st s, F st s → st = some failed → s.status = canceling →
    s.FailedToEvaluate) (h : Turn wf F R s s') : Canceling s s' := by
  have hlasting := h.lasting
  cases h with
  | aside h => exact canceling_of_status h.status h.log
  | notified h =>
    obtain ⟨hlog, rfl | ⟨new, hnew, hs'⟩⟩ := (processTaskEvent_log wf _ _ _ s).of_run h
    · exact refl_of Canceling s'
    · refine ⟨hlog, hlasting, fun hs => ?_⟩
      rcases hs' with rfl | ⟨hfailed, hfound⟩
      · exact (canceling_of_task hs hnew).imp_right Or.inl
      · exact Or.inr (Or.inr ⟨hfailed, Or.inr hfound⟩)
  | requested hst h =>
    obtain ⟨_, ⟨_, rfl⟩ | ⟨new, hnew, rfl⟩⟩ := (processWorkflowEvent_outcome _ s).of_run h
    · exact refl_of Canceling s'
    · refine ⟨fun _ h => h, hlasting, fun hs => ?_⟩
      refine (canceling_of_request hs hnew).imp_right (Or.imp_right ?_)
      rintro ⟨hfailed, hfor⟩
      exact ⟨hfailed, Or.inl (hF _ s hst hfor hs)⟩
  | told _ _ => exact canceling_of_status rfl fun _ h => h
  | advanced _ _ _ => exact canceling_of_status rfl fun _ h => h

/-- A call leaves an ending as it is. -/
theorem step_lasting (s : Conductor) (c : Call) : Lasting s (step wf s c) :=
  step_within (fun _ _ h => h.lasting) (fun _ _ _ _ => lasting_of_status rfl)
    (fun _ _ => lasting_of_status rfl) s c

end Endings

/-! ## A cancel is final -/

/-- The client does not ask for the workflow to fail. -/
def Call.asksNoFailure : Call → Bool
  | .requestWorkflowStatus st => st ≠ some failed
  | _ => true

/-- The workflow is being canceled or was canceled, or it failed because of a join that
cannot be reached. -/
def CanceledOrUnreachable (s : Conductor) : Prop :=
  s.status = canceling ∨ s.status = canceled ∨ s.status = failed ∧ s.FoundUnreachable

theorem step_canceling (wf : Workflow) (s : Conductor) {c : Call} (hc : c.asksNoFailure = true) :
    Canceling s (step wf s c) := by
  let F : Option Status → Conductor → Prop :=
    fun st s => st = some failed → s.status = canceling → s.FailedToEvaluate
  have hturn : ∀ s s', Turn wf F (Retries True) s s' → Canceling s s' := fun _ _ h =>
    h.canceling fun _ _ h => h
  have hstage : ∀ spec t r idx ctx, Moves Canceling (stageTransitions wf spec t r idx ctx) := by
    intro spec t r idx ctx
    exact stageTransitions_within hturn (fun _ _ _ => canceling_of_status rfl fun _ h => h)
      (fun _ _ => canceling_of_status rfl fun _ h => h) (fun _ h _ _ => h) spec t r ctx
  cases c with
  | requestWorkflowStatus st =>
    have hturns : Turns wf F (Retries True) s (step wf s (.requestWorkflowStatus st)) :=
      outcome_after.mp (requestWorkflowStatus_turns fun s' _ _ hst =>
        absurd hst (of_decide_eq_true hc))
    exact hturns.within hturn
  | updateTaskState t r event =>
    have hupdated : Updated wf F (Retries True) t r s (step wf s (.updateTaskState t r event)) :=
      outcome_after.mp (updateTaskStateTo_updated _ r fun _ => Or.inr (Or.inr trivial))
    exact hupdated.within hturn fun spec => hstage spec t r
  | getNextTasks =>
    have hturns : Turns wf F (Retries True) s (step wf s .getNextTasks) := by
      -- nothing is rendered while the workflow is being canceled
      refine outcome_after.mp (getNextTasks_turns fun s' hs' hopen _ hst => ?_)
      rw [← hs', hst] at hopen
      rcases hopen with hopen | hopen
      · exact absurd hopen (by decide)
      · cases hopen
    exact hturns.within hturn

theorem run_canceling (wf : Workflow) {calls : List Call}
    (hcalls : ∀ c ∈ calls, c.asksNoFailure = true) (s : Conductor) :
    Canceling s (calls.foldl (step wf) s) := by
  induction calls generalizing s with
  | nil => exact refl_of Canceling s
  | cons c calls ih =>
    have hc := step_canceling wf s (hcalls c (List.mem_cons_self ..))
    exact trans_of Canceling hc (ih (fun c' hc' => hcalls c' (List.mem_cons_of_mem c hc')) _)

theorem Canceling.canceledOrUnreachable {s s' : Conductor} (h : Canceling s s')
    (hs : CanceledOrUnreachable s) (heval : ¬ s'.FailedToEvaluate) : CanceledOrUnreachable s' := by
  rcases hs with hs | hs | ⟨hs, hfound⟩
  · refine (h.canceling hs).imp_right (Or.imp_right fun hfailed => ?_)
    exact ⟨hfailed.1, hfailed.2.resolve_left heval⟩
  · exact Or.inr (Or.inl (h.lasting.same hs (by decide)))
  · exact Or.inr (Or.inr ⟨h.lasting.same hs (by decide), hfound.mono h.log⟩)

/-- **A cancel is final**, unless there is a join that cannot be reached. -/
theorem canceled_or_unreachable (wf : Workflow) {s : Conductor}
    (hs : s.status = canceling ∨ s.status = canceled) {calls : List Call}
    (hcalls : ∀ c ∈ calls, c.asksNoFailure = true)
    (heval : ¬ (calls.foldl (step wf) s).FailedToEvaluate) :
    Run.Throughout (step wf) CanceledOrUnreachable s calls := by
  replace hs : CanceledOrUnreachable s := hs.imp_right Or.inl
  induction calls generalizing s with
  | nil => exact hs
  | cons c calls ih =>
    have hrest : ∀ c' ∈ calls, c'.asksNoFailure = true := fun c' hc' =>
      hcalls c' (List.mem_cons_of_mem c hc')
    have hc := step_canceling wf s (hcalls c (List.mem_cons_self ..))
    refine ⟨hs, ih hrest heval (hc.canceledOrUnreachable hs fun hfailed => ?_)⟩
    exact heval (hfailed.mono (run_canceling wf hrest _).log)

/-! ### A join of two tasks -/

/-- Whether the task whose transitions are taken succeeded. -/
def succeededIn (ctx : EvalContext) : Bool :=
  match ctx.currentTask, ctx.state with
  | some task, some data =>
    ((data.tasks.lookup ⟨task.id, task.route⟩).bind fun i => data.sequence[i]?).any
      fun e => e.status = some succeeded
  | _, _ => false

/-- A workflow of two tasks and a third one, which is run after both succeeded. -/
def joinOfTwo : Workflow where
  spec := ⟨[], [],
    [("task1", ⟨none, none, none, .str "core.noop", .dict [], none,
        [⟨some "<% succeeded() %>", [], ["task3"]⟩]⟩),
      ("task2", ⟨none, none, none, .str "core.noop", .dict [], none,
        [⟨some "<% succeeded() %>", [], ["task3"]⟩]⟩),
      ("task3", ⟨none, some .all, none, .str "core.noop", .dict [], none, []⟩)]⟩
  graph := ⟨[("task1", ⟨none, none⟩), ("task3", ⟨some .all, none⟩), ("task2", ⟨none, none⟩)],
    [⟨"task1", "task3", 0, ["<% succeeded() %>"], 0⟩,
      ⟨"task2", "task3", 0, ["<% succeeded() %>"], 0⟩]⟩
  inputs := []
  parentCtx := []
  evaluator := fun e ctx =>
    if e = "<% succeeded() %>" then .ok (.bool (succeededIn ctx)) else .ok (.str e)
  composed := ⟨10, rfl⟩

def actionOf (t : String) (st : Status) : Call := .updateTaskState t 0 (.action (some st) .null)

/-- The first task succeeds, and the workflow is canceled while the second one is running. -/
def cancelsBetween : List Call :=
  [.requestWorkflowStatus (some running), actionOf "task1" running, actionOf "task2" running,
    actionOf "task1" succeeded, .requestWorkflowStatus (some canceled)]

theorem not_failedToEvaluate_cancelsBetween :
    ¬ ((cancelsBetween ++ [actionOf "task2" canceled]).foldl (step joinOfTwo)
      (.init joinOfTwo)).FailedToEvaluate := by
  have hlog : ((cancelsBetween ++ [actionOf "task2" canceled]).foldl (step joinOfTwo)
      (.init joinOfTwo)).errors.map LogEntry.message =
      [.exception (.unreachableJoin "task3" 0)] := by decide +kernel
  rintro ⟨entry, hmem, e, hmessage⟩
  have hmem := List.mem_map_of_mem (f := LogEntry.message) hmem
  rw [hlog, hmessage, List.mem_singleton] at hmem
  cases hmem

theorem canceled_or_unreachable_cancelsBetween :
    Run.Throughout (step joinOfTwo) CanceledOrUnreachable
      (cancelsBetween.foldl (step joinOfTwo) (.init joinOfTwo)) [actionOf "task2" canceled] :=
  canceled_or_unreachable joinOfTwo (Or.inl (by decide +kernel)) (by decide) (by
    rw [← List.foldl_append]
    exact not_failedToEvaluate_cancelsBetween)

/-- The second task is canceled as well, and the workflow fails. -/
theorem not_canceled_cancelsBetween :
    (cancelsBetween.foldl (step joinOfTwo) (.init joinOfTwo)).status = canceling ∧
      (∀ c ∈ [actionOf "task2" canceled], c.asksNoFailure = true) ∧
      ¬ ((cancelsBetween ++ [actionOf "task2" canceled]).foldl (step joinOfTwo)
        (.init joinOfTwo)).FailedToEvaluate ∧
      ((cancelsBetween ++ [actionOf "task2" canceled]).foldl (step joinOfTwo)
        (.init joinOfTwo)).status = failed :=
  ⟨by decide +kernel, by decide, not_failedToEvaluate_cancelsBetween, by decide +kernel⟩

end Orquesta
end IntegratedCLI
