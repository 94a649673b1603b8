import Mathlib.Data.List.Induction
import IntegratedCLI.Orquesta.ContextReads
import IntegratedCLI.Orquesta.Endings
import IntegratedCLI.Orquesta.RunOnFail

/-!
# A completed workflow stays completed

A client may go on calling after the workflow is completed: events arrive late for the tasks
that were still running, statuses are requested, next tasks are asked for, and the output is
rendered.  The status stays as it is, but that a failure to render the output fails a
workflow that succeeded; nothing is retried but at the request of the client; and the only
tasks that are given out are those that were staged together with `fail`
(`completed_stays`).

A session is a conductor with the outputs that were rendered; the specification of the
outputs is a parameter, as nothing else reads it.
-/

namespace IntegratedCLI
namespace Orquesta

open Effect Status

/-! ## Rendering the output -/

/-- Render the outputs of the workflow, each in the context of those before it. -/
def WorkflowSpec.renderOutput (ev : Evaluator) (state : Serialized) :
    List (String × Json) → List (String × Json) → List (String × Json) →
      List (String × Json) × List EvaluationError
  | [], _, rendered => (rendered, [])
  | (name, value) :: rest, vars, rendered =>
    match ev.evaluate ⟨vars, none, none, some state⟩ value with
    | .ok v => renderOutput ev state rest (Dict.put vars name v) (Dict.put rendered name v)
    | .error e =>
      let (rendered, errors) := renderOutput ev state rest vars rendered
      (rendered, e :: errors)

/-- A conductor with the outputs, of which there are none until they are rendered. -/
structure Session where
  conductor : Conductor
  outputs : List (String × Json)

def Session.init (wf : Workflow) : Session := ⟨.init wf, []⟩

/-- Work on the state of the workflow. -/
def onConductor {α : Type} (m : M α) : EStateM PyError Session α :=
  zoom Session.conductor (fun c s => { s with conductor := c }) m

/-- Render the output of a completed workflow, if that was not done.  The workflow fails if a
part of the output cannot be rendered. -/
def renderWorkflowOutput (wf : Workflow) (output : List (String × Json)) :
    EStateM PyError Session Unit := do
  let status := (← get).conductor.status
  if status ∈ completedStatuses ∧ (← get).outputs.isEmpty then
    let ctx ← onConductor getWorkflowTerminalContext
    let c := (← get).conductor
    let rendered :=
      WorkflowSpec.renderOutput wf.evaluator c.serialize output (c.dicts.fields ctx) []
    if !rendered.1.isEmpty then modify fun s => { s with outputs := rendered.1 } else pure ()
    if !rendered.2.isEmpty then
      onConductor (modify (Conductor.logErrors rendered.2 none none none))
      if status ∉ [expired, abandoned, canceled] then
        onConductor (requestWorkflowStatus (some failed))
      else pure ()
    else pure ()
  else pure ()

/-- A call of a client that does not run the workflow again. -/
inductive SessionCall where
  | call (c : Call)
  | renderWorkflowOutput

/-- The client asks for a task to be retried, as the conductor does of itself. -/
def SessionCall.asksRetry : SessionCall → Bool
  | .call (.updateTaskState _ _ event) => event.name = .operation .taskRetry
  | _ => false

/-- Run the call.  What it wrote before an exception stays. -/
def sessionStep (wf : Workflow) (output : List (String × Json)) (s : Session) :
    SessionCall → Session
  | .call c => { s with conductor := step wf s.conductor c }
  | .renderWorkflowOutput => after (renderWorkflowOutput wf output) s

def sessionAfter (wf : Workflow) (output : List (String × Json)) (calls : List SessionCall) :
    Session := calls.foldl (sessionStep wf output) (.init wf)

/-! ## What a call does -/

section Calls

variable {wf : Workflow} {output : List (String × Json)} {F : Option Status → Conductor → Prop}
  {R : Conductor → Status → Prop} {asked : Prop} {s s' : Conductor}

/-- The turns of a session are those of its conductor. -/
def SessionTurns (wf : Workflow) (F : Option Status → Conductor → Prop)
    (R : Conductor → Status → Prop) (s s' : Session) : Prop := Turns wf F R s.conductor s'.conductor

instance : IsPreorder Session (SessionTurns wf F R) where
  refl _ := .refl
  trans _ _ _ h h' := Relation.ReflTransGen.trans h h'

theorem moves_onConductor {α : Type} {m : M α} (h : Moves (Turns wf F R) m) :
    Moves (SessionTurns wf F R) (onConductor m) := by
  refine moves_iff.mpr fun s => ?_
  unfold onConductor
  rw [outcome_zoom]
  exact h.outcome s.conductor

/-- Rendering the output does the turns of a request to fail. -/
theorem renderWorkflowOutput_turns (hF : ∀ s, F (some failed) s) :
    Moves (SessionTurns wf F R) (renderWorkflowOutput wf output) := by
  have hfail : ∀ (errors : List EvaluationError) (st : Status), Moves (SessionTurns wf F R) (do
      if !errors.isEmpty then
        onConductor (modify (Conductor.logErrors errors none none none))
        if st ∉ [expired, abandoned, canceled] then
          onConductor (requestWorkflowStatus (some failed))
        else pure ()
      else pure ()) := by
    intro errors st
    split
    · refine moves_bind (moves_onConductor (moves_modify fun s => ?_)) fun _ => ?_
      · exact (logErrors_aside errors _ _ _ s).turns
      · split
        · refine moves_onConductor (moves_iff.mpr fun s => ?_)
          exact requestWorkflowStatus_turns fun s' _ _ => hF s'
        · exact moves_pure _
    · exact moves_pure _
  unfold renderWorkflowOutput
  refine moves_bind moves_get fun s => moves_bind moves_get fun s' => ?_
  split
  · have hcontext : Moves (Turns wf F R) getWorkflowTerminalContext :=
      getWorkflowTerminalContext_reads.mono fun _ _ h => h.1.aside.turns
    refine moves_bind (moves_onConductor hcontext) fun ctx => moves_bind moves_get fun s₁ => ?_
    dsimp only
    split
    · exact moves_bind (moves_modify fun _ => .refl) fun _ => hfail _ _
    · exact hfail _ _
  · exact moves_pure _

/-- A call is an update or a sequence of turns, and `asked` is what a request for a retry says. -/
theorem sessionStep_turns (wf : Workflow) (output : List (String × Json)) (s : Session)
    {c : SessionCall} (hasked : c.asksRetry = true → asked) :
    (∃ t r, Updated wf (fun _ _ => True) (Retries asked) t r s.conductor
        (sessionStep wf output s c).conductor) ∨
      Turns wf (fun _ _ => True) (Retries asked) s.conductor
        (sessionStep wf output s c).conductor := by
  cases c with
  | renderWorkflowOutput => exact Or.inr (renderWorkflowOutput_turns (fun _ => trivial) s)
  | call c =>
    cases c with
    | requestWorkflowStatus st =>
      exact Or.inr (outcome_after.mp (requestWorkflowStatus_turns fun _ _ _ => trivial))
    | updateTaskState t r event =>
      refine Or.inl ⟨t, r, outcome_after.mp (updateTaskStateTo_updated _ r ?_)⟩
      rintro rfl
      exact Or.inr (Or.inr (hasked rfl))
    | getNextTasks => exact Or.inr (outcome_after.mp (getNextTasks_turns fun _ _ _ => trivial))

theorem sessionStep_lasting (s : Session) (c : SessionCall) :
    Lasting s.conductor (sessionStep wf output s c).conductor := by
  have hturn : ∀ s s', Turn wf (fun _ _ => True) (Retries True) s s' → Lasting s s' := fun _ _ h => h.lasting
  rcases sessionStep_turns wf output s (c := c) (fun _ => trivial) with ⟨t, r, h⟩ | h
  · refine h.within hturn fun spec idx ctx => ?_
    exact stageTransitions_within hturn (fun _ _ _ => lasting_of_status rfl)
      (fun _ _ => lasting_of_status rfl) (fun _ _ => trivial) spec t r ctx
  · exact h.within hturn

theorem sessionStep_marking (s : Session) (c : SessionCall) :
    Marks s.conductor (sessionStep wf output s c).conductor := by
  rcases sessionStep_turns wf output s (c := c) (fun _ => trivial) with ⟨t, r, h⟩ | h
  · exact h.marking
  · exact h.unmarking.marking

/-! ## Retries -/

/-- No task begins to be retried. -/
def NoneRetried (s s' : Conductor) : Prop := ∀ i, s'.retryingAt i = true → s.retryingAt i = true

/-- No task of a completed workflow begins to be retried. -/
structure Quiet (s s' : Conductor) : Prop where
  lasting : Lasting s s'
  retried : s.status ∈ completedStatuses → NoneRetried s s'

instance : IsPreorder Conductor Quiet where
  refl s := ⟨refl_of Lasting s, fun _ _ h => h⟩
  trans _ _ _ h h' := by
    refine ⟨trans_of Lasting h.lasting h'.lasting, fun hs i hi => ?_⟩
    exact h.retried hs i (h'.retried (h.lasting.completed hs) i hi)

theorem noneRetried_of_entries (h : ∀ (i : ℕ) (e' : TaskState), s'.sequence[i]? = some e' →
    e'.status = some retrying → ∃ e : TaskState, s.sequence[i]? = some e ∧ e.status = some retrying) :
    NoneRetried s s' := by
  intro i hi
  obtain ⟨e', he', hst'⟩ := (Option.any_eq_true _ _).mp hi
  obtain ⟨e, he, hst⟩ := h i e' he' (of_decide_eq_true hst')
  exact (Conductor.retryingAt_eq he).mpr hst

theorem noneRetried_of_sequence (h : s'.sequence = s.sequence) : NoneRetried s s' := by
  intro i hi
  unfold Conductor.retryingAt at hi ⊢
  rw [← h]
  exact hi

theorem OnlyStatus.noneRetried (h : OnlyStatus s s') : NoneRetried s s' := by
  unfold OnlyStatus at h
  exact noneRetried_of_sequence (by rw [h])

theorem noneRetried_updateEntry {f : TaskState → TaskState} (hf : ∀ e, (f e).status = some retrying →
    e.status = some retrying) (i : ℕ) (s : Conductor) : NoneRetried s (s.updateEntry i f) := by
  refine noneRetried_of_entries fun j e' hj hst => ?_
  have hget : (s.updateEntry i f).sequence[j]? =
      if i = j then s.sequence[j]?.map f else s.sequence[j]? := Positions.getElem?_modify _ _ _ _
  rw [hget] at hj
  split at hj
  · obtain ⟨e, he, rfl⟩ := Option.map_eq_some_iff.mp hj
    exact ⟨e, he, hf e hst⟩
  · exact ⟨e', hj, hst⟩

/-- A retry is begun in an active workflow only. -/
theorem Turn.quiet (h : Turn wf F (Retries False) s s') : Quiet s s' := by
  refine ⟨h.lasting, fun hs => ?_⟩
  cases h with
  | aside h => exact noneRetried_of_entries fun _ _ => h.of_status
  | notified h => exact (processTaskEvent_onlyStatus h).noneRetried
  | requested _ h => exact (processWorkflowEvent_onlyStatus h).noneRetried
  | told _ hst =>
    refine noneRetried_updateEntry (fun e hret => ?_) _ s
    cases (nextStatus_to_retrying (Option.some.inj hret ▸ hst)).1
  | advanced _ _ hretry =>
    refine noneRetried_updateEntry (fun e hst => ?_) _ s
    have hactive := (hretry (Option.some.inj hst)).resolve_right id
    exact absurd hactive (not_active_of_completed hs)

theorem sessionStep_quiet (s : Session) {c : SessionCall} (hc : c.asksRetry = false) :
    Quiet s.conductor (sessionStep wf output s c).conductor := by
  have hturn : ∀ s s', Turn wf (fun _ _ => True) (Retries False) s s' → Quiet s s' := fun _ _ h => h.quiet
  have hnot : c.asksRetry = true → False := fun h => Bool.noConfusion (hc.symm.trans h)
  rcases sessionStep_turns wf output s hnot with ⟨t, r, h⟩ | h
  · refine h.within hturn fun spec idx ctx => ?_
    refine stageTransitions_within hturn (fun tid met s => ?_) (fun i s => ?_)
      (fun _ _ => trivial) spec t r ctx
    · refine ⟨lasting_of_status rfl, fun _ => noneRetried_updateEntry ?_ idx s⟩
      exact fun _ h => h
    · exact ⟨lasting_of_status rfl, fun _ => noneRetried_of_sequence rfl⟩
  · exact h.within hturn

end Calls

/-! ## The tasks that are given out -/

/-- A completed workflow gives out marked tasks only. -/
theorem getNextTasks_marked (wf : Workflow) {s : Conductor} (hs : s.status ∈ completedStatuses) :
    Outcome (getNextTasks wf) (fun tasks _ => ∀ task ∈ tasks, s.Marked task.id task.route)
      (fun _ _ => True) s := by
  have hnot : s.status ∉ runningStatuses := by
    revert hs
    cases s.status <;> decide
  unfold getNextTasks
  rw [outcome_bind, outcome_get]
  extract_lets staged remediation
  split
  · exact fun _ h => absurd h List.not_mem_nil
  · rename_i hopen
    rw [not_and, Bool.not_eq_true] at hopen
    rw [hopen hnot, outcome_bind]
    refine (collectNext_keys wf _ _ s).mono ?_ fun _ _ _ => trivial
    rintro ⟨failOnRendering, tasks⟩ s₁ ⟨ks, hks, hkeys⟩
    dsimp only
    split
    · rw [outcome_bind]
      refine outcome_true.mono (fun _ _ _ => ?_) fun _ _ _ => trivial
      exact fun _ h => absurd h List.not_mem_nil
    · intro task htask
      have hkey : task.key ∈ tasks.map NextTask.key :=
        List.mem_map_of_mem ((List.mem_insertionSort _).mp htask)
      rw [hkeys, List.map_nil, List.nil_append] at hkey
      obtain ⟨x, hx, hxkey⟩ := List.mem_map.mp (hks.subset hkey)
      have hremediation : x ∈ s.staged ∧ x.runOnFail = true := by
        rw [if_neg Bool.false_ne_true] at hx
        change x ∈ (if s.status = failed then staged.filter StagedTaskOf.runOnFail else []) at hx
        split at hx
        · exact ⟨List.mem_of_mem_filter (List.mem_of_mem_filter hx), List.of_mem_filter hx⟩
        · cases hx
      exact ⟨x, hremediation.1, congrArg TaskKey.id hxkey, congrArg TaskKey.route hxkey,
        hremediation.2⟩

/-- In a new workflow no staged task is marked. -/
theorem init_unmarked (wf : Workflow) (t : String) (r : ℕ) : ¬ (Conductor.init wf).Marked t r := by
  have hempty : ∀ s : Conductor, s.staged = [] → ¬ s.Marked t r := by
    rintro s hs ⟨x, hx, _⟩
    rw [hs] at hx
    cases hx
  refine outcome_after (P := fun s : Conductor => ¬ s.Marked t r).mp ?_
  refine makeWorkflowState_rule (I := fun s => s.staged = []) ?_ hempty ?_ rfl
  · intro s s' hs h
    have hwaiting := hs.waiting
    unfold Conductor.waiting at hwaiting
    rw [h, List.map_nil, List.sublist_nil, List.map_eq_nil_iff] at hwaiting
    exact hwaiting
  · intro s d hs
    have hroots : Moves Aside (stageRoots wf) := by
      refine moves_forM fun t _ => moves_iff.mpr fun s => ?_
      rw [outcome_bind, outcome_get]
      dsimp only
      rw [outcome_set]
      refine trans_of Aside (b := ((s.allocList [0]).2.allocPrev []).2) ?_ ?_
      · exact aside_of_eq rfl (fun _ h => h) rfl rfl rfl
      · exact addStagedTask_aside _ _ _ _ _ _ _
    refine hroots.step (fun _ s' h => ?_) fun _ s' h => ?_
    · exact fun hm => hempty _ hs (h.unmarking.marks t r hm)
    · exact fun hm => hempty _ hs (h.unmarking.marks t r hm)

/-! ## Runs -/

section Runs

variable {wf : Workflow} {output : List (String × Json)}

theorem sessionAfter_concat (calls : List SessionCall) (c : SessionCall) :
    sessionAfter wf output (calls ++ [c]) = sessionStep wf output (sessionAfter wf output calls) c :=
  List.foldl_concat ..

theorem run_lasting (before after : List SessionCall) :
    Lasting (sessionAfter wf output before).conductor
      (sessionAfter wf output (before ++ after)).conductor := by
  induction after using List.reverseRecOn with
  | nil =>
    rw [List.append_nil]
    exact refl_of Lasting _
  | append_singleton after c ih =>
    rw [← List.append_assoc, sessionAfter_concat]
    exact trans_of Lasting ih (sessionStep_lasting _ c)

/-- A staged task that is marked was marked by an update that took it together with `fail`. -/
theorem run_marked (calls : List SessionCall) (t : String) (r : ℕ)
    (h : (sessionAfter wf output calls).conductor.Marked t r) :
    ∃ n ≤ calls.length, (sessionAfter wf output (calls.take n)).conductor.Marked t r ∧
      (sessionAfter wf output (calls.take n)).conductor.TookWithFail t := by
  induction calls using List.reverseRecOn with
  | nil => exact absurd h (init_unmarked wf t r)
  | append_singleton calls c ih =>
    rw [sessionAfter_concat] at h
    rcases sessionStep_marking _ c t r h with hm | htook
    · obtain ⟨n, hn, htake⟩ := ih hm
      refine ⟨n, hn.trans ?_, ?_⟩
      · rw [List.length_append]
        exact Nat.le_add_right _ _
      · rw [List.take_append_of_le_length hn]
        exact htake
    · refine ⟨(calls ++ [c]).length, le_rfl, ?_⟩
      rw [List.take_length, sessionAfter_concat]
      exact ⟨h, htook⟩

end Runs

/-- If the workflow is completed after the calls `before`, then it is so after the calls
`before ++ after`, and nothing is begun any more: the tasks that are given out were staged
together with `fail`, and no task is retried unless the client asks for it. -/
structure StaysCompleted (wf : Workflow) (output : List (String × Json))
    (before after : List SessionCall) : Prop where
  lasting : Lasting (sessionAfter wf output before).conductor
    (sessionAfter wf output (before ++ after)).conductor
  givenOut : (sessionAfter wf output before).conductor.status ∈ completedStatuses →
    ∀ tasks, result (getNextTasks wf) (sessionAfter wf output (before ++ after)).conductor =
      .ok tasks → ∀ task ∈ tasks, ∃ n ≤ (before ++ after).length,
        let s := (sessionAfter wf output ((before ++ after).take n)).conductor
        s.Marked task.id task.route ∧ s.TookWithFail task.id
  retried : (sessionAfter wf output before).conductor.status ∈ completedStatuses →
    ∀ c : SessionCall, c.asksRetry = false →
      NoneRetried (sessionAfter wf output (before ++ after)).conductor
        (sessionAfter wf output (before ++ after ++ [c])).conductor

/-- **A completed workflow stays completed.** -/
theorem completed_stays (wf : Workflow) (output : List (String × Json))
    (before after : List SessionCall) : StaysCompleted wf output before after := by
  have hlasting : Lasting (sessionAfter wf output before).conductor
      (sessionAfter wf output (before ++ after)).conductor := run_lasting before after
  refine ⟨hlasting, fun hs tasks htasks task htask => ?_, fun hs c hc => ?_⟩
  · have hout := (getNextTasks_marked wf (hlasting.completed hs)).of_result_ok htasks
    have hmarked : (sessionAfter wf output (before ++ after)).conductor.Marked task.id task.route := by
      unfold Outcome at hout
      split at hout
      · exact hout.2 task (hout.1 ▸ htask)
      · exact hout.elim
    exact run_marked _ _ _ hmarked
  · rw [sessionAfter_concat]
    exact (sessionStep_quiet _ hc).retried (hlasting.completed hs)

/-! ### A task that may be retried once -/

/-- The task failed for the last time, and the client asks for a retry. -/
def retriesFailed : SessionCall := .call (.updateTaskState "task1" 0 (.operation .taskRetry))

theorem not_noneRetried_retriesFailed :
    (sessionAfter retriedTask [] (failsTwice.map .call)).conductor.status = failed ∧
      ¬ NoneRetried (sessionAfter retriedTask [] (failsTwice.map .call)).conductor
        (sessionAfter retriedTask [] (failsTwice.map .call ++ [retriesFailed])).conductor := by
  refine ⟨by decide +kernel, fun h => ?_⟩
  have hbefore : (sessionAfter retriedTask [] (failsTwice.map .call)).conductor.retryingAt 0 =
      false := by decide +kernel
  have hafter : (sessionAfter retriedTask []
      (failsTwice.map .call ++ [retriesFailed])).conductor.retryingAt 0 = true := by decide +kernel
  exact Bool.noConfusion (hbefore.symm.trans (h 0 hafter))

end Orquesta
end IntegratedCLI
