import IntegratedCLI.Orquesta.Retrying

/-!
# The turns of a call

The status of the workflow is written by the workflow machine, when it is told of a task or
of a request, and the status of an entry by the task machine.  `Turn` lists what a call can do
that matters to either; everything else is an `Aside`, which leaves the status as it is, loses
nothing of the log, keeps the entries that have a status as the machines see them, and gives
no staged task the mark `run_on_fail`.

An update is a sequence of turns in which the transitions of the task are taken at most once,
and those of an engine command never are (`updateTaskStateTo_updated`).  A retry of a task is
begun in an active workflow only, unless the client asks for it.
-/

namespace IntegratedCLI
namespace Orquesta

open Effect Status

/-! ## Asides -/

/-- The entries with a status are as they were, for the two machines, and none is the last one of
its task that was not. -/
def EntriesKept (s s' : Conductor) : Prop :=
  ∀ (i : ℕ) (e' : TaskState), s'.sequence[i]? = some e' → e'.status = none ∨
    ∃ e : TaskState, s.sequence[i]? = some e ∧ e'.id = e.id ∧ e'.route = e.route ∧
      e'.status = e.status ∧ e'.next = e.next ∧
      (s'.taskStateIdx e.id e.route = some i → s.taskStateIdx e.id e.route = some i)

theorem entriesKept_of_eq {s s' : Conductor} (hsequence : s'.sequence = s.sequence)
    (htasks : s'.tasks = s.tasks) : EntriesKept s s' := by
  refine fun i e hi => Or.inr ⟨e, hsequence ▸ hi, rfl, rfl, rfl, rfl, fun hlast => ?_⟩
  unfold Conductor.taskStateIdx at hlast ⊢
  rw [← htasks]
  exact hlast

instance : IsPreorder Conductor EntriesKept where
  refl _ := entriesKept_of_eq rfl rfl
  trans := by
    intro s₁ s₂ s₃ h h' i e₃ hi₃
    rcases h' i e₃ hi₃ with hnone | ⟨e₂, hi₂, hid, hroute, hst, hnext, hlast⟩
    · exact Or.inl hnone
    · rcases h i e₂ hi₂ with hnone | ⟨e₁, hi₁, hid', hroute', hst', hnext', hlast'⟩
      · exact Or.inl (hst.trans hnone)
      · refine Or.inr ⟨e₁, hi₁, hid.trans hid', hroute.trans hroute', hst.trans hst',
          hnext.trans hnext', fun h => hlast' ?_⟩
        rw [← hid', ← hroute'] at h ⊢
        exact hlast h

/-- A write that is of no concern to the two machines. -/
structure Aside (s s' : Conductor) : Prop where
  status : s'.status = s.status
  log : s.errors ⊆ s'.errors
  entries : EntriesKept s s'
  marks : ∀ x' ∈ s'.staged, x'.runOnFail = true →
    ∃ x ∈ s.staged, x.id = x'.id ∧ x.route = x'.route ∧ x.runOnFail = true
  taken : ∀ (i : ℕ) (e : TaskState), s.sequence[i]? = some e →
    ∃ e' : TaskState, s'.sequence[i]? = some e' ∧
      ∀ tid, e.next.lookup tid = some true → e'.next.lookup tid = some true

instance : IsPreorder Conductor Aside where
  refl s := ⟨rfl, fun _ h => h, refl_of EntriesKept s, fun x hx hm => ⟨x, hx, rfl, rfl, hm⟩,
    fun _ e h => ⟨e, h, fun _ h => h⟩⟩
  trans _ _ _ h h' := by
    refine ⟨h'.status.trans h.status, fun _ hx => h'.log (h.log hx),
      trans_of EntriesKept h.entries h'.entries, fun x hx hm => ?_, fun i e hi => ?_⟩
    · obtain ⟨x', hx', hid', hroute', hm'⟩ := h'.marks x hx hm
      obtain ⟨x'', hx'', hid'', hroute'', hm''⟩ := h.marks x' hx' hm'
      exact ⟨x'', hx'', hid''.trans hid', hroute''.trans hroute', hm''⟩
    · obtain ⟨e', hi', hnext'⟩ := h.taken i e hi
      obtain ⟨e'', hi'', hnext''⟩ := h'.taken i e' hi'
      exact ⟨e'', hi'', fun tid htid => hnext'' tid (hnext' tid htid)⟩

/-- No entry is put into a status. -/
theorem Aside.of_status {s s' : Conductor} (h : Aside s s') {st : Status} {i : ℕ} {e' : TaskState}
    (hi : s'.sequence[i]? = some e') (hst : e'.status = some st) :
    ∃ e : TaskState, s.sequence[i]? = some e ∧ e.status = some st := by
  rcases h.entries i e' hi with hnone | ⟨e, he, _, _, hsame, _⟩
  · rw [hnone] at hst
    cases hst
  · exact ⟨e, he, hsame.symm.trans hst⟩

/-- No entry is lost if each of them is found again. -/
theorem length_le_of_found {s s' : Conductor} {P : TaskState → TaskState → Prop}
    (h : ∀ (i : ℕ) (e : TaskState), s.sequence[i]? = some e →
      ∃ e' : TaskState, s'.sequence[i]? = some e' ∧ P e e') :
    s.sequence.length ≤ s'.sequence.length := by
  refine le_of_not_gt fun hlt => ?_
  obtain ⟨e', he', _⟩ := h _ _ (List.getElem?_eq_getElem hlt)
  rw [List.getElem?_eq_none le_rfl] at he'
  cases he'

theorem Aside.length {s s' : Conductor} (h : Aside s s') :
    s.sequence.length ≤ s'.sequence.length := length_le_of_found h.taken

section Asides

variable {wf : Workflow} {s s' : Conductor} {t : String} {r i idx : ℕ}

/-- The entries and the staged tasks are not written. -/
theorem aside_of_eq (hstatus : s'.status = s.status) (hlog : s.errors ⊆ s'.errors)
    (hsequence : s'.sequence = s.sequence) (htasks : s'.tasks = s.tasks)
    (hstaged : s'.staged = s.staged) : Aside s s' := by
  refine ⟨hstatus, hlog, entriesKept_of_eq hsequence htasks, fun x hx hm => ?_, fun i e hi => ?_⟩
  · exact ⟨x, hstaged ▸ hx, rfl, rfl, hm⟩
  · exact ⟨e, hsequence ▸ hi, fun _ h => h⟩

theorem Alloc.aside (h : Alloc s s') : Aside s s' := by
  obtain ⟨_, _, _, _, _, rfl⟩ := h
  exact aside_of_eq rfl (fun _ h => h) rfl rfl rfl

theorem OnlyDicts.aside (h : OnlyDicts s s') : Aside s s' := h.alloc.aside

theorem logEntry_log (entry : LogEntry) (s : Conductor) : s.errors ⊆ (s.logEntry entry).errors := by
  unfold Conductor.logEntry
  split
  · exact fun _ h => h
  · exact List.subset_append_left _ _

theorem logEntry_aside (entry : LogEntry) (s : Conductor) : Aside s (s.logEntry entry) := by
  have h := logEntry_onlyLog entry s
  unfold OnlyLog at h
  refine aside_of_eq (logEntry_status entry s) (logEntry_log entry s) ?_ ?_ ?_
  · rw [h]
  · rw [h]
  · rw [h]

theorem logErrors_aside (es : List EvaluationError) (t : Option String) (r : Option ℕ)
    (tid : Option TransitionId) (s : Conductor) : Aside s (s.logErrors es t r tid) := by
  unfold Conductor.logErrors
  induction es generalizing s with
  | nil => exact refl_of Aside s
  | cons e es ih => exact trans_of Aside (logEntry_aside _ s) (ih _)

/-- An entry is written, but for its task, its status and its transitions. -/
theorem aside_updateEntry {f : TaskState → TaskState}
    (hf : ∀ e, (f e).id = e.id ∧ (f e).route = e.route ∧ (f e).status = e.status ∧
      (f e).next = e.next) (i : ℕ) (s : Conductor) : Aside s (s.updateEntry i f) := by
  have hget : ∀ j, (s.updateEntry i f).sequence[j]? =
      if i = j then s.sequence[j]?.map f else s.sequence[j]? := fun j =>
    Positions.getElem?_modify _ _ _ _
  refine ⟨rfl, fun _ h => h, fun j e' hj => Or.inr ?_, fun x hx hm => ⟨x, hx, rfl, rfl, hm⟩,
    fun j e hj => ?_⟩
  · rw [hget] at hj
    split at hj
    · obtain ⟨e, he, rfl⟩ := Option.map_eq_some_iff.mp hj
      obtain ⟨hid, hroute, hst, hnext⟩ := hf e
      exact ⟨e, he, hid, hroute, hst, hnext, id⟩
    · exact ⟨e', hj, rfl, rfl, rfl, rfl, id⟩
  · rw [hget, hj]
    split
    · exact ⟨f e, rfl, fun tid htid => by rw [(hf e).2.2.2]; exact htid⟩
    · exact ⟨e, rfl, fun _ h => h⟩

theorem aside_pushEntry {e : TaskState} (he : e.status = none) (s : Conductor) :
    Aside s (pushEntry e s) := by
  refine ⟨rfl, fun _ h => h, fun j e' hj => ?_, fun x hx hm => ⟨x, hx, rfl, rfl, hm⟩,
    fun j e' hj => ⟨e', ?_, fun _ h => h⟩⟩
  · have hj : (s.sequence ++ [e])[j]? = some e' := hj
    rw [List.getElem?_append] at hj
    split at hj
    · rename_i hlt
      refine Or.inr ⟨e', hj, rfl, rfl, rfl, rfl, fun hlast => ?_⟩
      unfold Conductor.taskStateIdx pushEntry at hlast
      rw [Dict.lookup_put] at hlast
      split at hlast
      · cases hlast
        exact absurd hlt (lt_irrefl _)
      · exact hlast
    · obtain rfl := List.mem_singleton.mp (List.mem_of_getElem? hj)
      exact Or.inl he
  · exact getElem?_pushEntry hj

/-- A staged task is written, but for what it is of, and is not marked. -/
theorem aside_updateStaged {f : StagedTask → StagedTask}
    (hf : ∀ x, (f x).id = x.id ∧ (f x).route = x.route ∧
      ((f x).runOnFail = true → x.runOnFail = true)) (i : ℕ) (s : Conductor) :
    Aside s (s.updateStaged i f) := by
  refine ⟨rfl, fun _ h => h, entriesKept_of_eq rfl rfl, fun x' hx' hm => ?_,
    fun _ e h => ⟨e, h, fun _ h => h⟩⟩
  rcases Positions.mem_modify hx' with hx' | ⟨x, hx, rfl⟩
  · exact ⟨x', hx', rfl, rfl, hm⟩
  · obtain ⟨hid, hroute, hmark⟩ := hf x
    exact ⟨x, List.mem_of_getElem? hx, hid.symm, hroute.symm, hmark hm⟩

theorem removeStagedTask_aside (t : String) (r : ℕ) (s : Conductor) :
    Aside s (s.removeStagedTask t r) := by
  unfold Conductor.removeStagedTask
  split
  · exact refl_of Aside s
  · split
    · exact refl_of Aside s
    · exact ⟨rfl, fun _ h => h, entriesKept_of_eq rfl rfl,
        fun x hx hm => ⟨x, List.mem_of_mem_eraseIdx hx, rfl, rfl, hm⟩,
        fun _ e h => ⟨e, h, fun _ h => h⟩⟩

theorem addStagedTask_aside (t : String) (r : ℕ) (ctxs prev : Ref) (ready : Bool)
    (retry : Option Ref) (s : Conductor) : Aside s (s.addStagedTask t r ctxs prev ready retry) := by
  refine trans_of Aside (b := (s.orRoot ctxs).2) (orRoot_alloc s ctxs).1.aside ?_
  refine ⟨rfl, fun _ h => h, entriesKept_of_eq rfl rfl, fun x hx hm => ?_,
    fun _ e h => ⟨e, h, fun _ h => h⟩⟩
  rcases List.mem_append.mp hx with hx | hx
  · exact ⟨x, hx, rfl, rfl, hm⟩
  · rw [List.mem_singleton.mp hx] at hm
    cases hm

theorem moves_aside_of_onlyDicts {α : Type} {m : M α} (h : Moves OnlyDicts m) : Moves Aside m :=
  h.mono fun _ _ => OnlyDicts.aside

/-! ### Opening an entry -/

theorem Started.aside {ctxs : Ref} (h : Started wf t r ctxs s s') : Aside s s' := by
  obtain ⟨s₁, e, h₁, rfl, _, _, hst, _⟩ := h
  exact trans_of Aside h₁.aside (aside_pushEntry hst s₁)

theorem openEntry_aside (t : String) (r : ℕ) (event : Event) :
    Moves Aside (openEntry wf t r event) := by
  refine moves_iff.mpr fun s => (openEntry_outcome wf t r event s).mono ?_ fun _ _ h => h.aside
  rintro idx s' ⟨_, ⟨rfl, _⟩ | ⟨x, _, h, _⟩⟩
  · exact refl_of Aside s'
  · exact h.aside

theorem recordItem_aside (t : String) (r : ℕ) (staged : Option StagedTask) (event : Event) :
    Moves Aside (recordItem t r staged event) := by
  unfold recordItem
  split
  · split
    · exact moves_throw _
    · split
      · refine moves_bind moves_get fun s => ?_
        split
        · exact moves_pure _
        · refine moves_modify fun s => aside_updateStaged ?_ _ s
          exact fun _ => ⟨rfl, rfl, id⟩
      · exact moves_throw _
  · exact moves_pure _

theorem recordEvent_aside (t : String) (r : ℕ) (event : Event) :
    Moves Aside (recordEvent t r event) := by
  unfold recordEvent
  refine moves_bind moves_get fun s => ?_
  refine moves_bind ?_ fun _ => moves_bind (recordItem_aside t r _ event) fun _ => ?_
  · unfold unstageOnEvent
    refine moves_bind moves_get fun s => ?_
    split
    · exact moves_modify fun s => removeStagedTask_aside t r s
    · exact moves_pure _
  · unfold logFailed
    split
    · exact moves_modify fun s => logEntry_aside _ s
    · exact moves_pure _

/-! ### A retried and a completed task -/

theorem restage_aside (t : String) (r idx : ℕ) : Moves Aside (restage t r idx) := by
  unfold restage
  refine moves_bind moves_get fun s => ?_
  split
  · exact moves_throw _
  · split
    · exact moves_throw _
    · refine moves_bind (moves_modify fun s => ?_) fun _ => ?_
      · exact aside_of_eq rfl (fun _ h => h) rfl rfl rfl
      · refine moves_bind (moves_modify fun s => removeStagedTask_aside t r s) fun _ => ?_
        exact moves_modify fun s => addStagedTask_aside t r _ _ true _ s

theorem completeTask_aside (spec : TaskSpec) (t : String) (r idx : ℕ) (st : Status)
    (event : Event) : Moves Aside (completeTask spec t r idx st event) := by
  unfold completeTask
  refine moves_bind ?_ fun _ => moves_aside_of_onlyDicts (makeTaskContext_moves idx _)
  unfold closeStaged
  split
  · refine moves_bind moves_get fun s => ?_
    split
    · exact moves_throw _
    · refine moves_modify fun s => aside_updateStaged ?_ _ s
      exact fun _ => ⟨rfl, rfl, id⟩
  · exact moves_modify fun s => removeStagedTask_aside t r s

theorem markTerminal_aside (idx : ℕ) : Moves Aside (markTerminal idx) := by
  unfold markTerminal
  refine moves_bind moves_get fun s => ?_
  split
  · refine moves_modify fun s => aside_updateEntry ?_ idx s
    exact fun _ => ⟨rfl, rfl, rfl, rfl⟩
  · exact moves_pure _

/-! ### The next tasks -/

theorem stageNext_aside (t : String) (edge : Edge) (idx route : ℕ) (ctxs : List ℕ) :
    Moves Aside (stageNext t edge idx route ctxs) := by
  refine moves_iff.mpr fun s => (stageNext_outcome t edge idx route ctxs s).mono ?_ ?_
  · rintro i s' (⟨i, x, _, _, _, rfl⟩ | ⟨_, rfl⟩)
    · refine trans_of Aside (b := { s with
        lists := s.lists.modify x.ctxsIn (· ++ ctxs.erase 0)
        prevs := s.prevs.modify x.prev fun p => Dict.put p ⟨t, edge.key⟩ idx }) ?_ ?_
      · exact aside_of_eq rfl (fun _ h => h) rfl rfl rfl
      · refine aside_updateStaged ?_ i _
        exact fun _ => ⟨rfl, rfl, id⟩
    · refine trans_of Aside (b := { s with
        lists := s.lists ++ [ctxs], prevs := s.prevs ++ [[(⟨t, edge.key⟩, idx)]] }) ?_ ?_
      · exact aside_of_eq rfl (fun _ h => h) rfl rfl rfl
      · exact addStagedTask_aside _ _ _ _ _ _ _
  · rintro _ s' rfl
    exact refl_of Aside s'

theorem evaluateRoute_aside (edge : Edge) (r : ℕ) : Moves Aside (evaluateRoute wf edge r) := by
  refine moves_iff.mpr fun s => (evaluateRoute_outcome wf edge r s).mono ?_ ?_
  · rintro route s' (⟨_, rfl, _⟩ | ⟨ids, _, rfl⟩)
    · exact refl_of Aside s'
    · exact aside_of_eq rfl (fun _ h => h) rfl rfl rfl
  · rintro _ s' rfl
    exact refl_of Aside s'

theorem stageTaken_aside (t : String) (r idx : ℕ) (out : Outgoing) (edge : Edge)
    (ctxs : List ℕ) : Moves Aside (stageTaken wf t r idx out edge ctxs) := by
  unfold stageTaken
  refine moves_bind (evaluateRoute_aside edge r) fun route => ?_
  refine moves_bind (stageNext_aside t edge idx route ctxs) fun i => ?_
  refine moves_bind moves_get fun s => ?_
  dsimp only
  refine moves_bind (moves_modify fun s => aside_updateStaged ?_ i s) fun _ => ?_
  · exact fun _ => ⟨rfl, rfl, id⟩
  · split
    · exact moves_pure _
    · split
      · exact moves_pure _
      · exact moves_pure _

theorem appendContext_aside (vars : List (String × Json)) : Moves Aside (appendContext vars) := by
  refine moves_iff.mpr fun s => (appendContext_outcome vars s).mono ?_ fun _ _ h => h.elim
  rintro i s' ⟨_, r, d, rfl⟩
  exact aside_of_eq rfl (fun _ h => h) rfl rfl rfl

theorem nextTask_aside (x : StagedTask) : Moves Aside (nextTask wf x) := by
  unfold nextTask
  refine moves_bind ?_ fun task => moves_bind ?_ fun task => ?_
  · unfold getTask
    refine moves_bind (moves_tryCatch
      (moves_aside_of_onlyDicts (getTaskInitialContext_moves _ _)) fun e => ?_) fun vars => ?_
    · split
      · exact moves_aside_of_onlyDicts (getTaskContext_moves _)
      · exact moves_throw _
    · refine moves_bind moves_get fun s => ?_
      refine moves_bind (moves_lift _) fun spec => ?_
      refine moves_bind (moves_lift _) fun actions => ?_
      refine moves_bind (moves_lift _) fun delay => ?_
      split
      · exact moves_pure _
      · exact moves_bind (moves_lift _) fun _ => moves_pure _
  · unfold evaluateTaskActions
    split
    · exact moves_pure _
    · refine moves_bind moves_get fun s => ?_
      split
      · exact moves_throw _
      · dsimp only
        refine moves_bind (moves_modify fun s => aside_updateStaged ?_ _ s) fun _ => ?_
        · exact fun _ => ⟨rfl, rfl, id⟩
        · exact moves_bind (moves_lift _) fun _ => moves_pure _
  · refine moves_bind moves_get fun s => ?_
    extract_lets last
    split
    · exact moves_pure _
    · exact moves_pure _

theorem collectNext_aside (acc : Bool × List NextTask) (x : StagedTask) :
    Moves Aside (collectNext wf acc x) := by
  unfold collectNext
  refine moves_tryCatch (moves_bind (nextTask_aside x) fun task => ?_) fun e => ?_
  · split
    · exact moves_pure _
    · exact moves_pure _
  · exact moves_bind (moves_modify fun s => logEntry_aside _ s) fun _ => moves_pure _

end Asides

/-! ## The log -/

namespace Conductor

/-- An expression could not be evaluated. -/
def FailedToEvaluate (s : Conductor) : Prop :=
  ∃ entry ∈ s.errors, ∃ e, entry.message = .exception (.evaluation e)

/-- A join could not be reached. -/
def FoundUnreachable (s : Conductor) : Prop :=
  ∃ entry ∈ s.errors, ∃ t r, entry.message = .exception (.unreachableJoin t r)

variable {s : Conductor} {t : Option String} {r : Option ℕ} {tid : Option TransitionId}

theorem logError_mem (s : Conductor) (e : PyError) (t : Option String) (r : Option ℕ)
    (tid : Option TransitionId) :
    ∃ entry ∈ (s.logError e t r tid).errors, entry.message = .exception e := by
  unfold logError logEntry
  split
  · rename_i h
    obtain ⟨entry, hmem, hequal⟩ := List.any_eq_true.mp h
    unfold LogEntry.equal at hequal
    rw [Bool.and_eq_true, decide_eq_true_eq] at hequal
    exact ⟨entry, hmem, hequal.1.1.symm⟩
  · exact ⟨_, List.mem_append_right _ (List.mem_singleton_self _), rfl⟩

theorem logErrors_failedToEvaluate {es : List EvaluationError} (hes : es ≠ []) :
    (s.logErrors es t r tid).FailedToEvaluate := by
  obtain ⟨e, es, rfl⟩ := List.exists_cons_of_ne_nil hes
  obtain ⟨entry, hmem, hmessage⟩ := logError_mem s (.evaluation e) t r tid
  exact ⟨entry, (logErrors_aside es t r tid _).log hmem, e, hmessage⟩

end Conductor

/-- A completed workflow with a join that cannot be reached has failed, and the join is in
the log. -/
theorem failUnreachable_log (wf : Workflow) (s : Conductor) :
    Outcome (WorkflowStateMachine.failUnreachable wf)
      (fun _ s' => s.errors ⊆ s'.errors ∧
        (s' = s ∨ s'.status = failed ∧ s.status ∈ completedStatuses ∧ s'.FoundUnreachable))
      (fun _ _ => False) s := by
  unfold WorkflowStateMachine.failUnreachable
  rw [outcome_bind, outcome_get]
  split
  · rename_i hst
    dsimp only
    split
    · exact ⟨fun _ h => h, Or.inl rfl⟩
    · rename_i hne
      obtain ⟨x, xs, hxs⟩ := List.exists_cons_of_ne_nil hne
      rw [outcome_bind, outcome_modify, hxs, List.forM_cons, outcome_bind, outcome_modify]
      obtain ⟨entry, hmem, hmessage⟩ := (s.setStatus failed).logError_mem
        (.unreachableJoin x.id x.route) (some x.id) (some x.route) none
      refine (outcome_forM (I := fun s' => s.errors ⊆ s'.errors ∧ s'.status = failed ∧
        s'.FoundUnreachable) ?_ ⟨?_, ?_, ?_⟩).mono (fun _ s' hs' => ?_) fun _ _ h => h
      · rintro y _ s' ⟨hlog, hst', entry, hmem, hmessage⟩
        exact ⟨fun _ h => logEntry_log _ s' (hlog h), (logEntry_status _ s').trans hst', entry,
          logEntry_log _ s' hmem, hmessage⟩
      · exact logEntry_log _ (s.setStatus failed)
      · exact logEntry_status _ (s.setStatus failed)
      · exact ⟨entry, hmem, x.id, x.route, hmessage⟩
      · exact ⟨hs'.1, Or.inr ⟨hs'.2.1, hst, hs'.2.2⟩⟩
  · exact ⟨fun _ h => h, Or.inl rfl⟩

/-- The machine of the workflow writes its status, and the log. -/
theorem processTaskEvent_onlyStatus {wf : Workflow} {t : String} {r : ℕ} {st : Status}
    {s s' : Conductor} (h : WorkflowStateMachine.processTaskEvent wf t r st s = .ok () s') :
    OnlyStatus s s' := by
  obtain ⟨_, ⟨_, rfl⟩ | ⟨new, _, ⟨rfl, _⟩ | ⟨honly, _⟩⟩⟩ :=
    (processTaskEvent_outcome wf t r st s).of_run h
  · exact refl_of OnlyStatus s'
  · rfl
  · exact honly

theorem processWorkflowEvent_onlyStatus {st : Option Status} {s s' : Conductor}
    (h : WorkflowStateMachine.processWorkflowEvent st s = .ok () s') : OnlyStatus s s' := by
  obtain ⟨_, ⟨_, rfl⟩ | ⟨new, _, rfl⟩⟩ := (processWorkflowEvent_outcome st s).of_run h
  · exact refl_of OnlyStatus s'
  · rfl

/-! ## Turns -/

/-- What a call does.  `F` holds of the requests that are made, and `R` of the statuses that
entries are given by the events of tasks. -/
inductive Turn (wf : Workflow) (F : Option Status → Conductor → Prop)
    (R : Conductor → Status → Prop) (s : Conductor) : Conductor → Prop
  | aside {s' : Conductor} (h : Aside s s') : Turn wf F R s s'
  /-- The workflow is told of a task. -/
  | notified {t : String} {r : ℕ} {st : Status} {s' : Conductor}
      (h : WorkflowStateMachine.processTaskEvent wf t r st s = .ok () s') : Turn wf F R s s'
  /-- The workflow is told of a request. -/
  | requested {st : Option Status} {s' : Conductor} (hF : F st s)
      (h : WorkflowStateMachine.processWorkflowEvent st s = .ok () s') : Turn wf F R s s'
  /-- A task is told of a request. -/
  | told {i : ℕ} {e : TaskState} {w : Option Status} {st : Status} (he : s.sequence[i]? = some e)
      (hst : TaskStateMachine.nextStatus s e (.workflow w) = .ok (some st)) :
      Turn wf F R s (s.updateEntry i fun e => { e with status := some st })
  /-- An event of a task gives its entry the next status. -/
  | advanced {i : ℕ} {e : TaskState} {event : Event} {st : Status} (he : s.sequence[i]? = some e)
      (hst : TaskStateMachine.nextStatus s e event = .ok (some st)) (hR : R s st) :
      Turn wf F R s (s.updateEntry i fun e => { e with status := some st })

abbrev Turns (wf : Workflow) (F : Option Status → Conductor → Prop)
    (R : Conductor → Status → Prop) : Conductor → Conductor → Prop :=
  Relation.ReflTransGen (Turn wf F R)

/-- A retry is begun in an active workflow, unless the client asks for it. -/
def Retries (asked : Prop) (s : Conductor) (st : Status) : Prop :=
  st = retrying → s.status ∈ activeStatuses ∨ asked

/-- What an update of a task does: turns, and the transitions of the task are taken at most
once. -/
inductive Updated (wf : Workflow) (F : Option Status → Conductor → Prop)
    (R : Conductor → Status → Prop) (t : String) (r : ℕ) (s s' : Conductor) : Prop
  | plain (h : Turns wf F R s s')
  | taken {s₁ : Conductor} (ht : isReserved t = false) (h : Turns wf F R s s₁) (spec : TaskSpec)
      (idx : ℕ) (ctx : EvalContext) (hidx : idx < s₁.sequence.length)
      (h' : Turns wf F R (after (stageTransitions wf spec t r idx ctx) s₁) s')

section Turns

variable {wf : Workflow} {F : Option Status → Conductor → Prop} {R : Conductor → Status → Prop}
  {s s' : Conductor} {asked : Prop}

instance : IsPreorder Conductor (Turns wf F R) where
  refl _ := .refl
  trans _ _ _ h h' := h.trans h'

theorem Aside.turns (h : Aside s s') : Turns wf F R s s' := .single (.aside h)

/-- **The rule for turns.**  A preorder that every turn is in has any number of them in it. -/
theorem Turns.within {Q : Conductor → Conductor → Prop} [IsPreorder Conductor Q]
    (hQ : ∀ s s', Turn wf F R s s' → Q s s') (h : Turns wf F R s s') : Q s s' := by
  induction h with
  | refl => exact refl_of Q s
  | tail _ hturn ih => exact trans_of Q ih (hQ _ _ hturn)

theorem moves_turns {α : Type} {m : M α} (h : Moves Aside m) : Moves (Turns wf F R) m :=
  h.mono fun _ _ => Aside.turns

/-! ### Requests -/

theorem tellTask_turns (i : ℕ) (st : Option Status) (s : Conductor) :
    Outcome (TaskStateMachine.processEvent i (.workflow st))
      (fun _ s' => Turns wf F R s s' ∧ s'.status = s.status ∧ s'.errors = s.errors)
      (fun _ s' => s' = s) s := by
  refine (processEvent_outcome i _ s).mono ?_ fun _ _ h => h.1
  rintro _ s' ⟨e, he, ⟨_, rfl⟩ | ⟨new, hnew, rfl⟩⟩
  · exact ⟨.refl, rfl, rfl⟩
  · exact ⟨.single (.told he hnew), rfl, rfl⟩

/-- **A request** is a sequence of turns.  The tasks are told before the workflow is. -/
theorem requestWorkflowStatus_turns {st : Option Status}
    (hF : ∀ s', s'.status = s.status → s'.errors = s.errors → F st s') :
    Outcome (requestWorkflowStatus st) (fun _ => Turns wf F R s) (fun _ => Turns wf F R s) s := by
  unfold requestWorkflowStatus
  rw [outcome_bind, outcome_get, outcome_bind]
  refine (outcome_forM (I := fun s' => Turns wf F R s s' ∧ s'.status = s.status ∧
    s'.errors = s.errors) (E := fun _ => Turns wf F R s) ?_ ⟨.refl, rfl, rfl⟩).mono ?_
    fun _ _ h => h
  · rintro p _ s₁ ⟨h₁, hstatus, hlog⟩
    have htold : Outcome (TaskStateMachine.processEvent p.2 (.workflow st))
        (fun _ s' => Turns wf F R s₁ s' ∧ s'.status = s₁.status ∧ s'.errors = s₁.errors)
        (fun _ s' => s' = s₁) s₁ := tellTask_turns p.2 st s₁
    refine htold.mono ?_ ?_
    · rintro _ s₂ ⟨h₂, hstatus', hlog'⟩
      exact ⟨h₁.trans h₂, hstatus'.trans hstatus, hlog'.trans hlog⟩
    · rintro _ s₂ rfl
      exact h₁
  · rintro _ s₁ ⟨h₁, hstatus, hlog⟩
    rw [outcome_bind]
    refine ((processWorkflowEvent_outcome st s₁).and outcome_run).mono ?_ ?_
    · rintro _ s₂ ⟨_, hrun⟩
      have h₂ : Turns wf F R s s₂ := h₁.tail (.requested (hF s₁ hstatus hlog) hrun)
      rw [outcome_bind, outcome_get]
      dsimp only
      split
      · exact h₂
      · split
        · exact h₂
        · split
          · exact h₂
          · exact h₂
    · rintro _ s₂ ⟨⟨rfl, _⟩, _⟩
      exact h₁

/-! ### The transitions of a completed task -/

/-- What was logged of an expression fails the workflow. -/
theorem failed_turns (hF : ∀ s : Conductor, s.FailedToEvaluate → F (some failed) s) {s₁ : Conductor}
    (h₁ : Turns wf F R s s₁) (hlog : s₁.FailedToEvaluate) (out : Outgoing) :
    Outcome (requestWorkflowStatus (some failed) >>= fun _ => pure out)
      (fun _ => Turns wf F R s) (fun _ => Turns wf F R s) s₁ := by
  have hrequest : Outcome (requestWorkflowStatus (some failed)) (fun _ => Turns wf F R s₁)
      (fun _ => Turns wf F R s₁) s₁ := by
    refine requestWorkflowStatus_turns fun s₂ _ h₂ => hF s₂ ?_
    unfold Conductor.FailedToEvaluate
    rw [h₂]
    exact hlog
  rw [outcome_bind]
  exact hrequest.mono (fun _ s₂ h₂ => h₁.trans h₂) fun _ s₂ h₂ => h₁.trans h₂

theorem takeTransition_turns (hF : ∀ s : Conductor, s.FailedToEvaluate → F (some failed) s)
    (spec : TaskSpec) (t : String) (r idx : ℕ) (ctx : EvalContext) (out : Outgoing) (edge : Edge) :
    Moves (Turns wf F R) (takeTransition wf spec t r idx ctx out edge) := by
  rw [takeTransition_eq]
  refine moves_bind (moves_lift _) fun result => ?_
  obtain ⟨vars, errors⟩ := result
  dsimp only
  split
  · rename_i herrors
    refine moves_iff.mpr fun s => ?_
    rw [outcome_bind, outcome_modify]
    have hne : errors ≠ [] := by
      rintro rfl
      cases herrors
    exact failed_turns hF (logErrors_aside errors _ _ _ s).turns
      (Conductor.logErrors_failedToEvaluate hne) out
  · refine moves_bind moves_get fun s => ?_
    split
    · exact moves_turns (stageTaken_aside t r idx out edge _)
    · refine moves_bind (moves_turns (appendContext_aside vars)) fun new => ?_
      refine moves_bind (moves_modify fun s => Aside.turns (aside_updateEntry ?_ idx s)) fun _ => ?_
      · exact fun _ => ⟨rfl, rfl, rfl, rfl⟩
      · exact moves_turns (stageTaken_aside t r idx out edge _)

section Stage

variable {Q : Conductor → Conductor → Prop} [IsPreorder Conductor Q]

theorem stageTransition_within (hQ : ∀ s s', Turn wf F R s s' → Q s s')
    {idx : ℕ} (hnoted : ∀ tid met s, Q s
      (Conductor.updateEntry idx (fun e => { e with next := Dict.put e.next tid met }) s))
    (hF : ∀ s : Conductor, s.FailedToEvaluate → F (some failed) s) (spec : TaskSpec) (t : String)
    (r : ℕ) (ctx : EvalContext) (out : Outgoing) (edge : Edge) :
    Moves Q (stageTransition wf spec t r idx ctx out edge) := by
  unfold stageTransition
  dsimp only
  split
  · rename_i e _
    refine moves_iff.mpr fun s => ?_
    rw [outcome_bind, outcome_modify]
    obtain ⟨entry, hmem, hmessage⟩ := s.logError_mem (.evaluation e) (some t) (some r)
      (some ⟨edge.dst, edge.key⟩)
    exact (failed_turns hF (logEntry_aside _ s).turns ⟨entry, hmem, e, hmessage⟩ out).mono
      (fun _ _ h => h.within hQ) fun _ _ h => h.within hQ
  · refine moves_bind (moves_modify (hnoted _ _)) fun _ => ?_
    split
    · exact (takeTransition_turns hF spec t r idx ctx out edge).mono fun _ _ h => h.within hQ
    · exact moves_pure _

/-- **The rule for the transitions of a task.**  A preorder that every turn is in, the notes of
the outcomes of the transitions and the marks of the staged tasks, has all of them in it. -/
theorem stageTransitions_within (hQ : ∀ s s', Turn wf F R s s' → Q s s')
    {idx : ℕ} (hnoted : ∀ tid met s, Q s
      (Conductor.updateEntry idx (fun e => { e with next := Dict.put e.next tid met }) s))
    (hmarked : ∀ i s, Q s (Conductor.updateStaged i (fun x => { x with runOnFail := true }) s))
    (hF : ∀ s : Conductor, s.FailedToEvaluate → F (some failed) s) (spec : TaskSpec) (t : String)
    (r : ℕ) (ctx : EvalContext) : Moves Q (stageTransitions wf spec t r idx ctx) := by
  unfold stageTransitions
  dsimp only
  have hloop : Moves Q (do
      let out ← (wf.graph.getNextTransitions t).foldlM (stageTransition wf spec t r idx ctx)
        ⟨[], false, []⟩
      if out.manualFail then
        forM out.readyNext fun i =>
          modify (Conductor.updateStaged i fun x => { x with runOnFail := true })
      else pure ()
      return out.commands) := by
    refine moves_bind (moves_foldlM (fun edge _ out => ?_) _) fun out => ?_
    · exact stageTransition_within hQ hnoted hF spec t r ctx out edge
    · dsimp only
      split
      · refine moves_bind (moves_forM fun i _ => ?_) fun _ => moves_pure _
        exact moves_modify (hmarked i)
      · exact moves_pure _
  split
  · refine moves_bind (moves_modify fun s => hQ _ _ (.aside (aside_updateEntry ?_ idx s)))
      fun _ => hloop
    exact fun _ => ⟨rfl, rfl, rfl, rfl⟩
  · exact hloop

end Stage

/-- No transition leaves an engine command. -/
theorem stageTransitions_aside {t : String} (ht : isReserved t = true) (spec : TaskSpec)
    (r idx : ℕ) (ctx : EvalContext) : Moves Aside (stageTransitions wf spec t r idx ctx) := by
  unfold stageTransitions
  dsimp only
  rw [Workflow.getNextTransitions_reserved ht]
  refine moves_bind (moves_modify fun s => aside_updateEntry ?_ idx s) fun _ => moves_pure _
  exact fun _ => ⟨rfl, rfl, rfl, rfl⟩

/-! ### Updates -/

theorem Begun.aside {t : String} {event : Event} {p : Progress} {s₀ s₁ : Conductor} {e : TaskState}
    (h : Begun wf t r event s p s₀ s₁ e s') : Aside s s₁ :=
  trans_of Aside (((openEntry_aside t r event).outcome s).of_run h.opened)
    (((recordEvent_aside t r event).outcome s₀).of_run h.recorded)

/-- The first half of an update opens the entry and records the event, and then the event
gives the entry the next status, if there is one. -/
theorem beginUpdate_aside (t : String) (r : ℕ) (event : Event) (s : Conductor) :
    Outcome (beginUpdate wf t r event)
      (fun p s' => p.idx < s'.sequence.length ∧
        (Aside s s' ∨ ∃ s₁ e, Aside s s₁ ∧ s₁.sequence[p.idx]? = some e ∧
          TaskStateMachine.nextStatus s₁ e event = .ok (some p.new) ∧
          s' = s₁.updateEntry p.idx fun e => { e with status := some p.new }))
      (fun _ => Aside s) s := by
  have herror : Outcome (beginUpdate wf t r event) (fun _ _ => True) (fun _ => Aside s) s := by
    unfold beginUpdate
    split
    · exact refl_of Aside s
    · rw [outcome_bind, outcome_get, outcome_bind]
      refine (moves_lift (R := Keeps id) _).step (fun spec s' hs' => ?_) fun _ s' hs' => ?_
      · obtain rfl : s' = s := hs'
        split
        · exact refl_of Aside s'
        · rw [outcome_bind]
          refine (openEntry_aside t r event).step (fun idx s₁ h₁ => ?_) fun _ _ h => h
          rw [outcome_bind]
          refine (recordEvent_aside t r event).step (fun _ s₂ h₂ => ?_) fun _ _ h => ?_
          · simp only [outcome_bind, statusAt, outcome_get, outcome_pure]
            refine (processEvent_outcome idx event s₂).mono (fun _ _ _ => trivial) ?_
            rintro _ s₃ ⟨rfl, _⟩
            exact trans_of Aside h₁ h₂
          · exact trans_of Aside h₁ h
      · obtain rfl : s' = s := hs'
        exact refl_of Aside s'
  refine ((beginUpdate_begun (J := fun _ _ => True) (K := fun _ _ => True) trivial event s).and
    herror).mono ?_ fun _ _ h => h.2
  rintro p s' ⟨⟨s₀, s₁, e, _, h⟩, _⟩
  have h₁ := h.aside
  have hidx : p.idx < s₁.sequence.length := (List.getElem?_eq_some_iff.mp h.entry).1
  rcases h.next with ⟨_, _, rfl⟩ | ⟨hnext, rfl⟩
  · exact ⟨hidx, Or.inl h₁⟩
  · exact ⟨hidx.trans_eq (List.length_modify ..).symm, Or.inr ⟨s₁, e, h₁, h.entry, hnext, rfl⟩⟩

/-- A retry is begun where the client asks for it, and in an active workflow. -/
theorem beginUpdate_turns {t : String} {event : Event} (r : ℕ)
    (hretry : event = .operation .taskRetry →
      isReserved t = true ∨ s.status ∈ activeStatuses ∨ asked) :
    Outcome (beginUpdate wf t r event)
      (fun p s' => Turns wf F (Retries asked) s s' ∧ p.idx < s'.sequence.length)
      (fun _ => Turns wf F (Retries asked) s) s := by
  have hreserved : Outcome (beginUpdate wf t r event)
      (fun p _ => isReserved t = true → p.new ≠ retrying) (fun _ _ => True) s := by
    cases ht : isReserved t with
    | false => exact outcome_true.mono (fun _ _ _ h => by cases h) fun _ _ _ => trivial
    | true =>
      exact (beginUpdate_reserved ht r event s).mono (fun _ _ h _ => h.1) fun _ _ _ => trivial
  refine ((beginUpdate_aside t r event s).and hreserved).mono ?_ fun _ _ h => h.1.turns
  rintro p s' ⟨⟨hidx, h | ⟨s₁, e, h₁, he, hnext, rfl⟩⟩, hnot⟩
  · exact ⟨h.turns, hidx⟩
  · refine ⟨h₁.turns.tail (.advanced he hnext fun hnew => ?_), hidx⟩
    rw [h₁.status]
    refine (hretry ?_).resolve_left fun ht => hnot ht hnew
    exact (nextStatus_to_retrying (hnew ▸ hnext)).1

theorem notifyWorkflow_turns (t : String) (r idx : ℕ) :
    Moves (Turns wf F R) (notifyWorkflow wf t r idx) := by
  unfold notifyWorkflow
  refine moves_bind moves_get fun s => ?_
  split
  · exact moves_throw _
  · rename_i st _
    refine moves_iff.mpr fun s => ?_
    refine ((processTaskEvent_outcome wf t r st s).and outcome_run).mono ?_ ?_
    · rintro _ s' ⟨_, hrun⟩
      exact .single (.notified hrun)
    · rintro _ s' ⟨⟨rfl, _⟩, _⟩
      exact .refl

/-- A retry is due in an active workflow only. -/
theorem needsRetry_active (idx : ℕ) (ctx : EvalContext) (s : Conductor) :
    Outcome (needsRetry wf idx ctx)
      (fun due s' => s' = s ∧ (due = true → s.status ∈ activeStatuses)) (fun _ s' => s' = s) s := by
  unfold needsRetry
  rw [outcome_bind, outcome_get]
  split
  · rename_i h
    rw [outcome_lift]
    exact ⟨fun _ _ => ⟨rfl, fun _ => h⟩, fun _ _ => rfl⟩
  · exact ⟨rfl, fun h => by cases h⟩

section Updates

variable {t : String} {r : ℕ} {s₁ : Conductor}

theorem Updated.after_turns (h : Turns wf F R s s₁) (h' : Updated wf F R t r s₁ s') :
    Updated wf F R t r s s' := by
  cases h' with
  | plain h' => exact .plain (h.trans h')
  | taken ht h₁ spec idx ctx hidx h₂ => exact .taken ht (h.trans h₁) spec idx ctx hidx h₂

theorem Updated.turns (h : Updated wf F R t r s s') (ht : isReserved t = true) :
    Turns wf F R s s' := by
  cases h with
  | plain h => exact h
  | taken ht' _ _ _ _ _ _ =>
    rw [ht] at ht'
    cases ht'

/-- **The rule for updates.** -/
theorem Updated.within {Q : Conductor → Conductor → Prop} [IsPreorder Conductor Q]
    (hQ : ∀ s s', Turn wf F R s s' → Q s s')
    (hstage : ∀ spec idx ctx, Moves Q (stageTransitions wf spec t r idx ctx))
    (h : Updated wf F R t r s s') : Q s s' := by
  cases h with
  | plain h => exact h.within hQ
  | taken _ h spec idx ctx _ h' =>
    exact trans_of Q (h.within hQ) (trans_of Q (hstage spec idx ctx _) (h'.within hQ))

theorem finishUpdate_updated {command : String × ℕ → M Unit}
    (hcommand : ∀ c : String × ℕ, isReserved c.1 = true → Moves (Turns wf F R) (command c))
    (spec : TaskSpec) {idx : ℕ} (hidx : idx < s.sequence.length) (old new : Status)
    (ctx : EvalContext) :
    Outcome (finishUpdate wf spec t r idx old new ctx command) (fun _ => Updated wf F R t r s)
      (fun _ => Updated wf F R t r s) s := by
  have htail : ∀ commands : List (String × ℕ), (∀ c ∈ commands, isReserved c.1 = true) →
      Moves (Turns wf F R) (do
        notifyWorkflow wf t r idx
        forM commands command
        markTerminal idx) := by
    intro commands hcommands
    refine moves_bind (notifyWorkflow_turns t r idx) fun _ => ?_
    refine moves_bind (moves_forM fun c hc => ?_) fun _ => moves_turns (markTerminal_aside idx)
    exact hcommand c (hcommands c hc)
  have hstaged : ∀ {s₁ s' : Conductor}, s₁ = after (stageTransitions wf spec t r idx ctx) s →
      Turns wf F R s₁ s' → Updated wf F R t r s s' := by
    rintro _ s' rfl h
    cases ht : isReserved t with
    | false => exact .taken ht .refl spec idx ctx hidx h
    | true => exact .plain ((stageTransitions_aside ht spec r idx ctx s).turns.trans h)
  unfold finishUpdate
  dsimp only
  split
  · rw [outcome_bind]
    have hrun : Outcome (stageTransitions wf spec t r idx ctx)
        (fun _ s₁ => s₁ = after (stageTransitions wf spec t r idx ctx) s)
        (fun _ s₁ => s₁ = after (stageTransitions wf spec t r idx ctx) s) s :=
      outcome_after.mpr rfl
    refine (hrun.and (stageTransitions_reserved wf spec t r idx ctx s)).mono ?_
      fun _ s₁ h => hstaged h.1 .refl
    rintro commands s₁ ⟨h₁, hcommands⟩
    exact (htail commands hcommands).step (fun _ _ h => hstaged h₁ h) fun _ _ h => hstaged h₁ h
  · exact (htail [] (by simp)).step (fun _ _ => .plain) fun _ _ => .plain

/-- **An update** is a sequence of turns, in which the transitions of the task are taken at most
once. -/
theorem updateTaskStateTo_updated (n : ℕ) : ∀ {t : String} (r : ℕ) {event : Event}
    {s : Conductor}, (event = .operation .taskRetry →
      isReserved t = true ∨ s.status ∈ activeStatuses ∨ asked) →
    Outcome (updateTaskStateTo wf n t r event) (fun _ => Updated wf F (Retries asked) t r s)
      (fun _ => Updated wf F (Retries asked) t r s) s := by
  induction n with
  | zero => exact fun _ _ _ _ => .plain .refl
  | succ n ih =>
    intro t r event s hretry
    rw [updateTaskStateTo_succ, outcome_bind]
    refine (beginUpdate_turns r hretry).mono ?_ fun _ _ h => .plain h
    rintro p s₁ ⟨h₁, hidx⟩
    have hcommand : ∀ c : String × ℕ, isReserved c.1 = true →
        Moves (Turns wf F (Retries asked)) (updateTaskStateTo wf n c.1 c.2 (commandEvent c)) := fun c hc =>
      moves_iff.mpr fun s => (ih c.2 fun _ => Or.inl hc).mono (fun _ _ h => h.turns hc)
        fun _ _ h => h.turns hc
    have hfinish : ∀ {ctx : EvalContext} {s₂ : Conductor}, Turns wf F (Retries asked) s s₂ →
        p.idx < s₂.sequence.length → Outcome (finishUpdate wf p.spec t r p.idx p.old p.new ctx fun c =>
          updateTaskStateTo wf n c.1 c.2 (commandEvent c))
          (fun _ => Updated wf F (Retries asked) t r s) (fun _ => Updated wf F (Retries asked) t r s) s₂ := fun h₂ hidx =>
      (finishUpdate_updated hcommand p.spec hidx p.old p.new _).mono
        (fun _ _ h => h.after_turns h₂) fun _ _ h => h.after_turns h₂
    unfold continueUpdate
    dsimp only
    by_cases hretrying : p.new = retrying
    · have hnot : p.new ∉ completedStatuses := by
        rw [hretrying]
        decide
      rw [if_pos hretrying, if_neg hnot, outcome_bind]
      refine (restage_aside t r p.idx).step (fun _ s₂ h₂ => ?_)
        fun _ _ h => .plain (h₁.trans h.turns)
      exact hfinish (h₁.trans h₂.turns) (hidx.trans_le h₂.length)
    · rw [if_neg hretrying]
      split
      · rw [outcome_bind]
        refine (completeTask_aside p.spec t r p.idx p.new event).step (fun ctx s₂ h₂ => ?_)
          fun _ _ h => .plain (h₁.trans h.turns)
        have hidx₂ : p.idx < s₂.sequence.length := hidx.trans_le h₂.length
        replace h₂ := h₁.trans h₂.turns
        rw [outcome_bind]
        refine (needsRetry_active p.idx ctx s₂).mono ?_ ?_
        · rintro due s₃ ⟨rfl, hactive⟩
          cases due with
          | true =>
            exact (ih r fun _ => Or.inr (Or.inl (hactive rfl))).mono
              (fun _ _ h => h.after_turns h₂) fun _ _ h => h.after_turns h₂
          | false => exact hfinish h₂ hidx₂
        · rintro _ s₃ rfl
          exact .plain h₂
      · exact hfinish h₁ hidx

end Updates

/-! ### Calls -/

/-- The next tasks are rendered in a running workflow, and in one that failed. -/
theorem getNextTasks_turns
    (hF : ∀ s', s'.status = s.status → s.status ∈ runningStatuses ∨ s.status = failed →
      F (some failed) s') :
    Outcome (getNextTasks wf) (fun _ => Turns wf F R s) (fun _ => Turns wf F R s) s := by
  unfold getNextTasks
  rw [outcome_bind, outcome_get]
  extract_lets staged remediation
  split
  · exact refl_of (Turns wf F R) s
  · rename_i hopen
    have hstatus : s.status ∈ runningStatuses ∨ s.status = failed := by
      rw [not_and_or, not_not] at hopen
      refine hopen.imp_right fun hne => ?_
      by_contra hst
      exact hne (by simp only [remediation, if_neg hst, List.isEmpty_nil])
    rw [outcome_bind]
    have hcollect : Moves Aside ((if remediation.isEmpty then staged else remediation).foldlM
        (collectNext wf) (false, [])) := moves_foldlM (fun x _ acc => collectNext_aside acc x) _
    refine hcollect.step (fun out s₁ h₁ => ?_) fun _ _ h => h.turns
    dsimp only
    split
    · rw [outcome_bind]
      have hrequest : Outcome (requestWorkflowStatus (some failed)) (fun _ => Turns wf F R s₁)
          (fun _ => Turns wf F R s₁) s₁ :=
        requestWorkflowStatus_turns fun s₂ h₂ _ => hF s₂ (h₂.trans h₁.status) hstatus
      exact hrequest.mono (fun _ s₂ h₂ => h₁.turns.trans h₂) fun _ s₂ h₂ => h₁.turns.trans h₂
    · exact h₁.turns

/-- **The rule for calls.**  A preorder that every turn is in, the notes of the outcomes of
transitions and the marks of staged tasks, has every call in it. -/
theorem step_within {Q : Conductor → Conductor → Prop} [IsPreorder Conductor Q]
    (hQ : ∀ s s', Turn wf (fun _ _ => True) (Retries True) s s' → Q s s')
    (hnoted : ∀ i tid met s, Q s
      (Conductor.updateEntry i (fun e => { e with next := Dict.put e.next tid met }) s))
    (hmarked : ∀ i s, Q s (Conductor.updateStaged i (fun x => { x with runOnFail := true }) s))
    (s : Conductor) (c : Call) : Q s (step wf s c) := by
  cases c with
  | requestWorkflowStatus st =>
    have h : Turns wf (fun _ _ => True) (Retries True) s (step wf s (.requestWorkflowStatus st)) :=
      outcome_after.mp (requestWorkflowStatus_turns fun _ _ _ => trivial)
    exact h.within hQ
  | updateTaskState t r event =>
    have h : Updated wf (fun _ _ => True) (Retries True) t r s
        (step wf s (.updateTaskState t r event)) :=
      outcome_after.mp (updateTaskStateTo_updated _ r fun _ => Or.inr (Or.inr trivial))
    refine h.within hQ fun spec idx ctx => ?_
    exact stageTransitions_within hQ (hnoted idx) hmarked (fun _ _ => trivial) spec t r ctx
  | getNextTasks =>
    have h : Turns wf (fun _ _ => True) (Retries True) s (step wf s .getNextTasks) :=
      outcome_after.mp (getNextTasks_turns fun _ _ _ => trivial)
    exact h.within hQ

end Turns

end Orquesta
end IntegratedCLI
