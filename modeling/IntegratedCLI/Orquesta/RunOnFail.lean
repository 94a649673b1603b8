import IntegratedCLI.Orquesta.StagedOnce
import IntegratedCLI.Orquesta.Turns

/-!
# The tasks that run on after a failure

A task that is completed may lead to the engine command `fail` and to other tasks.  Those are
then marked with `run_on_fail`, and they are given out although the workflow failed.

`TookWithFail s t` says that a transition to `t` and one to `fail` were both satisfied by one
entry.  Whatever an update marks was taken with `fail` when the update ends
(`Updated.marks`), and nothing else marks a staged task.  The argument is the one of a loop:
while the transitions of a task are taken the outcome of each is noted, and an outcome is not
noted twice, as no two transitions between two tasks have one key.
-/

namespace IntegratedCLI
namespace Orquesta

open Effect Status

namespace Conductor

/-- The task is staged to run on after a failure. -/
def Marked (s : Conductor) (t : String) (r : ℕ) : Prop :=
  ∃ x ∈ s.staged, x.id = t ∧ x.route = r ∧ x.runOnFail = true

/-- An entry satisfied a transition to the task and one to `fail`. -/
def TookWithFail (s : Conductor) (t : String) : Prop :=
  ∃ e ∈ s.sequence, (∃ k, e.next.lookup ⟨"fail", k⟩ = some true) ∧
    ∃ k, e.next.lookup ⟨t, k⟩ = some true

/-- What the staged tasks are of. -/
def stagedIds (s : Conductor) : List String := s.staged.map StagedTaskOf.id

end Conductor

/-- No staged task is marked, and the transitions that were satisfied stay so. -/
structure Unmarking (s s' : Conductor) : Prop where
  marks : ∀ t r, s'.Marked t r → s.Marked t r
  taken : ∀ (i : ℕ) (e : TaskState), s.sequence[i]? = some e →
    ∃ e' : TaskState, s'.sequence[i]? = some e' ∧
      ∀ tid, e.next.lookup tid = some true → e'.next.lookup tid = some true

instance : IsPreorder Conductor Unmarking where
  refl _ := ⟨fun _ _ h => h, fun _ e h => ⟨e, h, fun _ h => h⟩⟩
  trans _ _ _ h h' := by
    refine ⟨fun t r hm => h.marks t r (h'.marks t r hm), fun i e hi => ?_⟩
    obtain ⟨e', hi', hnext'⟩ := h.taken i e hi
    obtain ⟨e'', hi'', hnext''⟩ := h'.taken i e' hi'
    exact ⟨e'', hi'', fun tid htid => hnext'' tid (hnext' tid htid)⟩

section

variable {wf : Workflow} {F : Option Status → Conductor → Prop} {R : Conductor → Status → Prop}
  {s s' : Conductor}

theorem Aside.unmarking (h : Aside s s') : Unmarking s s' := by
  refine ⟨?_, h.taken⟩
  rintro t r ⟨x', hx', rfl, rfl, hm⟩
  obtain ⟨x, hx, hid, hroute, hm⟩ := h.marks x' hx' hm
  exact ⟨x, hx, hid, hroute, hm⟩

theorem OnlyStatus.unmarking (h : OnlyStatus s s') : Unmarking s s' := by
  unfold OnlyStatus at h
  refine ⟨fun t r hm => ?_, fun i e hi => ⟨e, ?_, fun _ h => h⟩⟩
  · rw [h] at hm
    exact hm
  · rw [h]
    exact hi

theorem unmarking_status (st : Status) (i : ℕ) (s : Conductor) :
    Unmarking s (s.updateEntry i fun e => { e with status := some st }) := by
  refine ⟨fun _ _ h => h, fun j e hj => ?_⟩
  have hget : (s.updateEntry i fun e => { e with status := some st }).sequence[j]? =
      if i = j then s.sequence[j]?.map fun e => { e with status := some st }
      else s.sequence[j]? := Positions.getElem?_modify _ _ _ _
  rw [hget, hj]
  split
  · exact ⟨_, rfl, fun _ h => h⟩
  · exact ⟨e, rfl, fun _ h => h⟩

theorem Turn.unmarking (h : Turn wf F R s s') : Unmarking s s' := by
  cases h with
  | aside h => exact h.unmarking
  | notified h => exact (processTaskEvent_onlyStatus h).unmarking
  | requested _ h => exact (processWorkflowEvent_onlyStatus h).unmarking
  | told _ _ => exact unmarking_status _ _ s
  | advanced _ _ _ => exact unmarking_status _ _ s

theorem Turns.unmarking (h : Turns wf F R s s') : Unmarking s s' :=
  h.within fun _ _ h => h.unmarking

theorem Unmarking.took {t : String} (h : Unmarking s s') (hs : s.TookWithFail t) :
    s'.TookWithFail t := by
  obtain ⟨e, he, ⟨k, hfail⟩, k', hto⟩ := hs
  obtain ⟨i, hi⟩ := List.mem_iff_getElem?.mp he
  obtain ⟨e', hi', hnext⟩ := h.taken i e hi
  exact ⟨e', List.mem_of_getElem? hi', ⟨k, hnext _ hfail⟩, k', hnext _ hto⟩

end

/-! ## The transitions of a completed task -/

/-- The staged tasks stay where they are, and others come after them. -/
def Appends (s s' : Conductor) : Prop := s.stagedIds <+: s'.stagedIds

instance : IsPreorder Conductor Appends where
  refl _ := List.prefix_rfl
  trans _ _ _ h h' := List.IsPrefix.trans h h'

theorem appends_of_ids {s s' : Conductor} (h : s'.stagedIds = s.stagedIds) : Appends s s' :=
  ⟨[], (List.append_nil _).trans h.symm⟩

theorem appends_of_staged {s s' : Conductor} (h : s'.staged = s.staged) : Appends s s' :=
  appends_of_ids (congrArg (List.map StagedTaskOf.id) h)

theorem OnlyStatus.appends {s s' : Conductor} (h : OnlyStatus s s') : Appends s s' := by
  unfold OnlyStatus at h
  refine appends_of_staged ?_
  rw [h]

theorem stagedIds_updateStaged {f : StagedTask → StagedTask} (hf : ∀ x, (f x).id = x.id) (i : ℕ)
    (s : Conductor) : (s.updateStaged i f).stagedIds = s.stagedIds := Positions.map_modify hf

theorem appends_updateStaged {f : StagedTask → StagedTask} (hf : ∀ x, (f x).id = x.id) (i : ℕ)
    (s : Conductor) : Appends s (s.updateStaged i f) := appends_of_ids (stagedIds_updateStaged hf i s)

theorem stagedIds_addStagedTask (t : String) (r : ℕ) (ctxs prev : Ref) (ready : Bool)
    (retry : Option Ref) (s : Conductor) :
    (s.addStagedTask t r ctxs prev ready retry).stagedIds = s.stagedIds ++ [t] := by
  have hroot : (s.orRoot ctxs).2.staged = s.staged := by
    obtain ⟨_, _, _, _, _, h⟩ := (orRoot_alloc s ctxs).1
    rw [h]
  show (((s.orRoot ctxs).2.staged ++ [_]).map StagedTaskOf.id) = _
  rw [hroot, List.map_append]
  rfl

theorem Appends.getElem? {s s' : Conductor} (h : Appends s s') {i : ℕ} {u : String}
    (hi : s.stagedIds[i]? = some u) : s'.stagedIds[i]? = some u := by
  obtain ⟨l, hl⟩ := h
  rw [← hl, List.getElem?_append_left (List.getElem?_eq_some_iff.mp hi).1]
  exact hi

theorem requestWorkflowStatus_appends (st : Option Status) :
    Moves Appends (requestWorkflowStatus st) := by
  have htell : ∀ i, Moves Appends (TaskStateMachine.processEvent i (.workflow st)) := by
    refine fun i s => ?_
    rcases processEvent_statusAt i (.workflow st) s with h | ⟨st', h⟩
    · exact appends_of_staged (by rw [h])
    · exact appends_of_staged (by rw [h]; rfl)
  unfold requestWorkflowStatus
  refine moves_bind moves_get fun s => ?_
  refine moves_bind (moves_forM fun p _ => htell p.2) fun _ => ?_
  refine moves_bind (moves_iff.mpr fun s => ?_) fun _ => ?_
  · refine (processWorkflowEvent_outcome st s).mono ?_ ?_
    · rintro _ s' ⟨_, ⟨_, rfl⟩ | ⟨new, _, rfl⟩⟩
      · exact refl_of Appends s'
      · exact appends_of_staged rfl
    · rintro _ s' ⟨rfl, _⟩
      exact refl_of Appends s'
  · refine moves_bind moves_get fun s' => ?_
    dsimp only
    split
    · exact moves_pure _
    · split
      · exact moves_pure _
      · split
        · exact moves_throw _
        · exact moves_pure _

/-- The position that is returned is the one of the next task. -/
theorem stageNext_position (t : String) (edge : Edge) (idx route : ℕ) (ctxs : List ℕ)
    (s : Conductor) :
    Outcome (stageNext t edge idx route ctxs)
      (fun i s' => Appends s s' ∧ s'.stagedIds[i]? = some edge.dst) (fun _ _ => True) s := by
  unfold stageNext
  rw [outcome_bind, outcome_get]
  dsimp only
  split
  · rename_i i hi
    split
    · trivial
    · rename_i x hx
      split
      · trivial
      · rw [outcome_bind, outcome_modify, outcome_bind, outcome_modify, outcome_pure]
        have happends : ∀ s₁ : Conductor, s₁.staged = s.staged →
            Appends s (s₁.updateStaged i fun x => { x with items := none, completed := false }) := by
          refine fun s₁ h₁ => trans_of Appends (appends_of_staged h₁) (appends_updateStaged ?_ i s₁)
          exact fun _ => rfl
        obtain ⟨y, hy, hid, _⟩ := stagedIdx_spec hi
        refine ⟨happends _ rfl, (happends _ rfl).getElem? ?_⟩
        unfold Conductor.stagedIds
        rw [List.getElem?_map, hy, Option.map_some, hid]
  · rw [outcome_bind, outcome_set, outcome_pure]
    unfold Appends
    rw [stagedIds_addStagedTask]
    refine ⟨?_, ?_⟩
    · exact List.prefix_append s.stagedIds _
    · have hlength : s.stagedIds.length = s.staged.length := List.length_map _
      show (s.stagedIds ++ [edge.dst])[s.staged.length]? = _
      rw [← hlength]
      exact List.getElem?_concat_length

/-- What a satisfied transition adds to what is to be done after the loop. -/
structure Adds (edge : Edge) (out out' : Outgoing) (s s' : Conductor) : Prop where
  appends : Appends s s'
  fail : out'.manualFail = true → out.manualFail = true ∨ edge.dst = "fail"
  ready : ∀ i ∈ out'.readyNext, i ∈ out.readyNext ∨ s'.stagedIds[i]? = some edge.dst

theorem adds_nothing {edge : Edge} {out : Outgoing} {s s' : Conductor} (h : Appends s s') :
    Adds edge out out s s' := ⟨h, Or.inl, fun _ => Or.inl⟩

theorem stageTaken_adds (wf : Workflow) (t : String) (r idx : ℕ) (out : Outgoing) (edge : Edge)
    (ctxs : List ℕ) (s : Conductor) :
    Outcome (stageTaken wf t r idx out edge ctxs) (fun out' => Adds edge out out' s)
      (fun _ _ => True) s := by
  unfold stageTaken
  rw [outcome_bind]
  have hroute : Outcome (evaluateRoute wf edge r) (fun _ s₁ => Appends s s₁) (fun _ _ => True) s := by
    refine (evaluateRoute_outcome wf edge r s).mono ?_ fun _ _ _ => trivial
    rintro route s₁ (⟨_, rfl, _⟩ | ⟨ids, _, rfl⟩)
    · exact refl_of Appends s₁
    · exact appends_of_staged rfl
  refine hroute.mono (fun route s₁ h₁ => ?_) fun _ _ _ => trivial
  rw [outcome_bind]
  refine (stageNext_position t edge idx route ctxs s₁).mono ?_ fun _ _ _ => trivial
  rintro i s₂ ⟨h₂, hi⟩
  rw [outcome_bind, outcome_get]
  dsimp only
  rw [outcome_bind, outcome_modify]
  have h₃ := appends_updateStaged (f := fun x => { x with
    ready := decide (s₂.getInboundCriteriaStatus wf edge.dst r = .satisfied) }) (fun _ => rfl) i s₂
  have happends := trans_of Appends (trans_of Appends h₁ h₂) h₃
  split
  · refine ⟨happends, fun hfail => ?_, fun _ => Or.inl⟩
    exact (Bool.or_eq_true_iff.mp hfail).imp_right of_decide_eq_true
  · split
    · refine ⟨happends, Or.inl, fun j hj => ?_⟩
      refine (List.mem_append.mp hj).imp_right fun hj => ?_
      rw [List.mem_singleton.mp hj]
      exact h₃.getElem? hi
    · exact adds_nothing happends

theorem takeTransition_adds (wf : Workflow) (spec : TaskSpec) (t : String) (r idx : ℕ)
    (ctx : EvalContext) (out : Outgoing) (edge : Edge) (s : Conductor) :
    Outcome (takeTransition wf spec t r idx ctx out edge) (fun out' => Adds edge out out' s)
      (fun _ _ => True) s := by
  have htaken : ∀ ctxs {s₁ : Conductor}, s₁.staged = s.staged →
      Outcome (stageTaken wf t r idx out edge ctxs) (fun out' => Adds edge out out' s)
        (fun _ _ => True) s₁ := by
    refine fun ctxs s₁ h₁ => (stageTaken_adds wf t r idx out edge ctxs s₁).mono ?_ fun _ _ h => h
    exact fun _ _ h => ⟨trans_of Appends (appends_of_staged h₁) h.appends, h.fail, h.ready⟩
  rw [takeTransition_eq, outcome_bind]
  refine (moves_lift (R := Keeps id) _).step ?_ fun _ _ _ => trivial
  rintro ⟨vars, errors⟩ s' hs'
  obtain rfl : s' = s := hs'
  dsimp only
  split
  · rw [outcome_bind, outcome_modify, outcome_bind]
    refine ((requestWorkflowStatus_appends _).outcome _).mono (fun _ s₁ h₁ => ?_) fun _ _ _ => trivial
    exact adds_nothing (trans_of Appends (logErrors_onlyStatus errors _ _ _ s').1.appends h₁)
  · rw [outcome_bind, outcome_get]
    split
    · exact htaken _ rfl
    · rw [outcome_bind]
      refine (appendContext_outcome vars s').mono ?_ fun _ _ h => h.elim
      rintro i s₁ ⟨_, c, d, rfl⟩
      rw [outcome_bind, outcome_modify]
      exact htaken _ rfl

/-- Two transitions of a task are one if they lead to one task and have one key. -/
theorem eq_of_getNextTransitions {wf : Workflow} {t : String} {edge edge' : Edge}
    (h : edge ∈ wf.graph.getNextTransitions t) (h' : edge' ∈ wf.graph.getNextTransitions t)
    (hdst : edge.dst = edge'.dst) (hkey : edge.key = edge'.key) : edge = edge' := by
  obtain ⟨hmem, hsrc⟩ := Workflow.mem_getNextTransitions.mp h
  obtain ⟨hmem', hsrc'⟩ := Workflow.mem_getNextTransitions.mp h'
  refine List.Pairwise.forall_of_forall_of_flip
    (R := fun e e' : Edge => e.src = e'.src → e.dst = e'.dst → e.key = e'.key → e = e')
    (fun _ _ _ _ _ => rfl) ?_ ?_ hmem hmem' (hsrc.trans hsrc'.symm) hdst hkey
  · exact wf.edges_distinct.imp fun h hsrc hdst hkey => absurd hkey (h hsrc hdst).1
  · exact wf.edges_distinct.imp fun h hsrc hdst hkey =>
      absurd hkey.symm (h hsrc.symm hdst.symm).1

section Loop

variable {wf : Workflow} {t : String} {ctx : EvalContext} {idx : ℕ} {s₀ s s' : Conductor}
  {out out' : Outgoing} {edge : Edge} {u : String}

/-- The entry at the position has noted that a transition of the task to `u` is satisfied. -/
def Took (wf : Workflow) (t : String) (ctx : EvalContext) (idx : ℕ) (s : Conductor)
    (u : String) : Prop :=
  ∃ edge ∈ wf.graph.getNextTransitions t, edge.dst = u ∧ evaluateCriteria wf edge ctx = .ok true ∧
    ∃ e, s.sequence[idx]? = some e ∧ e.next.lookup ⟨u, edge.key⟩ = some true

theorem Unmarking.length (h : Unmarking s s') : s.sequence.length ≤ s'.sequence.length :=
  length_le_of_found h.taken

theorem Took.unmarking (h : Unmarking s s') (hu : Took wf t ctx idx s u) :
    Took wf t ctx idx s' u := by
  obtain ⟨edge, hedge, hdst, hmet, e, he, hnext⟩ := hu
  obtain ⟨e', he', hnext'⟩ := h.taken idx e he
  exact ⟨edge, hedge, hdst, hmet, e', he', hnext' _ hnext⟩

/-- The outcome of the transition is noted. -/
def note (edge : Edge) (met : Bool) (idx : ℕ) (s : Conductor) : Conductor :=
  s.updateEntry idx fun e => { e with next := Dict.put e.next ⟨edge.dst, edge.key⟩ met }

theorem note_entry {e : TaskState} {met : Bool} (he : s.sequence[idx]? = some e) :
    (note edge met idx s).sequence[idx]? =
      some { e with next := Dict.put e.next ⟨edge.dst, edge.key⟩ met } := by
  refine (Positions.getElem?_modify _ _ _ _).trans ?_
  rw [if_pos rfl, he, Option.map_some]

/-- What was noted of another transition stays. -/
theorem Took.note {met : Bool} (hedge : edge ∈ wf.graph.getNextTransitions t)
    (hmet : evaluateCriteria wf edge ctx = .ok met) (hu : Took wf t ctx idx s u) :
    Took wf t ctx idx (note edge met idx s) u := by
  obtain ⟨edge', hedge', rfl, hmet', e, he, hnext⟩ := hu
  refine ⟨edge', hedge', rfl, hmet', _, note_entry he, ?_⟩
  rw [Dict.lookup_put]
  split
  · rename_i htid
    cases eq_of_getNextTransitions hedge' hedge (congrArg TransitionId.task htid)
      (congrArg TransitionId.key htid)
    rw [Except.ok.inj (hmet.symm.trans hmet')]
  · exact hnext

theorem took_note (hedge : edge ∈ wf.graph.getNextTransitions t)
    (hmet : evaluateCriteria wf edge ctx = .ok true) (hidx : idx < s.sequence.length) :
    Took wf t ctx idx (Orquesta.note edge true idx s) edge.dst := by
  refine ⟨edge, hedge, rfl, hmet, _, note_entry (List.getElem?_eq_getElem hidx), ?_⟩
  rw [Dict.lookup_put, if_pos rfl]

/-- What holds while the transitions of the task are taken, begun in `s₀`. -/
structure Taking (wf : Workflow) (t : String) (ctx : EvalContext) (idx : ℕ) (s₀ : Conductor)
    (out : Outgoing) (s : Conductor) : Prop where
  marks : ∀ u r, s.Marked u r → s₀.Marked u r
  entry : idx < s.sequence.length
  fail : out.manualFail = true → Took wf t ctx idx s "fail"
  ready : ∀ i ∈ out.readyNext, ∃ u, s.stagedIds[i]? = some u ∧ Took wf t ctx idx s u

theorem Taking.mono (h : Taking wf t ctx idx s₀ out s) (hs' : Unmarking s s') (happends : Appends s s') :
    Taking wf t ctx idx s₀ out s' := by
  refine ⟨fun u r hm => h.marks u r (hs'.marks u r hm), h.entry.trans_le hs'.length,
    fun hfail => (h.fail hfail).unmarking hs', fun i hi => ?_⟩
  obtain ⟨u, hu, htook⟩ := h.ready i hi
  exact ⟨u, happends.getElem? hu, htook.unmarking hs'⟩

theorem Taking.note {met : Bool} (h : Taking wf t ctx idx s₀ out s)
    (hedge : edge ∈ wf.graph.getNextTransitions t)
    (hmet : evaluateCriteria wf edge ctx = .ok met) :
    Taking wf t ctx idx s₀ out (Orquesta.note edge met idx s) := by
  refine ⟨h.marks, h.entry.trans_eq (List.length_modify ..).symm,
    fun hfail => (h.fail hfail).note hedge hmet, fun i hi => ?_⟩
  obtain ⟨u, hu, htook⟩ := h.ready i hi
  exact ⟨u, hu, htook.note hedge hmet⟩

theorem Taking.adds (h : Taking wf t ctx idx s₀ out s) (hs' : Unmarking s s')
    (hadds : Adds edge out out' s s') (htook : Took wf t ctx idx s edge.dst) :
    Taking wf t ctx idx s₀ out' s' := by
  have h' := h.mono hs' hadds.appends
  refine ⟨h'.marks, h'.entry, fun hfail => ?_, fun i hi => ?_⟩
  · rcases hadds.fail hfail with hfail | hdst
    · exact h'.fail hfail
    · rw [← hdst]
      exact htook.unmarking hs'
  · rcases hadds.ready i hi with hi | hi
    · exact h'.ready i hi
    · exact ⟨edge.dst, hi, htook.unmarking hs'⟩

/-- **One transition** keeps what holds while the transitions are taken. -/
theorem stageTransition_taking (spec : TaskSpec) (r : ℕ) (hedge : edge ∈ wf.graph.getNextTransitions t)
    (h : Taking wf t ctx idx s₀ out s) :
    Outcome (stageTransition wf spec t r idx ctx out edge) (Taking wf t ctx idx s₀)
      (fun _ s' => ∀ u r, s'.Marked u r → s₀.Marked u r) s := by
  have hturn : ∀ {s s' : Conductor}, Turns wf (fun _ _ => True) (Retries False) s s' → Unmarking s s' :=
    fun h => h.unmarking
  unfold stageTransition
  dsimp only
  split
  · rename_i e _
    rw [outcome_bind, outcome_modify, outcome_bind]
    have hlog : Aside s (s.logError (.evaluation e) (some t) (some r) (some ⟨edge.dst, edge.key⟩)) :=
      logEntry_aside _ s
    have hstaged : Appends s
        (s.logError (.evaluation e) (some t) (some r) (some ⟨edge.dst, edge.key⟩)) :=
      (logEntry_onlyStatus _ s).appends
    generalize s.logError _ _ _ _ = s₁ at hlog hstaged ⊢
    have hrequest : Outcome (requestWorkflowStatus (some failed))
        (fun _ => Turns wf (fun _ _ => True) (Retries False) s₁) (fun _ => Turns wf (fun _ _ => True) (Retries False) s₁)
        s₁ := requestWorkflowStatus_turns fun _ _ _ => trivial
    refine (hrequest.and ((requestWorkflowStatus_appends (some failed)).outcome s₁)).mono ?_ ?_
    · rintro _ s' ⟨hs', happends⟩
      exact h.mono (trans_of Unmarking hlog.unmarking (hturn hs')) (trans_of Appends hstaged happends)
    · rintro _ s' ⟨hs', _⟩ u r hm
      exact h.marks u r ((trans_of Unmarking hlog.unmarking (hturn hs')).marks u r hm)
  · rename_i met hmet
    rw [outcome_bind, outcome_modify]
    have hnoted : Taking wf t ctx idx s₀ out (Orquesta.note edge met idx s) := h.note hedge hmet
    split
    · rename_i htrue
      subst htrue
      have htake : Moves (Turns wf (fun _ _ => True) (Retries False))
          (takeTransition wf spec t r idx ctx out edge) :=
        takeTransition_turns (fun _ _ => trivial) spec t r idx ctx out edge
      refine ((htake.outcome _).and (takeTransition_adds wf spec t r idx ctx out edge _)).mono ?_ ?_
      · rintro out' s' ⟨hs', hadds⟩
        exact hnoted.adds (hturn hs') hadds (took_note hedge hmet h.entry)
      · rintro _ s' ⟨hs', _⟩ u r hm
        exact hnoted.marks u r ((hturn hs').marks u r hm)
    · exact hnoted

/-- A staged task is marked only if it was taken with `fail`. -/
def Marks (s s' : Conductor) : Prop := ∀ u r, s'.Marked u r → s.Marked u r ∨ s'.TookWithFail u

/-- The next tasks are marked after the loop. -/
theorem Taking.marked (h : Taking wf t ctx idx s₀ out s) (hfail : out.manualFail = true) :
    Outcome (forM out.readyNext fun i =>
        modify (Conductor.updateStaged i fun x => { x with runOnFail := true }) : M Unit)
      (fun _ => Marks s₀) (fun _ _ => False) s := by
  have htook : ∀ {s' : Conductor} {u : String}, s'.sequence = s.sequence →
      Took wf t ctx idx s u → s'.TookWithFail u := by
    intro s' u hsequence hu
    obtain ⟨edge, _, _, _, e, he, hnext⟩ := h.fail hfail
    obtain ⟨edge', _, _, _, e', he', hnext'⟩ := hu
    rw [he, Option.some_inj] at he'
    subst he'
    exact ⟨e, hsequence ▸ List.mem_of_getElem? he, ⟨edge.key, hnext⟩, edge'.key, hnext'⟩
  refine (outcome_forM (I := fun s' => s'.sequence = s.sequence ∧ s'.stagedIds = s.stagedIds ∧
    Marks s₀ s') ?_ ⟨rfl, rfl, fun u r hm => Or.inl (h.marks u r hm)⟩).mono
    (fun _ _ h => h.2.2) fun _ _ h => h
  rintro i hi s' ⟨hsequence, hids, hmarks⟩
  rw [outcome_modify]
  refine ⟨hsequence, (stagedIds_updateStaged ?_ i s').trans hids, ?_⟩
  · exact fun _ => rfl
  rintro u r ⟨x, hx, rfl, hroute, hm⟩
  rcases Positions.mem_modify hx with hx | ⟨y, hy, rfl⟩
  · exact hmarks x.id r ⟨x, hx, rfl, hroute, hm⟩
  · obtain ⟨u, hu, hready⟩ := h.ready i hi
    have hid : s.stagedIds[i]? = some y.id := by
      rw [← hids]
      unfold Conductor.stagedIds
      rw [List.getElem?_map, hy, Option.map_some]
    rw [hu, Option.some_inj] at hid
    rw [hid] at hready
    exact Or.inr (htook hsequence hready)

/-- **The transitions of a task** mark only what they take together with `fail`. -/
theorem stageTransitions_marks (spec : TaskSpec) (r : ℕ) (hidx : idx < s.sequence.length) :
    Marks s (after (stageTransitions wf spec t r idx ctx) s) := by
  have hloop : ∀ s₁, Taking wf t ctx idx s ⟨[], false, []⟩ s₁ → Outcome (do
      let out ← (wf.graph.getNextTransitions t).foldlM (stageTransition wf spec t r idx ctx)
        ⟨[], false, []⟩
      if out.manualFail then
        forM out.readyNext fun i =>
          modify (Conductor.updateStaged i fun x => { x with runOnFail := true })
      else pure ()
      return out.commands) (fun _ => Marks s) (fun _ => Marks s) s₁ := by
    intro s₁ h₁
    rw [outcome_bind]
    refine (outcome_foldlM (I := Taking wf t ctx idx s) (fun edge hedge out s₂ h₂ =>
      stageTransition_taking spec r hedge h₂) h₁).mono (fun out s₂ h₂ => ?_)
      fun _ _ h u r hm => Or.inl (h u r hm)
    dsimp only
    split
    · rename_i hfail
      rw [outcome_bind]
      exact (h₂.marked hfail).mono (fun _ _ h => h) fun _ _ h => h.elim
    · exact fun u r hm => Or.inl (h₂.marks u r hm)
  have hbegin : Taking wf t ctx idx s ⟨[], false, []⟩ s :=
    ⟨fun _ _ h => h, hidx, fun h => Bool.noConfusion h, fun _ h => absurd h List.not_mem_nil⟩
  refine outcome_after.mp ?_
  unfold stageTransitions
  dsimp only
  split
  · have hterm : Aside s (s.updateEntry idx fun e => { e with term := true }) := by
      refine aside_updateEntry ?_ idx s
      exact fun _ => ⟨rfl, rfl, rfl, rfl⟩
    exact hloop _ (hbegin.mono hterm.unmarking (appends_of_staged rfl))
  · exact hloop s hbegin

end Loop

/-! ## Updates -/

section

variable {wf : Workflow} {F : Option Status → Conductor → Prop} {R : Conductor → Status → Prop}
  {t : String} {r : ℕ} {s s' : Conductor}

theorem Unmarking.marking (h : Unmarking s s') : Marks s s' := fun u r hm => Or.inl (h.marks u r hm)

/-- **An update** marks only what was taken with `fail`. -/
theorem Updated.marking (h : Updated wf F R t r s s') : Marks s s' := by
  cases h with
  | plain h => exact h.unmarking.marking
  | taken _ h spec idx ctx hidx h' =>
    intro u r hm
    rcases stageTransitions_marks spec _ hidx u r (h'.unmarking.marks u r hm) with hm | htook
    · exact Or.inl (h.unmarking.marks u r hm)
    · exact Or.inr (h'.unmarking.took htook)

end

end Orquesta
end IntegratedCLI
