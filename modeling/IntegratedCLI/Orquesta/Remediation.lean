import IntegratedCLI.Orquesta.Endings
import IntegratedCLI.Orquesta.ItemRecords
import IntegratedCLI.Orquesta.StagedOnce

/-!
# Failures that nothing goes on from

A task that was abended is remediated if one of its transitions was satisfied, one to `continue`
apart.  If it is not, then the workflow is told that the task has failed, and is to fail, too.
The rows of `RUNNING`, `PAUSING` and `RESUMING` have that event; the row of `PAUSED`, which a
workflow is in while its last tasks are pending, has not, and neither have those of the statuses
before `RUNNING`.  There the failure is lost, as it is if the status of the task is `timeout` or
`abandoned`, for which there is no event, or if the update raises before the workflow is told.

A call is `heard` if none of this happens in it.  Along a run of such calls every failure that
nothing goes on from is one that the workflow has noticed (`Accounted`), and so no workflow with
one of them succeeds.
-/

namespace IntegratedCLI
namespace Orquesta

open Effect Status

/-! ## Unremediated entries -/

/-- The statuses of a workflow that does not go on to succeed. -/
def unsuccessfulStatuses : List Status := [failed, canceling, canceled]

def TaskStateOf.abended (e : TaskState) : Bool := e.status.any (· ∈ abendedStatuses)

/-- Whether one of the transitions of the entry was satisfied, one to `continue` apart. -/
def Workflow.goesOn (wf : Workflow) (e : TaskState) : Bool :=
  (wf.graph.getNextTransitions e.id).any fun edge =>
    edge.dst ≠ "continue" && (e.next.lookup ⟨edge.dst, edge.key⟩).getD false

def Workflow.unremediated (wf : Workflow) (e : TaskState) : Bool := e.abended && !wf.goesOn e

/-- The entry at the position is the last one of its task, it is abended, and nothing goes on
from it. -/
structure LeftFailed (wf : Workflow) (s : Conductor) (i : ℕ) (e : TaskState) : Prop where
  entry : s.sequence[i]? = some e
  last : s.taskStateIdx e.id e.route = some i
  unremediated : wf.unremediated e = true

/-- The failures that nothing goes on from are noticed. -/
def Noticed (wf : Workflow) (s : Conductor) : Prop :=
  ∀ i e, LeftFailed wf s i e → s.status ∈ unsuccessfulStatuses

section Entries

variable {wf : Workflow} {s s' : Conductor} {e e' : TaskState}

theorem abended_of_status (h : e'.status = e.status) : e'.abended = e.abended := by
  unfold TaskStateOf.abended
  rw [h]

theorem abended_of_unremediated (h : wf.unremediated e = true) : e.abended = true := by
  unfold Workflow.unremediated at h
  rw [Bool.and_eq_true] at h
  exact h.1

theorem not_goesOn_of_unremediated (h : wf.unremediated e = true) : wf.goesOn e = false := by
  unfold Workflow.unremediated at h
  rw [Bool.and_eq_true, Bool.not_eq_true'] at h
  exact h.2

theorem unremediated_congr (hid : e'.id = e.id) (hst : e'.status = e.status)
    (hnext : e'.next = e.next) : wf.unremediated e' = wf.unremediated e := by
  unfold Workflow.unremediated Workflow.goesOn
  rw [abended_of_status hst, hid, hnext]

/-- The last entry of a task is one of the task. -/
def Named (s : Conductor) : Prop :=
  ∀ t r i, s.taskStateIdx t r = some i → ∃ c, s.started[i]? = some c ∧ c.id = t ∧ c.route = r

theorem named_of_eq (hstarted : s'.started = s.started) (htasks : s'.tasks = s.tasks)
    (h : Named s) : Named s' := by
  intro t r i hi
  unfold Conductor.taskStateIdx at hi
  rw [htasks] at hi
  rw [hstarted]
  exact h t r i hi

theorem Thins.named (h : Thins s s') (hs : Named s) : Named s' :=
  named_of_eq h.started h.tasks hs

theorem Named.pushEntry (h : Named s) (e : TaskState) : Named (pushEntry e s) := by
  intro t r i hi
  unfold Conductor.started
  change ∃ c, ((s.sequence ++ [e]).map TaskStateOf.core)[i]? = some c ∧ c.id = t ∧ c.route = r
  rw [List.map_append]
  rw [taskStateIdx_pushEntry] at hi
  split at hi
  · rename_i heq
    cases heq
    cases hi
    refine ⟨e.core, ?_, rfl, rfl⟩
    rw [List.getElem?_append_right (List.length_map _).le, List.length_map, Nat.sub_self]
    rfl
  · obtain ⟨c, hc, hof⟩ := h t r i hi
    exact ⟨c, List.getElem?_append_left (List.getElem?_eq_some_iff.mp hc).1 ▸ hc, hof⟩

/-- Every write keeps which tasks the last entries are of. -/
theorem Write.named {K J : String → ℕ → Prop} (hw : Write wf K J s s') (h : Named s) :
    Named s' := by
  cases hw with
  | rest hseq htasks _ _ =>
    refine named_of_eq ?_ htasks h
    unfold Conductor.started
    rw [hseq]
  | note i f hf =>
    refine (thins_updateEntry (fun e => ?_) i s).named h
    rw [hf]
    rfl
  | tell _ _ =>
    refine (thins_updateEntry ?_ _ s).named h
    exact fun _ => rfl
  | unstage t r => exact (thins_removeStagedTask t r s).named h
  | mark _ _ _ => exact named_of_eq rfl rfl h
  | clear _ => exact named_of_eq rfl rfl h
  | offer _ _ => exact named_of_eq rfl rfl h
  | stage _ _ => exact named_of_eq rfl rfl h
  | item _ _ _ _ _ _ => exact named_of_eq rfl rfl h
  | start _ _ _ => exact Named.pushEntry (named_of_eq rfl rfl h) _
  | advance _ _ _ _ =>
    refine (thins_updateEntry ?_ _ s).named h
    exact fun _ => rfl
  | count _ _ _ _ => exact named_of_eq rfl rfl h

theorem Writes.named {K J : String → ℕ → Prop} (hw : Writes wf K J s s') (h : Named s) :
    Named s' := hw.keeps (fun _ _ h => h.named) h

theorem Named.entry {t : String} {r idx : ℕ} (h : Named s) (hidx : At t r idx s)
    (he : s.sequence[idx]? = some e) : e.id = t ∧ e.route = r := by
  obtain ⟨c, hc, hid, hroute⟩ := h t r idx hidx
  rw [Conductor.started_getElem? he, Option.some_inj] at hc
  subst hc
  exact ⟨hid, hroute⟩

end Entries

/-! ## What makes no entry abended -/

/-- The workflow stays unsuccessful, and no entry is made abended; the transitions of an abended
entry are noted at the positions in `D` only. -/
structure Attends (D : ℕ → Prop) (s s' : Conductor) : Prop where
  unsuccessful : s.status ∈ unsuccessfulStatuses → s'.status ∈ unsuccessfulStatuses
  entries : ∀ (i : ℕ) (e' : TaskState), s'.sequence[i]? = some e' → e'.abended = true →
    ∃ e : TaskState, s.sequence[i]? = some e ∧ e'.id = e.id ∧ e'.route = e.route ∧
      e'.status = e.status ∧ (¬ D i → e'.next = e.next) ∧
      (s'.taskStateIdx e.id e.route = some i → s.taskStateIdx e.id e.route = some i)

instance (D : ℕ → Prop) : IsPreorder Conductor (Attends D) where
  refl _ := ⟨id, fun _ e he _ => ⟨e, he, rfl, rfl, rfl, fun _ => rfl, id⟩⟩
  trans := by
    intro s₁ s₂ s₃ h h'
    refine ⟨fun hs => h'.unsuccessful (h.unsuccessful hs), fun i e₃ he₃ habended => ?_⟩
    obtain ⟨e₂, he₂, hid, hroute, hst, hnext, hlast⟩ := h'.entries i e₃ he₃ habended
    rw [abended_of_status hst] at habended
    obtain ⟨e₁, he₁, hid', hroute', hst', hnext', hlast'⟩ := h.entries i e₂ he₂ habended
    refine ⟨e₁, he₁, hid.trans hid', hroute.trans hroute', hst.trans hst',
      fun hD => (hnext hD).trans (hnext' hD), fun h => hlast' ?_⟩
    rw [← hid', ← hroute'] at h ⊢
    exact hlast h

section Attends

variable {wf : Workflow} {F : Option Status → Conductor → Prop} {D : ℕ → Prop} {s s' : Conductor}

theorem Aside.attends (h : Aside s s') : Attends D s s' := by
  refine ⟨fun hs => ?_, fun i e' he' habended => ?_⟩
  · rw [h.status]
    exact hs
  · rcases h.entries i e' he' with hnone | ⟨e, he, hid, hroute, hst, hnext, hlast⟩
    · rw [TaskStateOf.abended, hnone] at habended
      cases habended
    · exact ⟨e, he, hid, hroute, hst, fun _ => hnext, hlast⟩

theorem attends_of_onlyStatus (h : OnlyStatus s s')
    (hstatus : s.status ∈ unsuccessfulStatuses → s'.status ∈ unsuccessfulStatuses) :
    Attends D s s' := by
  unfold OnlyStatus at h
  refine ⟨hstatus, fun i e he _ => ⟨e, ?_, rfl, rfl, rfl, fun _ => rfl, fun hlast => ?_⟩⟩
  · rw [h] at he
    exact he
  · rw [h] at hlast
    exact hlast

/-- An entry is written, but for its task, and it is not made abended. -/
theorem attends_updateEntry {f : TaskState → TaskState} {i : ℕ}
    (hf : ∀ e, (f e).id = e.id ∧ (f e).route = e.route ∧
      ((f e).abended = true → (f e).status = e.status ∧ (¬ D i → (f e).next = e.next)))
    (s : Conductor) : Attends D s (s.updateEntry i f) := by
  refine ⟨id, fun j e' hj habended => ?_⟩
  have hget : (s.updateEntry i f).sequence[j]? =
      if i = j then s.sequence[j]?.map f else s.sequence[j]? := Positions.getElem?_modify _ _ _ _
  rw [hget] at hj
  split at hj
  · rename_i heq
    obtain ⟨e, he, rfl⟩ := Option.map_eq_some_iff.mp hj
    obtain ⟨hid, hroute, hkept⟩ := hf e
    obtain ⟨hst, hnext⟩ := hkept habended
    exact ⟨e, he, hid, hroute, hst, heq ▸ hnext, id⟩
  · exact ⟨e', hj, rfl, rfl, rfl, fun _ => rfl, id⟩

/-- No row leads from an unsuccessful status to one that is not. -/
theorem unsuccessful_of_transition {current new : Status} {name : EventName}
    (hcurrent : current ∈ unsuccessfulStatuses)
    (h : WorkflowStateMachine.transition current name = .ok (some new)) :
    new ∈ unsuccessfulStatuses := by
  have htable : ∀ current ∈ unsuccessfulStatuses,
      ∀ p ∈ (workflowStateMachineData current).getD [], p.2 ∈ unsuccessfulStatuses := by decide
  exact htable current hcurrent _ (WorkflowStateMachine.transition_row h)

theorem processTaskEvent_attends {t : String} {r : ℕ} {st : Status}
    (h : WorkflowStateMachine.processTaskEvent wf t r st s = .ok () s') : Attends D s s' := by
  refine attends_of_onlyStatus (processTaskEvent_onlyStatus h) fun hs => ?_
  obtain ⟨_, rfl | ⟨new, hnew, rfl | ⟨hfailed, _⟩⟩⟩ := (processTaskEvent_log wf t r st s).of_run h
  · exact hs
  · exact unsuccessful_of_transition hs hnew
  · rw [hfailed]
    decide

/-- What a call does apart from the events of tasks makes no entry abended. -/
theorem Turn.attends (h : Turn wf F (fun _ _ => False) s s') : Attends D s s' := by
  cases h with
  | aside h => exact h.attends
  | notified h => exact processTaskEvent_attends h
  | requested _ h =>
    refine attends_of_onlyStatus (processWorkflowEvent_onlyStatus h) fun hs => ?_
    obtain ⟨_, ⟨_, rfl⟩ | ⟨new, hnew, rfl⟩⟩ := (processWorkflowEvent_outcome _ s).of_run h
    · exact hs
    · exact unsuccessful_of_transition hs hnew
  | @told i e w st _ hst =>
    have hnot : st ∉ abendedStatuses := fun hmem =>
      absurd (nextStatus_workflow hst).2 (by revert hmem; cases st <;> decide)
    refine attends_updateEntry ?_ s
    exact fun _ => ⟨rfl, rfl, fun habended => absurd (of_decide_eq_true habended) hnot⟩
  | advanced _ _ hR => exact hR.elim

theorem stageTransitions_attends (spec : TaskSpec) (t : String) (r idx : ℕ) (ctx : EvalContext) :
    Moves (Attends (· = idx)) (stageTransitions wf spec t r idx ctx) := by
  have hturn : ∀ s s', Turn wf (fun _ _ => True) (fun _ _ => False) s s' →
      Attends (· = idx) s s' := fun _ _ h => h.attends
  refine stageTransitions_within hturn (fun tid met s => ?_) (fun i s => ?_) (fun _ _ => trivial)
    spec t r ctx
  · refine attends_updateEntry ?_ s
    exact fun e => ⟨rfl, rfl, fun _ => ⟨rfl, fun hne => absurd rfl hne⟩⟩
  · exact ⟨id, fun _ e he _ => ⟨e, he, rfl, rfl, rfl, fun _ => rfl, id⟩⟩

theorem LeftFailed.attends {i : ℕ} {e' : TaskState} (h : LeftFailed wf s' i e')
    (ha : Attends D s s') (hi : ¬ D i) : ∃ e, LeftFailed wf s i e ∧ e'.id = e.id ∧
      e'.route = e.route := by
  obtain ⟨e, he, hid, hroute, hst, hnext, hlast⟩ :=
    ha.entries i e' h.entry (abended_of_unremediated h.unremediated)
  refine ⟨e, ⟨he, hlast ?_, ?_⟩, hid, hroute⟩
  · rw [← hid, ← hroute]
    exact h.last
  · rw [← unremediated_congr hid hst (hnext hi)]
    exact h.unremediated

theorem Noticed.attends (hs : Noticed wf s) (h : Attends (fun _ => False) s s') :
    Noticed wf s' := by
  intro i e' hleft
  obtain ⟨e, hleft, _⟩ := hleft.attends h id
  exact h.unsuccessful (hs i e hleft)

end Attends

/-! ## Hearing of a failure -/

/-- The failures that nothing goes on from are noticed, but for one of the task if `b` does not
hold. -/
def NoticedBut (wf : Workflow) (b : Bool) (t : String) (r : ℕ) (s : Conductor) : Prop :=
  ∀ i e, LeftFailed wf s i e →
    s.status ∈ unsuccessfulStatuses ∨ b = false ∧ e.id = t ∧ e.route = r

/-- In the middle of an update of the task, whose entry is at the position.  If `b` holds then the
entry is not abended. -/
structure Underway (wf : Workflow) (b : Bool) (t : String) (r idx : ℕ) (s : Conductor) : Prop where
  named : Named s
  noticed : ∀ i e, LeftFailed wf s i e →
    s.status ∈ unsuccessfulStatuses ∨ b = false ∧ i = idx
  entry : ∀ e : TaskState, s.sequence[idx]? = some e → e.abended = true →
    b = false ∧ e.id = t ∧ e.route = r

/-- What the client finds between its calls. -/
structure Accounted (wf : Workflow) (s : Conductor) : Prop where
  named : Named s
  noticed : Noticed wf s

/-- Whether the failure of the task is not lost when the workflow is told of it. -/
def Conductor.hearing (wf : Workflow) (idx : ℕ) (s : Conductor) : Bool :=
  s.status ∈ unsuccessfulStatuses ||
    (s.sequence[idx]?).all fun e => !wf.unremediated e ||
      (e.status = some failed && s.status ∈ [running, pausing, resuming])

/-- Whether every command is heard, each in the state that the ones before it lead to. -/
def heardAll {α : Type} (command : α → M Unit) (heard : α → Conductor → Bool) :
    List α → Conductor → Bool
  | [], _ => true
  | c :: cs, s => heard c s && passes (command c) (fun _ => heardAll command heard cs) s

/-- Whether what follows from the new status of the task is heard. -/
def finishHeard (wf : Workflow) (command : String × ℕ → M Unit)
    (heard : String × ℕ → Conductor → Bool) (t : String) (r : ℕ) (p : Progress) (ctx : EvalContext)
    (s : Conductor) : Bool :=
  follows (decide (p.new ∉ abendedStatuses))
    (if p.new ∈ completedStatuses ∧ p.new ≠ p.old then stageTransitions wf p.spec t r p.idx ctx
      else pure [])
    (fun commands s => s.hearing wf p.idx &&
      passes (notifyWorkflow wf t r p.idx) (fun _ => heardAll command heard commands) s) s

/-- Whether no failure is lost in the update: a task that it makes abended is one the workflow is
told of where it hears of it, and nothing is raised before that.  `b` says that no failure of the
task is pending from before. -/
def hears (wf : Workflow) : ℕ → Bool → String → ℕ → Event → Conductor → Bool
  | 0, b, _, _, _, _ => b
  | n + 1, b, t, r, event, s =>
    follows b (beginUpdate wf t r event) (fun p s =>
      let b := decide (p.new ∉ abendedStatuses)
      let finish := finishHeard wf
        (fun c => updateTaskStateTo wf n c.1 c.2 (commandEvent c))
        (fun c => hears wf n true c.1 c.2 (commandEvent c)) t r p
      if p.new ∈ completedStatuses then
        follows b (completeTask p.spec t r p.idx p.new event) (fun ctx s =>
          follows b (needsRetry wf p.idx ctx) (fun due s =>
            if due then hears wf n b t r (.operation .taskRetry) s else finish ctx s) s) s
      else follows b (if p.new = retrying then restage t r p.idx else pure ())
        (fun _ => finish ⟨[], none, none, none⟩) s) s

section Underway

variable {wf : Workflow} {b : Bool} {t : String} {r idx : ℕ} {s s' : Conductor}

theorem Underway.attends (h : Underway wf b t r idx s) (ha : Attends (· = idx) s s')
    (hnamed : Named s') : Underway wf b t r idx s' where
  named := hnamed
  noticed := by
    intro i e' hleft
    by_cases hi : i = idx
    · have habended := abended_of_unremediated hleft.unremediated
      obtain ⟨e, he, _, _, hst, _⟩ := ha.entries i e' hleft.entry habended
      rw [abended_of_status hst] at habended
      exact Or.inr ⟨(h.entry e (hi ▸ he) habended).1, hi⟩
    · obtain ⟨e, hleft, _⟩ := hleft.attends ha hi
      exact (h.noticed i e hleft).imp_left ha.unsuccessful
  entry := by
    intro e' he' habended
    obtain ⟨e, he, hid, hroute, hst, _⟩ := ha.entries idx e' he' habended
    rw [abended_of_status hst] at habended
    rw [hid, hroute]
    exact h.entry e he habended

theorem Underway.accounted (h : Underway wf b t r idx s) (hb : b = true) : Accounted wf s := by
  refine ⟨h.named, fun i e hleft => (h.noticed i e hleft).resolve_right ?_⟩
  rintro ⟨hfalse, _⟩
  rw [hb] at hfalse
  cases hfalse

theorem Underway.but (h : Underway wf b t r idx s) : NoticedBut wf b t r s := by
  intro i e hleft
  refine (h.noticed i e hleft).imp_right ?_
  rintro ⟨_, rfl⟩
  exact h.entry e hleft.entry (abended_of_unremediated hleft.unremediated)

/-- A part of the update that makes no entry abended. -/
theorem Underway.step {α : Type} {m : M α} (h : Underway wf b t r idx s)
    (hm : Moves (Attends (· = idx)) m) (hnamed : Moves (Preserves Named) m) :
    Outcome m (fun _ => Underway wf b t r idx) (fun _ => Underway wf b t r idx) s :=
  ((hm.outcome s).and (hnamed.outcome s)).mono
    (fun _ _ h' => h.attends h'.1 (h'.2 h.named)) fun _ _ h' => h.attends h'.1 (h'.2 h.named)

theorem NoticedBut.noticed (h : NoticedBut wf b t r s) (hb : b = true) : Noticed wf s := by
  intro i e hleft
  refine (h i e hleft).resolve_right ?_
  rintro ⟨hfalse, _⟩
  rw [hb] at hfalse
  cases hfalse

theorem NoticedBut.attends (hs : NoticedBut wf b t r s) (h : Attends (fun _ => False) s s') :
    NoticedBut wf b t r s' := by
  intro i e' hleft
  obtain ⟨e, hleft, hid, hroute⟩ := hleft.attends h id
  rw [hid, hroute]
  exact (hs i e hleft).imp_left h.unsuccessful

theorem Accounted.but (h : Accounted wf s) : NoticedBut wf b t r s := fun i e hleft =>
  Or.inl (h.noticed i e hleft)

/-- The first half of an update. -/
theorem beginUpdate_underway (hnamed : Named s) (hs : NoticedBut wf b t r s) (event : Event) :
    Outcome (beginUpdate wf t r event)
      (fun p s' => Underway wf (decide (p.new ∉ abendedStatuses)) t r p.idx s' ∧ At t r p.idx s')
      (fun _ s' => Named s' ∧ NoticedBut wf b t r s') s := by
  refine ((beginUpdate_begun (J := fun _ _ => True) (K := fun _ _ => True) trivial event s).and
    (beginUpdate_aside t r event s)).mono ?_ ?_
  · rintro p s' ⟨⟨s₀, s₁, e, hwrites, hbegun⟩, _⟩
    have haside := hbegun.aside
    have hnamed' : Named s' ∧ s'.status = s₁.status ∧ At t r p.idx s' ∧
        ∀ i, i ≠ p.idx → s'.sequence[i]? = s₁.sequence[i]? ∧
          ∀ u q, s'.taskStateIdx u q = s₁.taskStateIdx u q := by
      have hnamed₁ := hwrites.named hnamed
      rcases hbegun.next with ⟨_, _, rfl⟩ | ⟨_, rfl⟩
      · exact ⟨hnamed₁, rfl, hbegun.last, fun _ _ => ⟨rfl, fun _ _ => rfl⟩⟩
      · refine ⟨(thins_updateEntry ?_ p.idx s₁).named hnamed₁, rfl, hbegun.last, fun i hi => ?_⟩
        · exact fun _ => rfl
        · refine ⟨?_, fun _ _ => rfl⟩
          show (s₁.sequence.modify _ _)[i]? = _
          rw [Positions.getElem?_modify, if_neg (Ne.symm hi)]
    obtain ⟨hnamed', hstatus, hidx, hother⟩ := hnamed'
    have hentry : ∀ e' : TaskState, s'.sequence[p.idx]? = some e' → e'.abended = true →
        decide (p.new ∉ abendedStatuses) = false ∧ e'.id = t ∧ e'.route = r := by
      intro e' he' habended
      refine ⟨?_, hnamed'.entry hidx he'⟩
      obtain ⟨e'', he'', _, hnew⟩ := hbegun.status
      rw [he', Option.some_inj] at he''
      subst he''
      obtain ⟨st, hst, hmem⟩ := (Option.any_eq_true _ _).mp habended
      rw [statusOrUnset_eq hst] at hnew
      rw [decide_eq_false_iff_not, not_not, ← hnew]
      exact of_decide_eq_true hmem
    refine ⟨⟨hnamed', fun i e' hleft => ?_, hentry⟩, hidx⟩
    by_cases hi : i = p.idx
    · subst hi
      exact Or.inr ⟨(hentry e' hleft.entry (abended_of_unremediated hleft.unremediated)).1, rfl⟩
    · obtain ⟨hsame, htasks⟩ := hother i hi
      have hleft₁ : LeftFailed wf s₁ i e' :=
        ⟨hsame ▸ hleft.entry, htasks _ _ ▸ hleft.last, hleft.unremediated⟩
      obtain ⟨e₀, hleft₀, hid, hroute⟩ :=
        hleft₁.attends (haside.attends (D := fun _ => False)) id
      refine (hs i e₀ hleft₀).imp (fun h => ?_) ?_
      · rw [hstatus, haside.status]
        exact h
      · -- the last entry of the task is the one at the position
        rintro ⟨_, ht, hr⟩
        have hlast := hleft.last
        rw [hid, hroute, ht, hr] at hlast
        exact absurd (Option.some.inj (hlast.symm.trans hidx)) hi
  · rintro _ s' ⟨hwrites, haside⟩
    exact ⟨hwrites.named hnamed, hs.attends haside.attends⟩

end Underway

/-! ## Telling the workflow -/

section Telling

variable {wf : Workflow} {t : String} {r idx : ℕ} {s s' : Conductor} {e : TaskState}

/-- What is looked up for the transitions of a task that nothing goes on from. -/
theorem hasNext_of_not_goesOn (he : s.getTaskStateEntry t r = some e) (hid : e.id = t)
    (hgo : wf.goesOn e = false) (evalJoinReady : Bool) : s.hasNext wf t r evalJoinReady = false := by
  unfold Conductor.hasNext
  rw [he]
  dsimp only
  rw [Bool.and_eq_false_imp]
  intro _
  unfold Workflow.goesOn at hgo
  rw [hid, List.any_eq_false] at hgo
  refine List.any_eq_false.mpr fun edge hedge htrue => hgo edge hedge ?_
  rw [Bool.and_eq_true, Bool.and_eq_true] at htrue
  rw [Bool.and_eq_true]
  exact htrue.1

/-- A failure that nothing goes on from is told under the name for failures. -/
theorem addContextToTaskEvent_failed (he : s.getTaskStateEntry t r = some e) (hid : e.id = t)
    (hgo : wf.goesOn e = false) : ∃ activity ∈ [Suffix.workflowActive, Suffix.workflowDormant],
      WorkflowStateMachine.addContextToTaskEvent wf s t r failed = ⟨.task (some failed), [activity]⟩ := by
  refine ⟨if s.hasActiveTasks then .workflowActive else .workflowDormant, ?_, ?_⟩
  · split
    · exact List.mem_cons_self
    · exact List.mem_cons_of_mem _ List.mem_cons_self
  · have hnot : ¬ (failed ∈ abendedStatuses ∧
        (s.hasNextTasks wf t r || s.hasBarrierNext wf t r) = true) := by
      rintro ⟨_, hnext⟩
      unfold Conductor.hasNextTasks Conductor.hasBarrierNext at hnext
      rw [hasNext_of_not_goesOn he hid hgo, hasNext_of_not_goesOn he hid hgo] at hnext
      cases hnext
    unfold WorkflowStateMachine.addContextToTaskEvent
    extract_lets hasNextTasks remediated name activity conditional
    have hname : name = .task failed [] := if_neg hnot
    have hconditional : conditional = (EventName.task failed []).append activity := by
      have hmem : name ∈ taskConditionalEvents := by
        rw [hname]
        decide
      simp only [conditional, if_pos hmem, hname]
    have hother : ¬ (failed = succeeded ∨ remediated) := by
      rintro (h | h)
      · cases h
      · exact hnot h
    rw [if_pos hother, hconditional]
    rfl

/-- **The workflow hears of the failure** where its row has the event. -/
theorem processTaskEvent_failed (he : s.getTaskStateEntry t r = some e) (hid : e.id = t)
    (hgo : wf.goesOn e = false) (hs : s.status ∈ [running, pausing, resuming]) :
    Outcome (WorkflowStateMachine.processTaskEvent wf t r failed) (fun _ s' => s'.status = failed)
      (fun _ _ => False) s := by
  obtain ⟨activity, hactivity, hname⟩ := addContextToTaskEvent_failed he hid hgo
  have hlegal : ∀ activity ∈ [Suffix.workflowActive, Suffix.workflowDormant],
      (⟨.task (some failed), [activity]⟩ : EventName) ∈ taskExecutionEvents := by decide
  have hrows : ∀ st ∈ [running, pausing, resuming],
      ∀ activity ∈ [Suffix.workflowActive, Suffix.workflowDormant],
      WorkflowStateMachine.transition st ⟨.task (some failed), [activity]⟩ =
        .ok (some failed) := by decide
  unfold WorkflowStateMachine.processTaskEvent
  rw [outcome_bind, outcome_get]
  dsimp only
  rw [hname, if_pos (hlegal activity hactivity), hrows s.status hs activity hactivity]
  dsimp only
  rw [outcome_bind, outcome_modify]
  refine (failUnreachable_log wf (s.setStatus failed)).mono ?_ fun _ _ h => h
  rintro _ s' ⟨_, rfl | ⟨hfailed, _⟩⟩
  · rfl
  · exact hfailed

theorem notifyWorkflow_attends {D : ℕ → Prop} (t : String) (r idx : ℕ) :
    Moves (Attends D) (notifyWorkflow wf t r idx) := by
  unfold notifyWorkflow
  refine moves_bind moves_get fun s => ?_
  split
  · exact moves_throw _
  · rename_i st _
    refine moves_iff.mpr fun s => ?_
    refine ((processTaskEvent_outcome wf t r st s).and outcome_run).mono ?_ ?_
    · rintro _ s' ⟨_, hrun⟩
      exact processTaskEvent_attends hrun
    · rintro _ s' ⟨⟨rfl, _⟩, _⟩
      exact refl_of (Attends D) s'

/-- **After the workflow was told** every failure is noticed, if it hears of the one of the task. -/
theorem notifyWorkflow_accounted {b : Bool} (h : Underway wf b t r idx s)
    (hhearing : s.hearing wf idx = true) :
    Outcome (notifyWorkflow wf t r idx) (fun _ => Accounted wf) (fun _ => Accounted wf) s := by
  have hnamed : Moves (Preserves Named) (notifyWorkflow wf t r idx) :=
    (notifyWorkflow_thins wf t r idx).mono fun _ _ h => h.named
  have hkept : ∀ s', Attends (fun _ => False) s s' → Named s' →
      (s.status ∈ unsuccessfulStatuses ∨ Noticed wf s) → Accounted wf s' := by
    intro s' ha hs' hor
    refine ⟨hs', ?_⟩
    rcases hor with hs | hs
    · exact fun _ _ _ => ha.unsuccessful hs
    · exact hs.attends ha
  have hattends : Moves (Attends fun _ => False) (notifyWorkflow wf t r idx) :=
    notifyWorkflow_attends t r idx
  have hmoved := (hattends.outcome s).and (hnamed.outcome s)
  by_cases hleft : s.status ∉ unsuccessfulStatuses ∧ ∃ e, LeftFailed wf s idx e
  · -- the failure is one that the workflow is to hear of
    obtain ⟨hs, e, hleft⟩ := hleft
    have habended := abended_of_unremediated hleft.unremediated
    obtain ⟨_, hid, hroute⟩ := h.entry e hleft.entry habended
    unfold Conductor.hearing at hhearing
    rw [decide_eq_false hs, Bool.false_or, hleft.entry, Option.all_some, hleft.unremediated,
      Bool.not_true, Bool.false_or, Bool.and_eq_true, decide_eq_true_eq, decide_eq_true_eq]
      at hhearing
    have hentry : s.getTaskStateEntry t r = some e := by
      rw [Conductor.getTaskStateEntry, ← hid, ← hroute, hleft.last, Option.bind_some, hleft.entry]
    have hfailed : Outcome (notifyWorkflow wf t r idx) (fun _ s' => s'.status = failed)
        (fun _ _ => False) s := by
      unfold notifyWorkflow
      rw [outcome_bind, outcome_get, hleft.entry, Option.bind_some, hhearing.1]
      exact processTaskEvent_failed hentry hid (not_goesOn_of_unremediated hleft.unremediated)
        hhearing.2
    refine (hfailed.and hmoved).mono ?_ fun _ _ h => h.1.elim
    rintro _ s' ⟨hst, _, hs'⟩
    refine ⟨hs' h.named, fun _ _ _ => ?_⟩
    rw [hst]
    decide
  · have hor : s.status ∈ unsuccessfulStatuses ∨ Noticed wf s := by
      rw [not_and_or, not_not] at hleft
      refine hleft.imp_right fun hnone i e hi => ?_
      refine (h.noticed i e hi).resolve_right ?_
      rintro ⟨_, rfl⟩
      exact hnone ⟨e, hi⟩
    exact hmoved.mono (fun _ s' h' => hkept s' h'.1 (h'.2 h.named) hor)
      fun _ s' h' => hkept s' h'.1 (h'.2 h.named) hor

end Telling

/-! ## Updates -/

section Updates

variable {wf : Workflow} {t : String} {r : ℕ} {s : Conductor}
  {command : String × ℕ → M Unit} {heard : String × ℕ → Conductor → Bool}

theorem Accounted.aside {s' : Conductor} (h : Accounted wf s) (ha : Aside s s')
    (hnamed : Named s') : Accounted wf s' := ⟨hnamed, h.noticed.attends ha.attends⟩

theorem forM_accounted
    (hcommand : ∀ c s, Accounted wf s → heard c s = true →
      Outcome (command c) (fun _ => Accounted wf) (fun _ => Accounted wf) s)
    (cs : List (String × ℕ)) (hs : Accounted wf s) (hheard : heardAll command heard cs s = true) :
    Outcome (forM cs command) (fun _ => Accounted wf) (fun _ => Accounted wf) s := by
  induction cs generalizing s with
  | nil => exact hs
  | cons c cs ih =>
    rw [heardAll, Bool.and_eq_true] at hheard
    rw [List.forM_cons, outcome_bind]
    refine ((hcommand c s hs hheard.1).and (passes_iff.mp hheard.2)).mono ?_ fun _ _ h => h.1
    rintro _ s' ⟨hs', hrest⟩
    exact ih hs' hrest

/-- What follows from the new status of the task. -/
theorem finishUpdate_accounted {p : Progress} {ctx : EvalContext}
    (hcommand : ∀ c s, Accounted wf s → heard c s = true →
      Outcome (command c) (fun _ => Accounted wf) (fun _ => Accounted wf) s)
    (h : Underway wf (decide (p.new ∉ abendedStatuses)) t r p.idx s)
    (hheard : finishHeard wf command heard t r p ctx s = true) :
    Outcome (finishUpdate wf p.spec t r p.idx p.old p.new ctx command) (fun _ => Accounted wf)
      (fun _ => Accounted wf) s := by
  have htail : ∀ (commands : List (String × ℕ)) (s₁ : Conductor),
      Underway wf (decide (p.new ∉ abendedStatuses)) t r p.idx s₁ →
      (s₁.hearing wf p.idx &&
        passes (notifyWorkflow wf t r p.idx) (fun _ => heardAll command heard commands) s₁) = true →
      Outcome (do
        notifyWorkflow wf t r p.idx
        forM commands command
        markTerminal p.idx) (fun _ => Accounted wf) (fun _ => Accounted wf) s₁ := by
    intro commands s₁ h₁ hrest
    rw [Bool.and_eq_true] at hrest
    rw [outcome_bind]
    refine ((notifyWorkflow_accounted h₁ hrest.1).and (passes_iff.mp hrest.2)).mono ?_
      fun _ _ h => h.1
    rintro _ s₂ ⟨h₂, hcommands⟩
    rw [outcome_bind]
    refine (forM_accounted hcommand commands h₂ hcommands).mono (fun _ s₃ h₃ => ?_)
      fun _ _ h => h
    refine (((markTerminal_aside p.idx).outcome s₃).and
      ((markTerminal_thins p.idx).outcome s₃)).mono ?_ ?_
    · exact fun _ _ h => h₃.aside h.1 (h.2.named h₃.named)
    · exact fun _ _ h => h₃.aside h.1 (h.2.named h₃.named)
  unfold finishHeard at hheard
  unfold finishUpdate
  dsimp only
  split
  · rename_i hnew
    rw [if_pos hnew] at hheard
    have hwrites : Moves (Writes wf (fun _ _ => True) fun _ _ => True)
        (stageTransitions wf p.spec t r p.idx ctx) :=
      stageTransitions_writes p.spec t r p.idx ctx
    have hstaged := h.step (stageTransitions_attends p.spec t r p.idx ctx)
      (hwrites.mono fun _ _ h => h.named)
    rw [outcome_bind]
    refine (hstaged.and (follows_iff.mp hheard)).mono ?_ ?_
    · exact fun commands s₁ h₁ => htail commands s₁ h₁.1 h₁.2
    · exact fun _ _ h => h.1.accounted h.2
  · rename_i hnew
    rw [if_neg hnew] at hheard
    exact htail [] s h hheard

/-- **An update in which every failure is heard** leaves none unnoticed. -/
theorem updateTaskStateTo_accounted (n : ℕ) : ∀ {b : Bool} {t : String} {r : ℕ} {event : Event}
    {s : Conductor}, Named s → NoticedBut wf b t r s → hears wf n b t r event s = true →
    Outcome (updateTaskStateTo wf n t r event) (fun _ => Accounted wf) (fun _ => Accounted wf)
      s := by
  induction n with
  | zero =>
    intro b t r event s hnamed hs hheard
    exact ⟨hnamed, hs.noticed hheard⟩
  | succ n ih =>
    intro b t r event s hnamed hs hheard
    have hcommand : ∀ (c : String × ℕ) (s : Conductor), Accounted wf s →
        hears wf n true c.1 c.2 (commandEvent c) s = true →
        Outcome (updateTaskStateTo wf n c.1 c.2 (commandEvent c)) (fun _ => Accounted wf)
          (fun _ => Accounted wf) s := fun c s hs hheard => ih hs.named hs.but hheard
    rw [updateTaskStateTo_succ, outcome_bind]
    refine ((beginUpdate_underway hnamed hs event).and (follows_iff.mp hheard)).mono ?_ ?_
    · rintro p s₁ ⟨⟨h₁, hidx⟩, hrest⟩
      have hstep : ∀ {α : Type} {m : M α} {s : Conductor} {k : α → Conductor → Bool},
          Underway wf (decide (p.new ∉ abendedStatuses)) t r p.idx s → Moves Aside m →
          Moves (Preserves Named) m → follows (decide (p.new ∉ abendedStatuses)) m k s = true →
          Outcome m (fun a s' => Underway wf (decide (p.new ∉ abendedStatuses)) t r p.idx s' ∧
            k a s' = true) (fun _ => Accounted wf) s := by
        intro α m s k h hm hnamed hk
        refine ((h.step (hm.mono fun _ _ h => h.attends) hnamed).and (follows_iff.mp hk)).mono
          (fun _ _ h => h) ?_
        rintro _ s' ⟨h', hb⟩
        exact h'.accounted hb
      unfold continueUpdate
      dsimp only at hrest ⊢
      by_cases hcompleted : p.new ∈ completedStatuses
      · have hnot : p.new ≠ retrying := by
          rintro heq
          rw [heq] at hcompleted
          exact absurd hcompleted (by decide)
        rw [if_pos hcompleted] at hrest
        rw [if_neg hnot, if_pos hcompleted, outcome_bind]
        refine (hstep h₁ (completeTask_aside p.spec t r p.idx p.new event)
          ((completeTask_thins p.spec t r p.idx p.new event).mono fun _ _ h => h.named)
          hrest).mono ?_ fun _ _ h => h
        rintro ctx s₂ ⟨h₂, hrest⟩
        rw [outcome_bind]
        refine (hstep h₂ ((needsRetry_moves wf p.idx ctx).mono fun s s' (h : s' = s) => by
          rw [h]; exact refl_of Aside s) ((needsRetry_thins wf p.idx ctx).mono fun _ _ h => h.named)
          hrest).mono ?_ fun _ _ h => h
        rintro due s₃ ⟨h₃, hrest⟩
        cases due with
        | true => exact ih h₃.named h₃.but hrest
        | false => exact finishUpdate_accounted hcommand h₃ hrest
      · rw [if_neg hcompleted] at hrest
        rw [if_neg hcompleted]
        by_cases hretrying : p.new = retrying
        · rw [if_pos hretrying] at hrest
          rw [if_pos hretrying, outcome_bind]
          -- the task is offered again, its entry is not touched
          have hwrites : Outcome (restage t r p.idx)
              (fun _ => Writes wf (fun _ _ => True) (fun _ _ => True) s₁)
              (fun _ => Writes wf (fun _ _ => True) (fun _ _ => True) s₁) s₁ :=
            restage_writes trivial hidx
          have hrestage := ((restage_aside t r p.idx).outcome s₁).and hwrites
          have hunderway : ∀ s₂, Aside s₁ s₂ ∧ Writes wf (fun _ _ => True) (fun _ _ => True) s₁ s₂ →
              Underway wf (decide (p.new ∉ abendedStatuses)) t r p.idx s₂ :=
            fun s₂ h => h₁.attends h.1.attends (h.2.named h₁.named)
          refine (hrestage.and (follows_iff.mp hrest)).mono ?_ ?_
          · exact fun _ s₂ h => finishUpdate_accounted hcommand (hunderway s₂ h.1) h.2
          · exact fun _ s₂ h => (hunderway s₂ h.1).accounted h.2
        · rw [if_neg hretrying] at hrest
          rw [if_neg hretrying]
          exact finishUpdate_accounted hcommand h₁ hrest
    · rintro _ s₁ ⟨⟨hnamed₁, hs₁⟩, hb⟩
      exact ⟨hnamed₁, hs₁.noticed hb⟩

end Updates

/-! ## Runs -/

/-- Whether every failure is heard in the call.  Nothing is to be heard in a workflow that has
succeeded, or that does not go on to succeed. -/
def Call.heard (wf : Workflow) (s : Conductor) : Call → Bool
  | .updateTaskState t r event => s.status ∈ succeeded :: unsuccessfulStatuses ||
      hears wf recursionLimit true t r event s
  | _ => true

/-- The invariant of a run: until the workflow has succeeded, every failure is noticed. -/
structure Tracked (wf : Workflow) (s : Conductor) : Prop where
  named : Named s
  noticed : s.status = succeeded ∨ Noticed wf s

section Runs

variable {wf : Workflow}

theorem step_named (c : Call) {s : Conductor} (h : Named s) : Named (step wf s c) := by
  have hwrites : Writes wf (fun _ _ => True) (fun _ _ => True) s (step wf s c) := by
    cases c with
    | requestWorkflowStatus st =>
      exact outcome_after.mp ((requestWorkflowStatus_writes st).outcome s)
    | updateTaskState t r event =>
      refine outcome_after.mp (Moves.outcome ?_ s)
      exact updateTaskStateTo_writes (fun _ _ _ => ⟨trivial, trivial⟩) _ event trivial trivial
    | getNextTasks => exact outcome_after.mp (getNextTasks_writes.outcome s)
  exact hwrites.named h

/-- What a call does to the status of a workflow that does not go on to succeed. -/
def StaysUnsuccessful (s s' : Conductor) : Prop :=
  s.status ∈ unsuccessfulStatuses → s'.status ∈ unsuccessfulStatuses

instance : IsPreorder Conductor StaysUnsuccessful where
  refl _ := id
  trans _ _ _ h h' := h' ∘ h

theorem Turn.unsuccessful {F : Option Status → Conductor → Prop}
    {R : Conductor → Status → Prop} {s s' : Conductor} (h : Turn wf F R s s') :
    StaysUnsuccessful s s' := by
  intro hs
  cases h with
  | aside h =>
    rw [h.status]
    exact hs
  | notified h => exact (processTaskEvent_attends (D := fun _ => False) h).unsuccessful hs
  | requested hF h =>
    have hturn : Turn wf F (fun _ _ => False) s s' := .requested hF h
    exact (hturn.attends (D := fun _ => False)).unsuccessful hs
  | told _ _ => exact hs
  | advanced _ _ _ => exact hs

theorem step_unsuccessful (s : Conductor) (c : Call) : StaysUnsuccessful s (step wf s c) :=
  step_within (Q := StaysUnsuccessful) (fun _ _ h => h.unsuccessful) (fun _ _ _ _ h => h)
    (fun _ _ h => h) s c

/-- **A call in which every failure is heard** keeps the failures noticed. -/
theorem step_tracked {s : Conductor} (c : Call) (h : Tracked wf s) (hc : c.heard wf s = true) :
    Tracked wf (step wf s c) ∧
      (s.status ≠ succeeded → Noticed wf (step wf s c)) := by
  have hnoticed : s.status ≠ succeeded → Noticed wf (step wf s c) := by
    intro hopen
    have hs : Noticed wf s := h.noticed.resolve_left hopen
    by_cases hun : s.status ∈ unsuccessfulStatuses
    · exact fun _ _ _ => step_unsuccessful s c hun
    · have hturn : ∀ s s', Turn wf (fun _ _ => True) (fun _ _ => False) s s' →
          Attends (fun _ => False) s s' := fun _ _ h => h.attends
      cases c with
      | requestWorkflowStatus st =>
        have hturns : Turns wf (fun _ _ => True) (fun _ _ => False) s
            (step wf s (.requestWorkflowStatus st)) :=
          outcome_after.mp (requestWorkflowStatus_turns fun _ _ _ => trivial)
        exact hs.attends (hturns.within hturn)
      | updateTaskState t r event =>
        have hnot : s.status ∉ succeeded :: unsuccessfulStatuses := by
          rw [List.mem_cons, not_or]
          exact ⟨hopen, hun⟩
        rw [Call.heard, decide_eq_false hnot, Bool.false_or] at hc
        have haccounted : Accounted wf s := ⟨h.named, hs⟩
        exact (outcome_after.mp (updateTaskStateTo_accounted _ h.named haccounted.but hc)).noticed
      | getNextTasks =>
        have hturns : Turns wf (fun _ _ => True) (fun _ _ => False) s (step wf s .getNextTasks) :=
          outcome_after.mp (getNextTasks_turns fun _ _ _ => trivial)
        exact hs.attends (hturns.within hturn)
  refine ⟨⟨step_named c h.named, ?_⟩, hnoticed⟩
  by_cases hst : s.status = succeeded
  · have hlasting : Lasting s (step wf s c) := step_lasting s c
    refine (hlasting (hst ▸ by decide)).imp (fun hsame => hsame.trans hst) fun hfailed _ _ _ => ?_
    rw [hfailed.2]
    decide
  · exact Or.inr (hnoticed hst)

/-- Where no task is started there are no entries. -/
theorem Write.sequence_nil {J : String → ℕ → Prop} {s s' : Conductor}
    (hw : Write wf (fun _ _ => False) J s s') (h : s.sequence = []) : s'.sequence = [] := by
  have hupdate : ∀ i f, (s.updateEntry i f).sequence = [] := by
    intro i f
    unfold Conductor.updateEntry
    rw [h]
    exact List.modify_nil f i
  cases hw with
  | rest hseq _ _ _ => exact hseq.trans h
  | note i f _ => exact hupdate i f
  | tell _ _ => exact hupdate _ _
  | unstage t r =>
    rw [(removeStagedTask_restaged t r s).rest]
    exact h
  | mark _ _ _ => exact h
  | clear _ => exact h
  | offer _ _ => exact h
  | stage _ _ => exact h
  | item _ hK _ _ _ _ => exact hK.elim
  | start hK _ _ => exact hK.elim
  | advance _ _ _ _ => exact hupdate _ _
  | count _ _ _ _ => exact h

theorem init_tracked (wf : Workflow) : Tracked wf (.init wf) := by
  have hwrites : Writes wf (fun _ _ => False) (fun _ _ => True) .empty (.init wf) := init_writes wf
  have hempty : Named .empty := by
    intro t r i hi
    cases hi
  have hseq : (Conductor.init wf).sequence = [] :=
    hwrites.keeps (P := fun s => s.sequence = []) (fun _ _ hw h => hw.sequence_nil h) rfl
  refine ⟨hwrites.named hempty, Or.inr fun i e hleft => ?_⟩
  have hentry := hleft.entry
  rw [hseq] at hentry
  cases hentry

/-- **No workflow succeeds over a failure** that nothing went on from, in a run in which every
failure is heard. -/
theorem remediated_of_succeeded (wf : Workflow) (calls : List Call)
    (h : Run.Along (step wf) (fun s c => c.heard wf s = true) (.init wf) calls) :
    Run.Along (step wf) (fun s c => s.status ≠ succeeded → (step wf s c).status = succeeded →
      ∀ i e, ¬ LeftFailed wf (step wf s c) i e) (.init wf) calls := by
  refine Run.along_of_inv (P := Tracked wf) (fun s c hs hc => (step_tracked c hs hc).1)
    (fun s c hs hc hopen hsucceeded i e hleft => ?_) (init_tracked wf) h
  have hun := (step_tracked c hs hc).2 hopen i e hleft
  rw [hsucceeded] at hun
  exact absurd hun (by decide)

end Runs

/-! ### A failure of a pending task -/

/-- A workflow of two tasks. -/
def taskPair : Workflow where
  spec := ⟨[], [],
    [("task1", ⟨none, none, none, .str "core.noop", .dict [], none, []⟩),
      ("task2", ⟨none, none, none, .str "core.noop", .dict [], none, []⟩)]⟩
  graph := ⟨[("task1", ⟨none, none⟩), ("task2", ⟨none, none⟩)], []⟩
  inputs := []
  parentCtx := []
  evaluator := fun s _ => .ok (.str s)
  composed := ⟨2, rfl⟩

/-- Both tasks succeed. -/
def bothSucceed : List Call :=
  [.requestWorkflowStatus (some running), actionOf "task1" running, actionOf "task2" running,
    actionOf "task1" succeeded, actionOf "task2" succeeded]

theorem remediated_of_succeeded_bothSucceed :
    (bothSucceed.foldl (step taskPair) (.init taskPair)).status = succeeded ∧
      Run.Along (step taskPair) (fun s c => s.status ≠ succeeded →
        (step taskPair s c).status = succeeded →
          ∀ i e, ¬ LeftFailed taskPair (step taskPair s c) i e) (.init taskPair) bothSucceed :=
  ⟨by decide +kernel, remediated_of_succeeded taskPair bothSucceed (by decide +kernel)⟩

/-- The first task fails while it is pending and the workflow is paused, and the second one
succeeds after the workflow was resumed. -/
def failsPaused : List Call :=
  [.requestWorkflowStatus (some running), actionOf "task1" running, actionOf "task1" pending,
    actionOf "task1" failed, .requestWorkflowStatus (some running), actionOf "task2" running,
    actionOf "task2" succeeded]

/-- The failure is lost, and the workflow succeeds. -/
theorem not_heard_failsPaused :
    ¬ Run.Along (step taskPair) (fun s c => c.heard taskPair s = true) (.init taskPair)
        failsPaused ∧
      (failsPaused.foldl (step taskPair) (.init taskPair)).status = succeeded ∧
      ∃ e, LeftFailed taskPair (failsPaused.foldl (step taskPair) (.init taskPair)) 0 e := by
  refine ⟨by decide +kernel, by decide +kernel, ?_⟩
  have hentry : ∃ e, (failsPaused.foldl (step taskPair) (.init taskPair)).sequence[0]? = some e ∧
      e.id = "task1" ∧ e.route = 0 ∧ e.status = some failed ∧ e.next = [] :=
    ⟨_, rfl, by decide +kernel, by decide +kernel, by decide +kernel, by decide +kernel⟩
  obtain ⟨e, he, hid, hroute, hst, hnext⟩ := hentry
  refine ⟨e, he, ?_, ?_⟩
  · rw [hid, hroute]
    decide +kernel
  · unfold Workflow.unremediated TaskStateOf.abended Workflow.goesOn
    rw [hst, hid, hnext]
    decide

end Orquesta
end IntegratedCLI
