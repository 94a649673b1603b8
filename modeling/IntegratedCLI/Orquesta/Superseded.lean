import IntegratedCLI.Orquesta.Remediation

/-!
# Entries that were superseded

A task that runs again on its route gets an entry of its own, and only the last entry of a task
is written from then on.  So that nothing is lost an entry is to be completed by the time that it
is superseded, and its status is final.  This is what `update_task_state` takes care of before it
adds an entry, for every task but the engine commands, which get an entry each time.

`Settled` is what holds in every state, and `Seals` is what a call does: `seals_push` is the
step that adds an entry, `Write.seals` are all the others.
-/

namespace IntegratedCLI
namespace Orquesta

open Effect Status

/-- Another entry of the task on the route is later than the one at the position. -/
def Conductor.Superseded (s : Conductor) (i : ℕ) : Prop :=
  ∃ j c c', i < j ∧ s.started[i]? = some c ∧ s.started[j]? = some c' ∧ c'.id = c.id ∧
    c'.route = c.route

def TaskStateOf.completed (e : TaskState) : Bool := e.status.any (· ∈ completedStatuses)

/-- What holds in every state: the last entries are known, and the others are completed. -/
structure Settled (s : Conductor) : Prop where
  named : Named s
  latest : ∀ i c, s.started[i]? = some c → ∃ j, s.taskStateIdx c.id c.route = some j ∧ i ≤ j
  completed : ∀ i e, s.sequence[i]? = some e → isReserved e.id = false → s.Superseded i →
    e.completed = true

/-- The state stays settled, and a superseded entry keeps its status. -/
def Seals (s s' : Conductor) : Prop :=
  Settled s → Settled s' ∧ s.started <+: s'.started ∧
    ∀ i e, s.sequence[i]? = some e → isReserved e.id = false → s.Superseded i →
      ∃ e', s'.sequence[i]? = some e' ∧ e'.status = e.status

section Seals

variable {s s' : Conductor}

theorem getElem?_of_started {i : ℕ} {c : Core} (h : s.started[i]? = some c) :
    ∃ e, s.sequence[i]? = some e ∧ e.core = c := by
  unfold Conductor.started at h
  rw [List.getElem?_map] at h
  exact Option.map_eq_some_iff.mp h

theorem started_of_extends (hp : s.started <+: s'.started) {i : ℕ} {c : Core}
    (h : s.started[i]? = some c) : s'.started[i]? = some c := by
  obtain ⟨l, hl⟩ := hp
  rw [← hl, List.getElem?_append_left (List.getElem?_eq_some_iff.mp h).1]
  exact h

theorem Conductor.Superseded.mono {i : ℕ} (h : s.Superseded i) (hp : s.started <+: s'.started) :
    s'.Superseded i := by
  obtain ⟨j, c, c', hij, hi, hj, hof⟩ := h
  exact ⟨j, c, c', hij, started_of_extends hp hi, started_of_extends hp hj, hof⟩

/-- The last entry of a task is not superseded. -/
theorem Settled.not_superseded (h : Settled s) {t : String} {r idx : ℕ} (hidx : At t r idx s) :
    ¬ s.Superseded idx := by
  rintro ⟨j, c, c', hij, hi, hj, hid, hroute⟩
  obtain ⟨d, hd, rfl, rfl⟩ := h.named t r idx hidx
  rw [hi, Option.some_inj] at hd
  subst hd
  obtain ⟨k, hk, hjk⟩ := h.latest j c' hj
  rw [hid, hroute] at hk
  have hlast : idx = k := Option.some.inj (hidx.symm.trans hk)
  omega

instance : IsPreorder Conductor Seals where
  refl _ h := ⟨h, List.prefix_rfl, fun _ e he _ _ => ⟨e, he, rfl⟩⟩
  trans := by
    intro s₁ s₂ s₃ h h' h₁
    obtain ⟨h₂, hp, hkept⟩ := h h₁
    obtain ⟨h₃, hp', hkept'⟩ := h' h₂
    refine ⟨h₃, hp.trans hp', fun i e he hres hsup => ?_⟩
    obtain ⟨e₂, he₂, hst⟩ := hkept i e he hres hsup
    have hcore : e₂.core = e.core := by
      have hc := started_of_extends hp (Conductor.started_getElem? he)
      exact Option.some.inj ((Conductor.started_getElem? he₂).symm.trans hc)
    have hid : e₂.id = e.id := congrArg Core.id hcore
    have hres₂ : isReserved e₂.id = false := hid ▸ hres
    obtain ⟨e₃, he₃, hst'⟩ := hkept' i e₂ he₂ hres₂ (hsup.mono hp)
    exact ⟨e₃, he₃, hst'.trans hst⟩

/-- No entry is added. -/
theorem seals_of_started (hstarted : s'.started = s.started) (htasks : s'.tasks = s.tasks)
    (hkept : Settled s → ∀ i e, s.sequence[i]? = some e → isReserved e.id = false →
      s.Superseded i → ∃ e', s'.sequence[i]? = some e' ∧ e'.status = e.status) :
    Seals s s' := by
  intro h
  refine ⟨⟨named_of_eq hstarted htasks h.named, ?_, ?_⟩, hstarted ▸ List.prefix_rfl, hkept h⟩
  · intro i c hc
    unfold Conductor.taskStateIdx
    rw [htasks]
    rw [hstarted] at hc
    exact h.latest i c hc
  · intro i e' he' hres hsup
    unfold Conductor.Superseded at hsup
    rw [hstarted] at hsup
    obtain ⟨e, he, hcore⟩ := getElem?_of_started (hstarted ▸ Conductor.started_getElem? he')
    have hid : e.id = e'.id := congrArg Core.id hcore
    have hres' : isReserved e.id = false := hid ▸ hres
    obtain ⟨e'', he'', hst⟩ := hkept h i e he hres' hsup
    rw [he', Option.some_inj] at he''
    subst he''
    have hcompleted := h.completed i e he hres' hsup
    unfold TaskStateOf.completed at hcompleted ⊢
    rw [hst]
    exact hcompleted

theorem seals_of_sequence (hseq : s'.sequence = s.sequence) (htasks : s'.tasks = s.tasks) :
    Seals s s' := by
  have hstarted : s'.started = s.started := by
    unfold Conductor.started
    rw [hseq]
  exact seals_of_started hstarted htasks fun _ i e he _ _ => ⟨e, hseq ▸ he, rfl⟩

/-- An entry is written that is not superseded, or its status is not written. -/
theorem seals_updateEntry {f : TaskState → TaskState} {i : ℕ} (hcore : ∀ e, (f e).core = e.core)
    (hf : Settled s → ∀ e, s.sequence[i]? = some e → isReserved e.id = false → s.Superseded i →
      (f e).status = e.status) : Seals s (s.updateEntry i f) := by
  have hget : ∀ j, (s.updateEntry i f).sequence[j]? =
      if i = j then s.sequence[j]?.map f else s.sequence[j]? :=
    fun j => Positions.getElem?_modify _ _ _ _
  refine seals_of_started (thins_updateEntry hcore i s).started rfl fun h j e he hres hsup => ?_
  rw [hget, he]
  split
  · rename_i heq
    subst heq
    exact ⟨f e, rfl, hf h e he hres hsup⟩
  · exact ⟨e, rfl, rfl⟩

/-- **An entry is added**: for an engine command, or for a task whose last entry is completed. -/
theorem seals_push {e : TaskState} (hlast : isReserved e.id = false →
    ∀ e', s.getTaskStateEntry e.id e.route = some e' → e'.completed = true) :
    Seals s (pushEntry e s) := by
  intro h
  have hstarted : (pushEntry e s).started = s.started ++ [e.core] := List.map_append
  have hp : s.started <+: (pushEntry e s).started := ⟨[e.core], hstarted.symm⟩
  refine ⟨⟨h.named.pushEntry e, ?_, ?_⟩, hp, ?_⟩
  · intro i c hc
    rw [hstarted, List.getElem?_append] at hc
    rw [taskStateIdx_pushEntry]
    split at hc
    · rename_i hi
      rw [Conductor.length_started] at hi
      split
      · exact ⟨_, rfl, hi.le⟩
      · exact h.latest i c hc
    · obtain ⟨hi, rfl⟩ := List.getElem?_eq_some_iff.mp hc
      rw [List.length_singleton, Nat.lt_one_iff, Nat.sub_eq_zero_iff_le,
        Conductor.length_started] at hi
      exact ⟨s.sequence.length, if_pos (by simp [TaskStateOf.core]), hi⟩
  · intro i e' he' hres hsup
    obtain ⟨j, c, c', hij, hi, hj, hid, hroute⟩ := hsup
    have hlt : i < s.sequence.length := by
      have hj := (List.getElem?_eq_some_iff.mp hj).1
      rw [hstarted, List.length_append, Conductor.length_started, List.length_singleton] at hj
      omega
    have he : s.sequence[i]? = some e' := by
      rw [← he']
      exact (List.getElem?_append_left hlt).symm
    have hc : s.started[i]? = some e'.core := Conductor.started_getElem? he
    rw [started_of_extends hp hc, Option.some_inj] at hi
    subst hi
    obtain ⟨k, hk, hik⟩ := h.latest i e'.core hc
    rcases hik.eq_or_lt with rfl | hik
    · -- it was the last entry of its task, and the new one is of that task
      rw [hstarted, List.getElem?_append] at hj
      split at hj
      · exact h.completed i e' he hres ⟨j, _, c', hij, hc, hj, hid, hroute⟩
      · obtain ⟨_, rfl⟩ := List.getElem?_eq_some_iff.mp hj
        rw [List.getElem_singleton] at hid hroute
        replace hid : e.id = e'.id := hid
        replace hroute : e.route = e'.route := hroute
        refine hlast (hid ▸ hres) e' ?_
        unfold Conductor.getTaskStateEntry
        rw [hid, hroute]
        exact Option.bind_eq_some_iff.mpr ⟨i, hk, he⟩
    · obtain ⟨d, hd, hdid, hdroute⟩ := h.named _ _ _ hk
      exact h.completed i e' he hres ⟨k, _, d, hik, hc, hd, hdid, hdroute⟩
  · exact fun i e' he' _ _ => ⟨e', getElem?_pushEntry he', rfl⟩

variable {wf : Workflow}

theorem Write.seals (hw : Write wf (fun _ _ => False) (fun _ _ => True) s s') :
    Seals s s' := by
  cases hw with
  | rest hseq htasks _ _ => exact seals_of_sequence hseq htasks
  | note i f hf =>
    refine seals_updateEntry (fun e => ?_) fun _ e _ _ _ => ?_
    · rw [hf]
      rfl
    · rw [hf]
  | @tell i e₀ w st he hst =>
    refine seals_updateEntry ?_ fun h e he' hres hsup => ?_
    · exact fun _ => rfl
    · -- a completed entry is not told
      obtain rfl := Option.some.inj (he.symm.trans he')
      obtain ⟨st, hst', hmem⟩ := (Option.any_eq_true _ _).mp (h.completed i _ he hres hsup)
      have hnot := (nextStatus_workflow hst).1
      rw [statusOrUnset_eq hst'] at hnot
      exact absurd (of_decide_eq_true hmem) hnot
  | unstage t r =>
    rw [(removeStagedTask_restaged t r s).rest]
    exact seals_of_sequence rfl rfl
  | mark _ _ _ => exact seals_of_sequence rfl rfl
  | clear _ => exact seals_of_sequence rfl rfl
  | offer _ _ => exact seals_of_sequence rfl rfl
  | stage _ _ => exact seals_of_sequence rfl rfl
  | item _ hK _ _ _ _ => exact hK.elim
  | start hK _ _ => exact hK.elim
  | advance _ hi he _ =>
    refine seals_updateEntry ?_ fun h _ _ _ hsup => ?_
    · exact fun _ => rfl
    · exact absurd hsup (h.not_superseded hi)
  | count _ _ _ _ => exact seals_of_sequence rfl rfl

theorem Writes.seals (hw : Writes wf (fun _ _ => False) (fun _ _ => True) s s') :
    Seals s s' := hw.within fun _ _ h => h.seals

theorem moves_seals (wf : Workflow) {α : Type} {m : M α}
    (h : Moves (Writes wf (fun _ _ => False) fun _ _ => True) m) : Moves Seals m :=
  h.mono fun _ _ h => h.seals

end Seals

/-! ## Updates -/

section Updates

variable {wf : Workflow}

theorem Alloc.seals {s s' : Conductor} (h : Alloc s s') : Seals s s' := by
  obtain ⟨l, p, q, d, _, rfl⟩ := h
  exact seals_of_sequence rfl rfl

/-- An entry is started for a task that has none, for one whose last entry is completed, and for
an engine command. -/
theorem openEntry_seals (t : String) (r : ℕ) (event : Event) (s : Conductor) :
    Outcome (openEntry wf t r event) (fun idx s' => Seals s s' ∧ At t r idx s')
      (fun _ => Seals s) s := by
  refine (openEntry_outcome wf t r event s).mono ?_ fun _ _ h => h.seals
  rintro idx s' ⟨hidx, ⟨rfl, _⟩ | ⟨x, _, hstart, hdone⟩⟩
  · exact ⟨refl_of Seals s', hidx⟩
  · refine ⟨?_, hidx⟩
    obtain ⟨s₁, e, halloc, rfl, rfl, rfl, _⟩ := hstart
    refine trans_of Seals halloc.seals (seals_push fun hres e' he' => ?_)
    obtain ⟨l, p, q, d, _, rfl⟩ := halloc
    exact (hdone hres e' he').1

theorem recordEvent_seals (t : String) (r : ℕ) (event : Event) :
    Moves Seals (recordEvent t r event) := by
  refine (recordEvent_moves t r event).mono fun s s' h => ?_
  rw [h.rest]
  exact seals_of_sequence rfl rfl

/-- The event is for the last entry of its task. -/
theorem beginUpdate_seals (t : String) (r : ℕ) (event : Event) (s : Conductor) :
    Outcome (beginUpdate wf t r event) (fun p s' => Seals s s' ∧ At t r p.idx s')
      (fun _ => Seals s) s := by
  have hread : ∀ (idx : ℕ) (s : Conductor),
      Outcome (statusAt idx) (fun _ s' => s' = s) (fun _ _ => False) s := fun _ _ => rfl
  unfold beginUpdate
  split
  · exact refl_of Seals s
  · simp only [outcome_bind, outcome_get]
    refine (moves_lift (R := Keeps id) _).step (fun spec s' hs' => ?_) fun _ s' hs' => ?_
    · obtain rfl : s' = s := hs'
      split
      · exact refl_of Seals s'
      · rw [outcome_bind]
        refine (openEntry_seals t r event s').mono ?_ fun _ _ h => h
        rintro idx s₀ ⟨h₀, hidx⟩
        rw [outcome_bind]
        refine (((recordEvent_seals t r event).outcome s₀).and
          ((recordEvent_thins t r event).outcome s₀)).mono ?_ fun _ _ h => trans_of Seals h₀ h.1
        rintro _ s₁ ⟨h₁, hthins⟩
        have hidx₁ : At t r idx s₁ := hthins.at hidx
        rw [outcome_bind]
        refine (hread idx s₁).mono ?_ fun _ _ h => h.elim
        rintro old _ rfl
        rw [outcome_bind]
        refine (processEvent_outcome idx event _).mono ?_ ?_
        · rintro _ s₂ ⟨e, he, ⟨_, rfl⟩ | ⟨st, hst, rfl⟩⟩
          · exact ⟨trans_of Seals h₀ h₁, hidx₁⟩
          · have hwrite : Write wf (fun _ _ => False) (fun _ _ => True) _ _ :=
              .advance (t := t) (r := r) trivial hidx₁ he hst
            exact ⟨trans_of Seals (trans_of Seals h₀ h₁) hwrite.seals, hidx₁⟩
        · rintro _ s₂ ⟨rfl, _⟩
          exact trans_of Seals h₀ h₁
    · obtain rfl : s' = s := hs'
      exact refl_of Seals s'

/-- What follows from a new status. -/
theorem finishUpdate_seals {command : String × ℕ → M Unit}
    (hcommand : ∀ c, Moves Seals (command c)) (spec : TaskSpec) (t : String) (r idx : ℕ)
    (old new : Status) (ctx : EvalContext) :
    Moves Seals (finishUpdate wf spec t r idx old new ctx command) := by
  have htail : ∀ commands : List (String × ℕ), Moves Seals (do
      notifyWorkflow wf t r idx
      forM commands command
      markTerminal idx) := by
    intro commands
    refine moves_bind (moves_seals wf (notifyWorkflow_writes t r idx)) fun _ => ?_
    refine moves_bind (moves_forM fun c _ => hcommand c) fun _ => ?_
    exact moves_seals wf (markTerminal_writes idx)
  unfold finishUpdate
  dsimp only
  split
  · exact moves_bind (moves_seals wf (stageTransitions_writes spec t r idx ctx)) htail
  · exact htail []

/-- **An update** seals. -/
theorem updateTaskStateTo_seals (n : ℕ) : ∀ (t : String) (r : ℕ) (event : Event),
    Moves Seals (updateTaskStateTo wf n t r event) := by
  induction n with
  | zero => exact fun _ _ _ => moves_throw _
  | succ n ih =>
    intro t r event
    have hfinish : ∀ (p : Progress) (ctx : EvalContext), Moves Seals
        (finishUpdate wf p.spec t r p.idx p.old p.new ctx fun c =>
          updateTaskStateTo wf n c.1 c.2 (commandEvent c)) :=
      fun p ctx => finishUpdate_seals (fun c => ih c.1 c.2 _) _ _ _ _ _ _ ctx
    refine moves_iff.mpr fun s => ?_
    rw [updateTaskStateTo_succ, outcome_bind]
    refine (beginUpdate_seals t r event s).mono ?_ fun _ _ h => h
    rintro p s₁ ⟨h₁, hidx⟩
    have hafter : ∀ {m : M Unit} {s₂ : Conductor}, Moves Seals m → Seals s s₂ →
        Outcome m (fun _ => Seals s) (fun _ => Seals s) s₂ :=
      fun hm h₂ => hm.step (fun _ _ h => trans_of Seals h₂ h) fun _ _ h => trans_of Seals h₂ h
    have hrest : Moves Seals (do
        if p.new ∈ completedStatuses then
          let ctx ← completeTask p.spec t r p.idx p.new event
          if ← needsRetry wf p.idx ctx then updateTaskStateTo wf n t r (.operation .taskRetry)
          else finishUpdate wf p.spec t r p.idx p.old p.new ctx fun c =>
            updateTaskStateTo wf n c.1 c.2 (commandEvent c)
        else finishUpdate wf p.spec t r p.idx p.old p.new ⟨[], none, none, none⟩ fun c =>
          updateTaskStateTo wf n c.1 c.2 (commandEvent c) : M Unit) := by
      split
      · refine moves_bind (moves_seals wf (completeTask_writes p.spec t r p.idx p.new event)) ?_
        refine fun ctx => moves_bind (moves_seals wf (needsRetry_writes p.idx ctx)) ?_
        intro due
        split
        · exact ih t r _
        · exact hfinish p ctx
      · exact hfinish p _
    unfold continueUpdate
    dsimp only
    split
    · rw [outcome_bind]
      have hrestage : Outcome (restage t r p.idx)
          (fun _ => Writes wf (fun _ _ => False) (fun _ _ => True) s₁)
          (fun _ => Writes wf (fun _ _ => False) (fun _ _ => True) s₁) s₁ :=
        restage_writes trivial hidx
      exact hrestage.mono (fun _ s₂ h₂ => hafter hrest (trans_of Seals h₁ h₂.seals))
        fun _ _ h => trans_of Seals h₁ h.seals
    · exact hafter hrest h₁

end Updates

/-! ## Runs -/

section Runs

variable {wf : Workflow}

theorem step_seals (s : Conductor) (c : Call) : Seals s (step wf s c) := by
  cases c with
  | requestWorkflowStatus st =>
    have h : Moves Seals (requestWorkflowStatus st) :=
      moves_seals wf (requestWorkflowStatus_writes st)
    exact outcome_after.mp (h.outcome s)
  | updateTaskState t r event => exact outcome_after.mp ((updateTaskStateTo_seals _ t r event).outcome s)
  | getNextTasks => exact outcome_after.mp ((moves_seals wf getNextTasks_writes).outcome s)

theorem run_seals (s : Conductor) (calls : List Call) : Seals s (calls.foldl (step wf) s) := by
  induction calls generalizing s with
  | nil => exact refl_of Seals s
  | cons c calls ih => exact trans_of Seals (step_seals s c) (ih _)

theorem init_settled (wf : Workflow) : Settled (.init wf) := by
  have hempty : Settled .empty := by
    refine ⟨?_, ?_, ?_⟩
    · rintro t r i ⟨⟩
    · rintro i c ⟨⟩
    · rintro i e ⟨⟩
  exact ((init_writes wf).seals hempty).1

/-- **A superseded entry is final.**  It is completed when the task runs again on its route, and
its status does not change any more. -/
theorem superseded_final (wf : Workflow) (calls calls' : List Call) {i : ℕ} {e : TaskState}
    (he : (calls.foldl (step wf) (.init wf)).sequence[i]? = some e) (hres : isReserved e.id = false)
    (hsup : (calls.foldl (step wf) (.init wf)).Superseded i) :
    e.completed = true ∧ ∃ e', ((calls ++ calls').foldl (step wf) (.init wf)).sequence[i]? = some e' ∧
      e'.core = e.core ∧ e'.status = e.status := by
  obtain ⟨hsettled, _⟩ := run_seals (.init wf) calls (init_settled wf)
  refine ⟨hsettled.completed i e he hres hsup, ?_⟩
  rw [List.foldl_append]
  obtain ⟨_, hp, hkept⟩ := run_seals _ calls' hsettled
  obtain ⟨e', he', hst⟩ := hkept i e he hres hsup
  refine ⟨e', he', ?_, hst⟩
  have hc := started_of_extends hp (Conductor.started_getElem? he)
  exact Option.some.inj ((Conductor.started_getElem? he').symm.trans hc)

end Runs

/-! ### A task that leads to itself -/

/-- A workflow of one task, which runs again when it is completed. -/
def taskLoop : Workflow where
  spec := ⟨[], [],
    [("task1", ⟨none, none, none, .str "core.noop", .dict [], none,
        [⟨none, [], ["task2"]⟩]⟩),
      ("task2", ⟨none, none, none, .str "core.noop", .dict [], none, [⟨none, [], ["task2"]⟩]⟩)]⟩
  graph := ⟨[("task1", ⟨none, none⟩), ("task2", ⟨none, none⟩)],
    [⟨"task1", "task2", 0, [], 0⟩, ⟨"task2", "task2", 0, [], 0⟩]⟩
  inputs := []
  parentCtx := []
  evaluator := fun s _ => .ok (.str s)
  composed := ⟨4, rfl⟩

/-- The first task succeeds, the second one fails, and starts again. -/
def startsAgain : List Call :=
  [.requestWorkflowStatus (some running), actionOf "task1" running, actionOf "task1" succeeded,
    actionOf "task2" running, actionOf "task2" failed, actionOf "task2" running]

theorem superseded_final_startsAgain :
    ∃ e, (startsAgain.foldl (step taskLoop) (.init taskLoop)).sequence[1]? = some e ∧
      e.status = some failed ∧ e.completed = true ∧
      ∃ e', ((startsAgain ++ [actionOf "task2" succeeded]).foldl (step taskLoop)
        (.init taskLoop)).sequence[1]? = some e' ∧ e'.core = e.core ∧ e'.status = e.status := by
  have hentry : ∃ e, (startsAgain.foldl (step taskLoop) (.init taskLoop)).sequence[1]? = some e ∧
      isReserved e.id = false ∧ e.status = some failed :=
    ⟨_, rfl, by decide +kernel, by decide +kernel⟩
  obtain ⟨e, he, hres, hst⟩ := hentry
  have hsup : (startsAgain.foldl (step taskLoop) (.init taskLoop)).Superseded 1 :=
    ⟨2, _, _, by decide, rfl, rfl, by decide +kernel, by decide +kernel⟩
  exact ⟨e, he, hst, superseded_final taskLoop startsAgain [actionOf "task2" succeeded] he hres hsup⟩

end Orquesta
end IntegratedCLI
