import Mathlib.Data.List.Dedup
import IntegratedCLI.Orquesta.Rerun
import IntegratedCLI.Orquesta.Updating

/-!
# A task is staged once

A staged task is told from the others by its task and route.  A transition stages a
task only if it is not staged, so the staged tasks stay distinct.  Two other parts of
the code stage a task without asking:

* a task that is retried is taken off staging first, and staged again.  It stays on
  staging if an item of it is running, and then it is staged twice;
* a task without items that is run again is staged whether it is staged or not.

`keepsOnce` is the condition that neither happens.  Under it no task is staged twice
in any state of a run, and no task is given out twice by one `get_next_tasks`
(`staged_once`).
-/

namespace IntegratedCLI
namespace Orquesta

open Effect Status

def NextTask.key (task : NextTask) : TaskKey := ⟨task.id, task.route⟩

namespace Conductor

/-- The tasks that are staged. -/
def stagedKeys (s : Conductor) : List TaskKey := s.staged.map fun x => ⟨x.id, x.route⟩

theorem stagedKeys_eq (s : Conductor) :
    s.stagedKeys = s.waiting.map fun c => ⟨c.id, c.route⟩ := by
  unfold stagedKeys waiting
  rw [List.map_map]
  rfl

variable {s : Conductor} {t : String} {r : ℕ}

theorem stagedIdx_none (h : s.stagedIdx t r = none) : (⟨t, r⟩ : TaskKey) ∉ s.stagedKeys := by
  unfold stagedIdx at h
  rw [List.findIdx?_eq_none_iff] at h
  intro hmem
  obtain ⟨x, hx, hkey⟩ := List.mem_map.mp hmem
  cases hkey
  exact absurd (h x hx) (by simp)

/-- Whether an item of the staged task is running. -/
def anyItemsRunning (t : String) (r : ℕ) (s : Conductor) : Bool :=
  (s.getStagedTask t r).any StagedTaskOf.anyItemsRunning

/-- A task none of whose items is running is gone after it was taken off staging. -/
theorem not_mem_removeStagedTask (h : s.stagedKeys.Nodup) (hrun : s.anyItemsRunning t r = false) :
    (⟨t, r⟩ : TaskKey) ∉ (s.removeStagedTask t r).stagedKeys := by
  unfold removeStagedTask
  split
  · rename_i hnone
    exact stagedIdx_none hnone
  · rename_i i hi
    unfold anyItemsRunning at hrun
    rw [getStagedTask_eq hi] at hrun
    rw [hrun, if_neg Bool.false_ne_true]
    obtain ⟨x, hx, rfl, rfl⟩ := stagedIdx_spec hi
    exact Positions.not_mem_map_eraseIdx h hx

theorem stagedKeys_addStagedTask (t : String) (r : ℕ) (ctxs prev : Ref) (ready : Bool)
    (retry : Option Ref) (s : Conductor) :
    (s.addStagedTask t r ctxs prev ready retry).stagedKeys = s.stagedKeys ++ [⟨t, r⟩] := by
  unfold addStagedTask orRoot
  by_cases h : s.list ctxs = []
  · rw [if_pos h]
    exact List.map_append
  · rw [if_neg h]
    exact List.map_append

theorem nodup_addStagedTask (h : s.stagedKeys.Nodup) (hnew : (⟨t, r⟩ : TaskKey) ∉ s.stagedKeys)
    (ctxs prev : Ref) (ready : Bool) (retry : Option Ref) :
    (s.addStagedTask t r ctxs prev ready retry).stagedKeys.Nodup := by
  rw [stagedKeys_addStagedTask, List.nodup_append_comm, List.singleton_append, List.nodup_cons]
  exact ⟨hnew, h⟩

end Conductor

theorem Thins.stagedKeys {s s' : Conductor} (h : Thins s s') :
    s'.stagedKeys.Sublist s.stagedKeys := by
  rw [Conductor.stagedKeys_eq, Conductor.stagedKeys_eq]
  exact h.waiting.map _

/-! ## Updates -/

/-- No task is staged twice. -/
def StagedOnce (s : Conductor) : Prop := s.stagedKeys.Nodup

theorem StagedOnce.thins {s s' : Conductor} (h : StagedOnce s) (hs : Thins s s') : StagedOnce s' :=
  List.Nodup.sublist hs.stagedKeys h

/-- No item of the task is running. -/
def quiet (t : String) (r : ℕ) (s : Conductor) : Bool := !s.anyItemsRunning t r

theorem restage_once {s : Conductor} (h : StagedOnce s) {t : String} {r : ℕ}
    (hquiet : quiet t r s = true) (idx : ℕ) :
    Outcome (restage t r idx) (fun _ => StagedOnce) (fun _ => StagedOnce) s := by
  unfold restage
  rw [outcome_bind, outcome_get]
  split
  · exact h
  · rename_i e he
    split
    · exact h
    · rename_i x hx
      simp only [outcome_bind, outcome_modify]
      have hrun : s.anyItemsRunning t r = false := by
        unfold quiet at hquiet
        simpa using hquiet
      set s₁ : Conductor := { s with
        retries := s.retries.modify x fun retry => { retry with tally := retry.tally + 1 } }
      have h₁ : StagedOnce s₁ := h
      have hrun₁ : s₁.anyItemsRunning t r = false := hrun
      exact Conductor.nodup_addStagedTask (h₁.thins (thins_removeStagedTask t r s₁))
        (Conductor.not_mem_removeStagedTask h₁ hrun₁) _ _ _ _

/-- **The transitions of a task** stage a task only where it is not staged. -/
theorem stageTaken_once (wf : Workflow) (t : String) (r idx : ℕ) (out : Outgoing) (edge : Edge)
    (ctxs : List ℕ) {s : Conductor} (h : StagedOnce s) :
    Outcome (stageTaken wf t r idx out edge ctxs) (fun _ => StagedOnce) (fun _ => StagedOnce) s := by
  have hnext : ∀ route s₁, StagedOnce s₁ → Outcome (stageNext t edge idx route ctxs)
      (fun _ => StagedOnce) (fun _ => StagedOnce) s₁ := by
    intro route s₁ h₁
    refine (stageNext_outcome t edge idx route ctxs s₁).mono ?_ ?_
    · rintro _ s₂ (⟨i, x, _, _, _, rfl⟩ | ⟨hnone, rfl⟩)
      · refine StagedOnce.thins ?_ (thins_updateStaged ?_ i _)
        · exact h₁
        · exact fun _ => rfl
      · refine Conductor.nodup_addStagedTask ?_ ?_ _ _ _ _
        · exact h₁
        · exact Conductor.stagedIdx_none hnone
    · rintro _ s₂ rfl
      exact h₁
  unfold stageTaken
  rw [outcome_bind]
  refine (evaluateRoute_outcome wf edge r s).mono (fun route s₁ h₁ => ?_) ?_
  · have hs₁ : StagedOnce s₁ := by
      obtain ⟨_, rfl, _⟩ | ⟨ids, _, rfl⟩ := h₁
      · exact h
      · exact h
    rw [outcome_bind]
    refine (hnext route s₁ hs₁).mono (fun i s₂ hs₂ => ?_) fun _ _ h => h
    rw [outcome_bind, outcome_get]
    dsimp only
    rw [outcome_bind, outcome_modify]
    have hs₃ := hs₂.thins (thins_updateStaged
      (f := fun x => { x with
        ready := decide (s₂.getInboundCriteriaStatus wf edge.dst r = .satisfied) })
      (fun _ => rfl) i s₂)
    split
    · exact hs₃
    · split
      · exact hs₃
      · exact hs₃
  · rintro _ s₁ rfl
    exact h

theorem kept_stagedOnce (wf : Workflow) :
    Kept wf quiet (fun _ _ _ _ _ _ => true) StagedOnce where
  thins _ _ hs h := h.thins hs
  start x s h _ := by
    refine (addTaskState_staged wf _ _ _ _ s).mono ?_ ?_
    · intro _ s' hs'
      unfold StagedOnce Conductor.stagedKeys
      rw [hs']
      exact h
    · intro _ s' hs'
      unfold StagedOnce Conductor.stagedKeys
      rw [hs']
      exact h
  restage t r idx s h _ hquiet := restage_once h hquiet idx
  leave spec t r idx ctx s h _ _ := by
    refine (stageTransitions_rule (I := fun _ => StagedOnce) (fun _ _ _ hs h => h.thins hs)
      (fun edge _ out s h => ?_) h).mono (fun _ _ ⟨_, _, h⟩ => h) fun _ _ h => h
    exact stageTransition_rule (fun _ _ hs h => h.thins hs) (fun _ _ _ h => h)
      (fun _ _ out _ s ctxs _ h _ => stageTaken_once wf t r idx out edge ctxs h) out s h

/-! ## The tasks that are given out -/

theorem getTask_key (wf : Workflow) (t : String) (r : ℕ) (s : Conductor) :
    Outcome (getTask wf t r) (fun task _ => task.key = ⟨t, r⟩) (fun _ _ => True) s := by
  unfold getTask
  rw [outcome_bind]
  refine outcome_true.mono (fun vars s₁ _ => ?_) fun _ _ _ => trivial
  rw [outcome_bind, outcome_get]
  dsimp only
  rw [outcome_bind]
  refine outcome_true.mono (fun spec s₂ _ => ?_) fun _ _ _ => trivial
  rw [outcome_bind]
  refine outcome_true.mono (fun actions s₃ _ => ?_) fun _ _ _ => trivial
  rw [outcome_bind]
  refine outcome_true.mono (fun delay s₄ _ => ?_) fun _ _ _ => trivial
  split
  · rfl
  · rw [outcome_bind]
    exact outcome_true.mono (fun _ _ _ => rfl) fun _ _ _ => trivial

theorem evaluateTaskActions_key (task : NextTask) (s : Conductor) :
    Outcome (evaluateTaskActions task) (fun task' _ => task'.key = task.key)
      (fun _ _ => True) s := by
  unfold evaluateTaskActions
  split
  · rfl
  · rw [outcome_bind, outcome_get]
    split
    · trivial
    · dsimp only
      rw [outcome_bind, outcome_modify, outcome_bind]
      exact outcome_true.mono (fun _ _ _ => rfl) fun _ _ _ => trivial

theorem nextTask_key (wf : Workflow) (x : StagedTask) (s : Conductor) :
    Outcome (nextTask wf x) (fun task _ => ∀ y ∈ task, y.key = ⟨x.id, x.route⟩)
      (fun _ _ => True) s := by
  unfold nextTask
  rw [outcome_bind]
  refine (getTask_key wf x.id x.route s).mono (fun task s₁ hkey => ?_) fun _ _ _ => trivial
  rw [outcome_bind]
  refine (evaluateTaskActions_key task s₁).mono (fun task' s₂ hkey' => ?_) fun _ _ _ => trivial
  rw [outcome_bind, outcome_get]
  extract_lets last
  have hlast : last.key = ⟨x.id, x.route⟩ := by
    unfold last
    split
    · exact hkey'.trans hkey
    · exact hkey'.trans hkey
  split
  · intro y hy
    cases hy
    exact hlast
  · intro y hy
    cases hy

/-- The tasks that are collected are those of the staged entries, in order. -/
theorem collectNext_keys (wf : Workflow) (xs : List StagedTask) (acc : Bool × List NextTask)
    (s : Conductor) :
    Outcome (xs.foldlM (collectNext wf) acc)
      (fun out _ => ∃ ks, ks.Sublist (xs.map fun x => (⟨x.id, x.route⟩ : TaskKey)) ∧
        out.2.map NextTask.key = acc.2.map NextTask.key ++ ks) (fun _ _ => True) s := by
  induction xs generalizing acc s with
  | nil => exact ⟨[], List.Sublist.refl _, by simp⟩
  | cons x xs ih =>
    rw [List.foldlM_cons, outcome_bind]
    have hround : Outcome (collectNext wf acc x)
        (fun out _ => out.2 = acc.2 ∨ ∃ task : NextTask, task.key = ⟨x.id, x.route⟩ ∧
          out.2 = acc.2 ++ [task]) (fun _ _ => True) s := by
      unfold collectNext
      rw [outcome_tryCatch, outcome_bind]
      refine (nextTask_key wf x s).mono (fun task s₁ hkey => ?_) fun e s₁ _ => ?_
      · split
        · rename_i task
          exact Or.inr ⟨task, hkey task rfl, rfl⟩
        · exact Or.inl rfl
      · rw [outcome_bind, outcome_modify]
        exact Or.inl rfl
    refine hround.mono ?_ fun _ _ h => h
    rintro out s₁ hout
    refine (ih out s₁).mono ?_ fun _ _ h => h
    rintro out' s₂ ⟨ks, hks, hkeys⟩
    rcases hout with hout | ⟨task, hkey, hout⟩
    · exact ⟨ks, hks.cons _, by rw [hkeys, hout]⟩
    · refine ⟨⟨x.id, x.route⟩ :: ks, hks.cons_cons _, ?_⟩
      rw [hkeys, hout, List.map_append, List.append_assoc]
      simp [hkey]

/-- **Where no task is staged twice**, none is given out twice. -/
theorem getNextTasks_once (wf : Workflow) {s : Conductor} (h : StagedOnce s) :
    Outcome (getNextTasks wf) (fun tasks _ => (tasks.map NextTask.key).Nodup)
      (fun _ _ => True) s := by
  unfold getNextTasks
  rw [outcome_bind, outcome_get]
  extract_lets staged remediation
  split
  · exact List.nodup_nil
  · rw [outcome_bind]
    refine (collectNext_keys wf _ _ s).mono ?_ fun _ _ _ => trivial
    rintro ⟨failOnRendering, tasks⟩ s₁ ⟨ks, hks, hkeys⟩
    dsimp only
    split
    · rw [outcome_bind]
      exact outcome_true.mono (fun _ _ _ => List.nodup_nil) fun _ _ _ => trivial
    · have hall : (if remediation.isEmpty then staged else remediation).Sublist s.staged := by
        split
        · exact List.filter_sublist
        · show (if s.status = failed then _ else _ : List StagedTask).Sublist s.staged
          split
          · exact List.filter_sublist.trans List.filter_sublist
          · exact List.nil_sublist _
      show (List.map NextTask.key (List.insertionSort _ tasks)).Nodup
      rw [((List.perm_insertionSort _ tasks).map NextTask.key).nodup_iff]
      replace hkeys : tasks.map NextTask.key = ks := by simpa using hkeys
      rw [hkeys]
      exact List.Nodup.sublist (hks.trans (hall.map _)) h

/-! ## Running again -/

theorem rerunRequests_keys (requests : List RerunRequest) :
    ((rerunRequests requests).map Prod.fst).Nodup := by
  unfold rerunRequests
  generalize hd : ([] : RerunRequests) = d
  have hnodup : (d.map Prod.fst).Nodup := by
    rw [← hd]
    exact List.nodup_nil
  clear hd
  induction requests generalizing d with
  | nil => exact hnodup
  | cons q requests ih => exact ih _ (Dict.nodup_put hnodup)

/-- No task is a candidate twice. -/
theorem rerunnableCandidates_nodup (requests : List RerunRequest) (s : Conductor) :
    (s.rerunnableCandidates (rerunRequests requests)).Nodup := by
  unfold Conductor.rerunnableCandidates
  rw [(List.perm_insertionSort _ _).nodup_iff]
  split
  · exact List.nodup_dedup _
  · exact (rerunRequests_keys requests).filter _

theorem thins_errors (errors : List LogEntry) (s : Conductor) :
    Thins s { s with errors := errors } :=
  ⟨rfl, rfl, rfl, rfl, rfl, rfl, List.Sublist.refl _⟩

theorem popTerm_thins (i : ℕ) (s : Conductor) : Thins s (s.popTerm i) := by
  refine thins_updateEntry ?_ i s
  exact fun _ => rfl

theorem foldl_popTerm_thins (is : List ℕ) (s : Conductor) :
    Thins s (is.foldl (fun s i => s.popTerm i) s) := by
  induction is generalizing s with
  | nil => exact refl_of Thins s
  | cons i is ih => exact trans_of Thins (popTerm_thins i s) (ih _)

theorem reopenStaged_thins (t : String) (r : ℕ) (s : Conductor) : Thins s (reopenStaged t r s) := by
  unfold reopenStaged
  split
  · exact refl_of Thins s
  · refine thins_updateStaged ?_ _ s
    exact fun _ => rfl

theorem resetStagedItems_thins (t : String) (r : ℕ) (resetItems : Bool) :
    Moves Thins (resetStagedItems t r resetItems) := by
  unfold resetStagedItems
  refine moves_bind moves_get fun s => ?_
  split
  · exact moves_throw _
  · exact moves_updateStaged fun _ => rfl

/-- What is staged when a task is run again: the task, if it has no items. -/
theorem startAgain_keys (wf : Workflow) (t : String) (r : ℕ) (ctxs : List ℕ) (prev : Prev)
    (s : Conductor) :
    Outcome (startAgain wf t r ctxs prev) (fun _ s' => s'.stagedKeys = s.stagedKeys ++ [⟨t, r⟩])
      (fun _ s' => s'.stagedKeys = s.stagedKeys) s := by
  unfold startAgain
  rw [outcome_bind, outcome_get]
  dsimp only
  rw [outcome_bind, outcome_set, outcome_bind]
  refine (addTaskState_staged wf t r _ _ _).mono (fun _ s₁ hs₁ => ?_) fun _ s₁ hs₁ => ?_
  · rw [outcome_modify, Conductor.stagedKeys_addStagedTask]
    unfold Conductor.stagedKeys
    rw [hs₁]
    rfl
  · unfold Conductor.stagedKeys
    rw [hs₁]
    rfl

/-- Whether the task can be staged for a rerun without being staged twice: it has items
and is not staged anew, or it is not staged. -/
def canStage (wf : Workflow) (s : Conductor) (k : TaskKey) : Bool :=
  (match wf.spec.getTask k.id with
    | .ok spec => spec.hasItems
    | .error _ => true) || k ∉ s.stagedKeys

/-- **Running a task again** stages no other task, and stages it once. -/
theorem requestTaskRerun_once (wf : Workflow) (k : TaskKey) (resetItems : Bool) {s : Conductor}
    (h : StagedOnce s) (hcan : canStage wf s k = true) :
    Outcome (requestTaskRerun wf k.id k.route resetItems)
      (fun _ s' => StagedOnce s' ∧ ∀ k' ∈ s'.stagedKeys, k' ∈ s.stagedKeys ∨ k' = k)
      (fun _ => StagedOnce) s := by
  unfold requestTaskRerun
  rw [outcome_bind, outcome_get]
  split
  · exact h
  · rename_i idx hidx
    split
    · exact h
    · rename_i e he
      rw [outcome_bind, outcome_lift]
      refine ⟨fun spec hspec => ?_, fun _ _ => h⟩
      rw [outcome_bind, outcome_modify, outcome_bind, outcome_modify, outcome_bind, outcome_modify]
      have hthins : Thins s { reopenStaged k.id k.route (s.popTerm idx) with
          errors := (reopenStaged k.id k.route (s.popTerm idx)).errors.filter
            fun entry => entry.taskId ≠ some k.id } :=
        trans_of Thins (popTerm_thins idx s)
          (trans_of Thins (reopenStaged_thins k.id k.route _)
            (thins_errors _ _))
      generalize ({ reopenStaged k.id k.route (s.popTerm idx) with
          errors := (reopenStaged k.id k.route (s.popTerm idx)).errors.filter
            fun entry => entry.taskId ≠ some k.id } : Conductor) = s₃ at hthins ⊢
      have hs₃ : StagedOnce s₃ := h.thins hthins
      have hlast : ∀ s₄ : Conductor, StagedOnce s₄ →
          (∀ k' ∈ s₄.stagedKeys, k' ∈ s.stagedKeys ∨ k' = k) →
          StagedOnce ((s₄.getTaskSequence k.id k.route).foldl (fun s i => s.popTerm i) s₄) ∧
            ∀ k' ∈ ((s₄.getTaskSequence k.id k.route).foldl
              (fun s i => s.popTerm i) s₄).stagedKeys, k' ∈ s.stagedKeys ∨ k' = k := by
        intro s₄ hs₄ hkeys
        have hpop := foldl_popTerm_thins (s₄.getTaskSequence k.id k.route) s₄
        exact ⟨hs₄.thins hpop, fun k' hk' => hkeys k' (hpop.stagedKeys.subset hk')⟩
      split
      · rw [outcome_bind]
        refine (resetStagedItems_thins k.id k.route resetItems).step (fun _ s₄ h₄ => ?_)
          fun _ s₄ h₄ => hs₃.thins h₄
        refine hlast s₄ (hs₃.thins h₄) fun k' hk' => Or.inl ?_
        exact hthins.stagedKeys.subset (h₄.stagedKeys.subset hk')
      · rename_i hitems
        have hnew : k ∉ s₃.stagedKeys := by
          unfold canStage at hcan
          rw [hspec] at hcan
          have hk : k ∉ s.stagedKeys := by simpa [hitems] using hcan
          exact fun hk' => hk (hthins.stagedKeys.subset hk')
        rw [outcome_bind]
        refine (startAgain_keys wf k.id k.route _ _ s₃).mono (fun _ s₄ h₄ => ?_) fun _ s₄ h₄ => ?_
        · refine hlast s₄ ?_ fun k' hk' => ?_
          · unfold StagedOnce
            rw [h₄, List.nodup_append_comm, List.singleton_append, List.nodup_cons]
            exact ⟨hnew, hs₃⟩
          · rw [h₄] at hk'
            rcases List.mem_append.mp hk' with hk' | hk'
            · exact Or.inl (hthins.stagedKeys.subset hk')
            · exact Or.inr (List.mem_singleton.mp hk')
        · unfold StagedOnce
          rw [h₄]
          exact hs₃

/-- A task that can be staged stays so when another one is run again. -/
theorem canStage_of_subset {wf : Workflow} {s s' : Conductor} {k k' : TaskKey}
    (h : canStage wf s k = true) (hne : k ≠ k')
    (hkeys : ∀ k₁ ∈ s'.stagedKeys, k₁ ∈ s.stagedKeys ∨ k₁ = k') : canStage wf s' k = true := by
  unfold canStage at h ⊢
  rw [Bool.or_eq_true] at h ⊢
  rcases h with h | h
  · exact Or.inl h
  · refine Or.inr (decide_eq_true fun hk => ?_)
    rcases hkeys k hk with hk | hk
    · exact of_decide_eq_true h hk
    · exact hne hk

theorem forM_rerun_once (wf : Workflow) (resetItems : TaskKey → Bool) (ks : List TaskKey)
    (hks : ks.Nodup) (s : Conductor) (h : StagedOnce s)
    (hcan : ∀ k ∈ ks, canStage wf s k = true) :
    Outcome (forM ks fun k => requestTaskRerun wf k.id k.route (resetItems k))
      (fun _ => StagedOnce) (fun _ => StagedOnce) s := by
  induction ks generalizing s with
  | nil => exact h
  | cons k ks ih =>
    rw [List.nodup_cons] at hks
    rw [List.forM_cons, outcome_bind]
    refine (requestTaskRerun_once wf k (resetItems k) h (hcan k (by simp))).mono ?_ fun _ _ h => h
    rintro _ s₁ ⟨h₁, hkeys⟩
    refine ih hks.2 s₁ h₁ fun k' hk' => ?_
    refine canStage_of_subset (hcan k' (by simp [hk'])) ?_ hkeys
    rintro rfl
    exact hks.1 hk'

/-- The tasks that a request runs again. -/
def rerunTasks (requests : List RerunRequest) (s : Conductor) : List TaskKey :=
  let tasks := rerunRequests requests
  if s.status ∈ completedStatuses ∧ (tasks.map Prod.fst).all (· ∈ s.tasks.map Prod.fst) then
    s.rerunnableCandidates tasks
  else []

theorem requestWorkflowRerun_once (wf : Workflow) (requests : List RerunRequest) {s : Conductor}
    (h : StagedOnce s) (hcan : ∀ k ∈ rerunTasks requests s, canStage wf s k = true) :
    Outcome (requestWorkflowRerun wf requests) (fun _ => StagedOnce) (fun _ => StagedOnce) s := by
  unfold requestWorkflowRerun
  rw [outcome_bind, outcome_get]
  split
  · exact h
  · rename_i hst
    dsimp only
    split
    · exact h
    · rename_i hinvalid
      have htasks : rerunTasks requests s = s.rerunnableCandidates (rerunRequests requests) := by
        unfold rerunTasks
        refine if_pos ⟨not_not.mp hst, ?_⟩
        rw [not_not, List.filter_eq_nil_iff] at hinvalid
        rw [List.all_eq_true]
        intro k hk
        have := hinvalid k hk
        simpa using this
      rw [htasks] at hcan
      rw [outcome_bind]
      refine (forM_rerun_once wf _ _ (rerunnableCandidates_nodup requests s) s h hcan).mono
        (fun _ s₁ h₁ => ?_) fun _ _ h => h
      rw [outcome_bind, outcome_modify, outcome_modify]
      have h₂ : StagedOnce (s₁.continuableCandidates.foldl (fun s i => s.popTerm i) s₁) :=
        h₁.thins (foldl_popTerm_thins _ s₁)
      exact h₂

/-! ## A new workflow -/

theorem loadDict_thins (vars : List (String × Json)) : Moves Thins (loadDict vars) :=
  (loadDict_moves vars).mono fun _ _ => OnlyDicts.thins

theorem mergeFields_thins (d : Ref) (vars : List (String × Json)) :
    Moves Thins (mergeFields d vars) := by
  unfold mergeFields
  refine moves_bind (loadDict_thins vars) fun d' => moves_modify fun s => ?_
  exact OnlyDicts.thins ⟨_, rfl⟩

/-- The inputs and the variables of a new workflow are rendered before it has a context
or a staged task; then the tasks that nothing leads to are staged. -/
theorem makeWorkflowState_rule {wf : Workflow} {I J : Conductor → Prop} {s : Conductor}
    (hthins : ∀ s s', Thins s s' → I s → I s') (hIJ : ∀ s, I s → J s)
    (hroots : ∀ s d, I s → Outcome (stageRoots wf) (fun _ => J) (fun _ => J)
      { s with contexts := s.contexts ++ [d], routes := s.routes ++ [[]] }) (hs : I s) :
    Outcome (makeWorkflowState wf) (fun _ => J) (fun _ => J) s := by
  have hmoves : ∀ {α : Type} {m : M α} {s : Conductor}, Moves Thins m → I s →
      Outcome m (fun _ => I) (fun _ => I) s := fun hm hs =>
    hm.step (fun _ s' h => hthins _ s' h hs) fun _ s' h => hthins _ s' h hs
  have hend : ∀ (d : Ref) (s : Conductor), I s → Outcome (do
      let s ← get
      if s.status ∈ abendedStatuses then return
      else
        modify fun s => { s with contexts := s.contexts ++ [d], routes := s.routes ++ [[]] }
        stageRoots wf : M Unit) (fun _ => J) (fun _ => J) s := by
    intro d s hs
    rw [outcome_bind, outcome_get]
    split
    · exact hIJ s hs
    · rw [outcome_bind, outcome_modify]
      exact hroots s d hs
  unfold makeWorkflowState
  rw [outcome_bind]
  refine (hmoves (loadDict_thins _) hs).mono (fun d s₁ h₁ => ?_) fun _ s' h => hIJ s' h
  dsimp only
  rw [outcome_bind]
  refine (hmoves (mergeFields_thins d _) h₁).mono (fun _ s₂ h₂ => ?_) fun _ s' h => hIJ s' h
  rw [outcome_bind, outcome_get, outcome_bind]
  refine (hmoves (mergeFields_thins d _) h₂).mono (fun _ s₃ h₃ => ?_) fun _ s' h => hIJ s' h
  split
  · rw [outcome_bind, outcome_modify, outcome_bind]
    refine (hmoves (requestWorkflowStatus_thins _) (hthins s₃ _ ?_ h₃)).mono
      (fun _ s₄ h₄ => hend d s₄ h₄) fun _ s' h => hIJ s' h
    exact (logErrors_onlyStatus _ _ _ _ s₃).1.thins
  · exact hend d s₃ h₃

/-- The roots are staged one after the other. -/
theorem stageRoots_once (ts : List String) (hts : ts.Nodup) (s : Conductor) (h : StagedOnce s)
    (hnew : ∀ t ∈ ts, (⟨t, 0⟩ : TaskKey) ∉ s.stagedKeys) :
    Outcome (forM ts fun t => do
      let s ← get
      let (l, s) := s.allocList [0]
      let (p, s) := s.allocPrev []
      set (s.addStagedTask t 0 l p true none) : M Unit)
      (fun _ => StagedOnce) (fun _ => StagedOnce) s := by
  induction ts generalizing s with
  | nil => exact h
  | cons t ts ih =>
    rw [List.nodup_cons] at hts
    rw [List.forM_cons, outcome_bind, outcome_bind, outcome_get]
    dsimp only
    rw [outcome_set]
    refine ih hts.2 _ (Conductor.nodup_addStagedTask ?_ ?_ _ _ _ _) ?_
    · exact h
    · exact hnew t (by simp)
    · intro t' ht'
      rw [Conductor.stagedKeys_addStagedTask, List.mem_append, not_or]
      refine ⟨?_, ?_⟩
      · exact hnew t' (by simp [ht'])
      rw [List.mem_singleton]
      rintro ⟨⟩
      exact hts.1 ht'

theorem init_once (wf : Workflow) : StagedOnce (.init wf) := by
  unfold Conductor.init
  rw [← outcome_after (P := StagedOnce)]
  refine makeWorkflowState_rule (I := fun s => s.stagedKeys = []) ?_ ?_ ?_ rfl
  · intro s s' hs h
    have hsub := hs.stagedKeys
    rw [h] at hsub
    exact List.sublist_nil.mp hsub
  · intro s h
    unfold StagedOnce
    rw [h]
    exact List.nodup_nil
  · intro s d (h : s.stagedKeys = [])
    refine stageRoots_once _ wf.roots_nodup _ ?_ fun t _ => ?_
    · show s.stagedKeys.Nodup
      rw [h]
      exact List.nodup_nil
    · show _ ∉ s.stagedKeys
      rw [h]
      exact List.not_mem_nil

/-! ## Runs -/

/-- Neither is a task retried while an item of it is running, nor is a task without items
run again while it is staged. -/
def keepsOnce (wf : Workflow) (s : Conductor) : ClientCall → Bool
  | .call (.updateTaskState t r event) =>
    admits wf quiet (fun _ _ _ _ _ _ => true) recursionLimit t r event s
  | .requestWorkflowRerun requests => (rerunTasks requests s).all (canStage wf s)
  | _ => true

theorem clientStep_once (wf : Workflow) (s : Conductor) (c : ClientCall) (h : StagedOnce s)
    (hc : keepsOnce wf s c = true) : StagedOnce (clientStep wf s c) := by
  cases c with
  | call c =>
    cases c with
    | requestWorkflowStatus st => exact h.thins (requestWorkflowStatus_thins st s)
    | updateTaskState t r event =>
      show StagedOnce (after (updateTaskState wf t r event) s)
      rw [← outcome_after (P := StagedOnce)]
      exact (kept_stagedOnce wf).update (fun _ _ _ _ _ _ _ => rfl) _ t r event s h hc
    | getNextTasks => exact h.thins (getNextTasks_thins wf s)
  | requestWorkflowRerun requests =>
    show StagedOnce (after (requestWorkflowRerun wf requests) s)
    rw [← outcome_after (P := StagedOnce)]
    exact requestWorkflowRerun_once wf requests h (List.all_eq_true.mp hc)

/-- Every task is staged at most once on a route, and given out at most once. -/
def GivenOnce (wf : Workflow) (s : Conductor) : Prop :=
  StagedOnce s ∧ ∀ tasks, result (getNextTasks wf) s = .ok tasks → (tasks.map NextTask.key).Nodup

theorem StagedOnce.given {s : Conductor} (h : StagedOnce s) (wf : Workflow) : GivenOnce wf s := by
  refine ⟨h, fun tasks htasks => ?_⟩
  have hout := (getNextTasks_once wf h).of_result_ok htasks
  unfold Outcome at hout
  split at hout
  · obtain ⟨rfl, hkeys⟩ := hout
    exact hkeys
  · exact hout.elim

/-- **Staging has no duplicates** in a run in which no task is staged again while it
stays on staging. -/
theorem staged_once (wf : Workflow) (calls : List ClientCall)
    (h : Run.Along (clientStep wf) (fun s c => keepsOnce wf s c = true) (.init wf) calls) :
    Run.Throughout (clientStep wf) (GivenOnce wf) (.init wf) calls :=
  (Run.throughout_of_along (fun s c hs hc => clientStep_once wf s c hs hc) (init_once wf) h).mono
    fun _ hs => hs.given wf

/-! ### A task that is run again twice -/

/-- A workflow of one task. -/
def oneTask : Workflow where
  spec := ⟨[], [], [("task1", ⟨none, none, none, .str "core.noop", .dict [], none, []⟩)]⟩
  graph := ⟨[("task1", ⟨none, none⟩)], []⟩
  inputs := []
  parentCtx := []
  evaluator := fun s _ => .ok (.str s)
  composed := ⟨2, rfl⟩

/-- The task fails, and the workflow is run again. -/
def rerunOnce : List ClientCall :=
  [.call (.requestWorkflowStatus (some running)),
    .call (.updateTaskState "task1" 0 (.action (some running) .null)),
    .call (.updateTaskState "task1" 0 (.action (some failed) .null)),
    .requestWorkflowRerun []]

theorem staged_once_rerunOnce :
    Run.Throughout (clientStep oneTask) (GivenOnce oneTask) (.init oneTask) rerunOnce :=
  staged_once oneTask rerunOnce (by decide +kernel)

/-- Before the task starts the workflow is canceled, and it is run again once more. -/
def rerunTwice : List ClientCall :=
  rerunOnce ++ [.call (.requestWorkflowStatus (some canceled)),
    .requestWorkflowRerun [⟨"task1", 0, false⟩]]

theorem not_staged_once_rerunTwice :
    ¬ Run.Throughout (clientStep oneTask) (GivenOnce oneTask) (.init oneTask) rerunTwice := by
  intro h
  have htwice : (rerunTwice.foldl (clientStep oneTask) (.init oneTask)).stagedKeys =
      [⟨"task1", 0⟩, ⟨"task1", 0⟩] := by decide +kernel
  have hnodup : StagedOnce (rerunTwice.foldl (clientStep oneTask) (.init oneTask)) := h.last.1
  unfold StagedOnce at hnodup
  rw [htwice] at hnodup
  exact absurd hnodup (by decide)

end Orquesta
end IntegratedCLI
