import IntegratedCLI.Orquesta.StagedOnce

/-!
# The lists of contexts

An entry and a staged task have a list of the contexts that are merged for the task.
`Listed` says that each of the lists has indices of contexts, the root context once, and
every call and a restore keep it.  A list is extended where it is when a second
transition leads to a staged task, and what it is extended by has its root context taken
away first.
-/

namespace IntegratedCLI
namespace Orquesta

open Effect Status

/-! ## Lists of indices -/

/-- The list has indices of contexts, and the root context once. -/
def CtxsOk (n : ℕ) (l : List ℕ) : Prop := (∀ i ∈ l, i < n) ∧ l.count 0 = 1

/-- The context list has the root context, so that it is not empty and is an object. -/
theorem CtxsOk.ne_nil {n : ℕ} {l : List ℕ} (h : CtxsOk n l) : l ≠ [] := by
  rintro rfl
  exact absurd h.2 (by simp)

theorem CtxsOk.zero_mem {n : ℕ} {l : List ℕ} (h : CtxsOk n l) : 0 ∈ l :=
  List.count_pos_iff.mp (by rw [h.2]; exact Nat.one_pos)

theorem CtxsOk.mono {n m : ℕ} {l : List ℕ} (h : CtxsOk n l) (hnm : n ≤ m) : CtxsOk m l :=
  ⟨fun i hi => (h.1 i hi).trans_le hnm, h.2⟩

/-- A list with a new context after it. -/
theorem CtxsOk.append_new {n : ℕ} {l : List ℕ} (h : CtxsOk n l) : CtxsOk (n + 1) (l ++ [n]) := by
  have hn : 0 < n := h.1 0 h.zero_mem
  refine ⟨fun i hi => ?_, ?_⟩
  · rcases List.mem_append.mp hi with hi | hi
    · exact (h.1 i hi).trans n.lt_succ_self
    · rw [List.mem_singleton.mp hi]
      exact n.lt_succ_self
  · rw [List.count_append, h.2, List.count_singleton]
    have : (n == 0) = false := beq_eq_false_iff_ne.mpr hn.ne'
    rw [this, if_neg Bool.false_ne_true]

/-- A list that is extended by another one without its root context. -/
theorem CtxsOk.extend {n : ℕ} {l m : List ℕ} (hl : CtxsOk n l) (hm : CtxsOk n m) :
    CtxsOk n (l ++ m.erase 0) := by
  refine ⟨fun i hi => ?_, ?_⟩
  · rcases List.mem_append.mp hi with hi | hi
    · exact hl.1 i hi
    · exact hm.1 i (List.mem_of_mem_erase hi)
  · rw [List.count_append, hl.2, List.count_erase_self, hm.2]

/-! ## Objects that are made and extended -/

/-- Lists and dictionaries are added, and the rest of the skeleton is as it was. -/
def Allocs (s s' : Conductor) : Prop :=
  ∃ l p, s'.lists = s.lists ++ l ∧ s'.prevs = s.prevs ++ p ∧ s'.contexts = s.contexts ∧
    s'.routes = s.routes ∧ s'.tasks = s.tasks ∧ s'.started = s.started ∧ s'.waiting = s.waiting

theorem Alloc.allocs {s s' : Conductor} (h : Alloc s s') : Allocs s s' := by
  obtain ⟨l, p, q, d, _, rfl⟩ := h
  exact ⟨l, p, rfl, rfl, rfl, rfl, rfl, rfl, rfl⟩

theorem list_append {s s' : Conductor} {ls : List (List ℕ)} (h : s'.lists = s.lists ++ ls) {l : Ref}
    (hl : s.list l ≠ []) : s'.list l = s.list l := by
  unfold Conductor.list at hl ⊢
  cases hget : s.lists[l]? with
  | none => rw [hget] at hl; exact absurd rfl hl
  | some x =>
    have hlt : l < s.lists.length := (List.getElem?_eq_some_iff.mp hget).1
    rw [h, List.getElem?_append_left hlt, hget]

theorem started_pushEntry (e : TaskState) (s : Conductor) :
    (pushEntry e s).started = s.started ++ [e.core] := List.map_append

/-- A task is staged with the list itself if the list is not empty. -/
theorem addStagedTask_eq {s : Conductor} {l : Ref} (hl : s.list l ≠ []) (t : String) (r : ℕ)
    (p : Ref) (ready : Bool) (retry : Option Ref) :
    s.addStagedTask t r l p ready retry =
      { s with staged := s.staged ++ [⟨t, r, l, p, ready, none, false, false, retry⟩] } := by
  unfold Conductor.addStagedTask Conductor.orRoot
  rw [if_neg hl]

theorem thins_retries (retries : List Retry) (s : Conductor) :
    Thins s { s with retries := retries } :=
  ⟨rfl, rfl, rfl, rfl, rfl, rfl, List.Sublist.refl _⟩

/-- Two objects that are extended where they are. -/
def extendObjects (l p : Ref) (more : List ℕ) (backref : TransitionId) (idx : ℕ)
    (s : Conductor) : Conductor :=
  { s with
    lists := s.lists.modify l (· ++ more)
    prevs := s.prevs.modify p fun d => Dict.put d backref idx }

theorem list_extendObjects {l p : Ref} {more : List ℕ} {backref : TransitionId} {idx : ℕ}
    {s : Conductor} {l' : Ref} (h : s.list l' ≠ []) :
    (extendObjects l p more backref idx s).list l' =
      if l = l' then s.list l' ++ more else s.list l' := by
  unfold extendObjects Conductor.list at *
  rw [Positions.getElem?_modify]
  cases hget : s.lists[l']? with
  | none =>
    rw [hget] at h
    exact absurd rfl h
  | some x =>
    split
    · rfl
    · rfl

/-! ## What is listed -/

/-- The entries and the staged tasks have lists of contexts, and the last entry of a task
is in the sequence. -/
structure Listed (s : Conductor) : Prop where
  last : ∀ t r idx, s.taskStateIdx t r = some idx → idx < s.started.length
  ctxs : ∀ c ∈ s.started ++ s.waiting, CtxsOk s.contexts.length (s.list c.ctxsIn)

namespace Listed

variable {s s' : Conductor}

theorem waiting (h : Listed s) {c : Core} (hc : c ∈ s.waiting) :
    CtxsOk s.contexts.length (s.list c.ctxsIn) := h.ctxs c (List.mem_append_right _ hc)

theorem entry (h : Listed s) {idx : ℕ} {e : TaskState} (he : s.sequence[idx]? = some e) :
    CtxsOk s.contexts.length (s.list e.ctxsIn) :=
  h.ctxs e.core (List.mem_append_left _ (List.mem_map_of_mem (List.mem_of_getElem? he)))

theorem thins (h : Listed s) (hs : Thins s s') : Listed s' := by
  constructor
  · intro t r idx hidx
    unfold Conductor.taskStateIdx at hidx
    rw [hs.started]
    rw [hs.tasks] at hidx
    exact h.last t r idx hidx
  · rw [hs.contexts, hs.started]
    unfold Conductor.list
    rw [hs.lists]
    intro c hc
    refine h.ctxs c ?_
    rcases List.mem_append.mp hc with hc | hc
    · exact List.mem_append_left _ hc
    · exact List.mem_append_right _ (hs.waiting.subset hc)

theorem allocs (h : Listed s) (hs : Allocs s s') : Listed s' := by
  obtain ⟨ls, _, hlists, _, hcontexts, _, htasks, hstarted, hwaiting⟩ := hs
  constructor
  · intro t r idx hidx
    unfold Conductor.taskStateIdx at hidx
    rw [htasks] at hidx
    rw [hstarted]
    exact h.last t r idx hidx
  · rw [hstarted, hwaiting, hcontexts]
    intro c hc
    rw [list_append hlists (h.ctxs c hc).ne_nil]
    exact h.ctxs c hc

/-- There may be more contexts. -/
theorem newContext (h : Listed s) (c : Ref) (d : Dicts) :
    Listed { s with contexts := s.contexts ++ [c], dicts := d } := by
  refine ⟨h.last, fun x hx => (h.ctxs x hx).mono ?_⟩
  rw [List.length_append]
  exact Nat.le_add_right _ _

/-- **A new entry** with a list of contexts. -/
theorem pushEntry (h : Listed s) {e : TaskState}
    (he : CtxsOk s.contexts.length (s.list e.ctxsIn)) : Listed (pushEntry e s) := by
  constructor
  · intro t r idx hidx
    rw [started_pushEntry, List.length_append, List.length_singleton]
    have hput : (Dict.put s.tasks ⟨e.id, e.route⟩ s.sequence.length).lookup ⟨t, r⟩ = some idx := hidx
    rw [Dict.lookup_put] at hput
    split at hput
    · rw [← Option.some.inj hput, Conductor.length_started]
      exact Nat.lt_succ_self _
    · exact (h.last t r idx hput).trans (Nat.lt_succ_self _)
  · rw [started_pushEntry]
    intro c hc
    simp only [List.mem_append, List.mem_singleton] at hc
    rcases hc with (hc | rfl) | hc
    · exact h.ctxs c (List.mem_append_left _ hc)
    · exact he
    · exact h.ctxs c (List.mem_append_right _ hc)

/-- **A new staged task** with a list of contexts. -/
theorem addStagedTask (h : Listed s) {l : Ref} (hl : CtxsOk s.contexts.length (s.list l))
    (t : String) (r : ℕ) (p : Ref) (ready : Bool) (retry : Option Ref) :
    Listed (s.addStagedTask t r l p ready retry) := by
  rw [addStagedTask_eq hl.ne_nil]
  refine ⟨h.last, fun c hc => ?_⟩
  have hwaiting : Conductor.waiting
      { s with staged := s.staged ++ [⟨t, r, l, p, ready, none, false, false, retry⟩] } =
      s.waiting ++ [⟨t, r, l, p⟩] := List.map_append
  rw [hwaiting] at hc
  change c ∈ s.started ++ _ at hc
  rw [← List.append_assoc] at hc
  rcases List.mem_append.mp hc with hc | hc
  · exact h.ctxs c hc
  · rw [List.mem_singleton.mp hc]
    exact hl

/-- **Extending a list** by the contexts of another task. -/
theorem extendObjects (h : Listed s) (l p : Ref) {ctxs : List ℕ}
    (hctxs : CtxsOk s.contexts.length ctxs) (backref : TransitionId) (idx : ℕ) :
    Listed (extendObjects l p (ctxs.erase 0) backref idx s) := by
  refine ⟨h.last, fun c hc => ?_⟩
  have hok := h.ctxs c hc
  rw [list_extendObjects hok.ne_nil]
  split
  · exact hok.extend hctxs
  · exact hok

end Listed

/-! ## The parts of a call -/

theorem addTaskState_listed {wf : Workflow} {t : String} {r : ℕ} {ctxs prev : Ref} {s : Conductor}
    (h : Listed s) (hctxs : CtxsOk s.contexts.length (s.list ctxs)) :
    Outcome (addTaskState wf t r ctxs prev)
      (fun _ s' => Listed s' ∧ CtxsOk s'.contexts.length (s'.list ctxs)) (fun _ => Listed) s := by
  refine (addTaskState_outcome wf t r ctxs prev s).mono ?_ fun _ s' h' => h.allocs h'.allocs
  rintro _ s' ⟨s₁, e, halloc, rfl, _, _, _, _, _, hctx, _, _⟩
  have hctxs₁ : CtxsOk s₁.contexts.length (s₁.list ctxs) := by
    obtain ⟨l, _, hlists, _, hcontexts, _⟩ := halloc.allocs
    rw [hcontexts, list_append hlists hctxs.ne_nil]
    exact hctxs
  refine ⟨(h.allocs halloc.allocs).pushEntry ?_, hctxs₁⟩
  rw [hctx hctxs.ne_nil]
  exact hctxs₁

theorem restage_listed {s : Conductor} (h : Listed s) (t : String) (r idx : ℕ) :
    Outcome (restage t r idx) (fun _ => Listed) (fun _ => Listed) s := by
  unfold restage
  rw [outcome_bind, outcome_get]
  split
  · exact h
  · rename_i e he
    split
    · exact h
    · rename_i x hx
      simp only [outcome_bind, outcome_modify]
      have hthins : Thins s (Conductor.removeStagedTask t r { s with
          retries := s.retries.modify x fun retry => { retry with tally := retry.tally + 1 } }) :=
        trans_of Thins (thins_retries _ s) (thins_removeStagedTask t r _)
      refine (h.thins hthins).addStagedTask ?_ t r e.prev true (some x)
      rw [hthins.contexts]
      unfold Conductor.list
      rw [hthins.lists]
      exact h.entry he

/-! ## The transitions of a task -/

/-- What the loop over the transitions keeps: the entries are those of the state `s₀` it
began in. -/
structure ListedFrom (s₀ s : Conductor) : Prop where
  listed : Listed s
  started : s.started = s₀.started

theorem ListedFrom.thins {s₀ s s' : Conductor} (h : ListedFrom s₀ s) (hs : Thins s s') :
    ListedFrom s₀ s' := ⟨h.listed.thins hs, hs.started.trans h.started⟩

/-- The contexts of the entry that is left, perhaps with a new one after them. -/
theorem ListedFrom.ctxsOk {s₀ s₁ s : Conductor} (h₁ : ListedFrom s₀ s₁) {idx : ℕ}
    (hidx : idx < s₀.started.length) {ctxs : List ℕ}
    (hctxs : s.contexts.length = s₁.contexts.length ∧ ctxs = incoming s₁ idx ∨
      s.contexts.length = s₁.contexts.length + 1 ∧
        ctxs = incoming s₁ idx ++ [s₁.contexts.length]) : CtxsOk s.contexts.length ctxs := by
  have hin : CtxsOk s₁.contexts.length (incoming s₁ idx) := by
    rw [← h₁.started, Conductor.length_started] at hidx
    have he := List.getElem?_eq_getElem hidx
    rw [incoming, he]
    exact h₁.listed.entry he
  rcases hctxs with ⟨hlen, rfl⟩ | ⟨hlen, rfl⟩
  · rw [hlen]
    exact hin
  · rw [hlen]
    exact hin.append_new

theorem stageNext_listed {s₀ s : Conductor} (h : ListedFrom s₀ s) (t : String) (edge : Edge)
    (idx route : ℕ) {ctxs : List ℕ} (hctxs : CtxsOk s.contexts.length ctxs) :
    Outcome (stageNext t edge idx route ctxs) (fun _ => ListedFrom s₀) (fun _ => ListedFrom s₀)
      s := by
  refine (stageNext_outcome t edge idx route ctxs s).mono ?_ ?_
  · rintro _ s' (⟨i, x, _, _, _, rfl⟩ | ⟨_, rfl⟩)
    · have hext : ListedFrom s₀ (extendObjects x.ctxsIn x.prev (ctxs.erase 0) ⟨t, edge.key⟩ idx s) :=
        ⟨h.listed.extendObjects _ _ hctxs _ _, h.started⟩
      refine hext.thins (thins_updateStaged ?_ i _)
      exact fun _ => rfl
    · set s₁ : Conductor := { s with
        lists := s.lists ++ [ctxs]
        prevs := s.prevs ++ [[(⟨t, edge.key⟩, idx)]] } with hs₁
      have hallocs : Allocs s s₁ := ⟨_, _, rfl, rfl, rfl, rfl, rfl, rfl, rfl⟩
      have hlist : s₁.list s.lists.length = ctxs := by
        unfold Conductor.list
        rw [hs₁]
        simp
      have hok : CtxsOk s₁.contexts.length (s₁.list s.lists.length) := hlist.symm ▸ hctxs
      refine ⟨(h.listed.allocs hallocs).addStagedTask hok edge.dst route _ false none, ?_⟩
      rw [addStagedTask_eq hok.ne_nil]
      exact h.started
  · rintro _ s' rfl
    exact h

theorem stageTaken_listed (wf : Workflow) (t : String) (r idx : ℕ) (out : Outgoing) (edge : Edge)
    {s₀ s : Conductor} (h : ListedFrom s₀ s) {ctxs : List ℕ}
    (hctxs : CtxsOk s.contexts.length ctxs) :
    Outcome (stageTaken wf t r idx out edge ctxs) (fun _ => ListedFrom s₀) (fun _ => ListedFrom s₀)
      s := by
  have hnext : ∀ route s₁, ListedFrom s₀ s₁ → s₁.contexts = s.contexts → Outcome (do
      let i ← stageNext t edge idx route ctxs
      let s ← get
      let ready := decide (s.getInboundCriteriaStatus wf edge.dst r = .satisfied)
      modify (Conductor.updateStaged i fun x => { x with ready := ready })
      if isReserved edge.dst then
        return { out with
          commands := out.commands ++ [(edge.dst, route)]
          manualFail := out.manualFail || edge.dst = "fail" }
      else if ready then return { out with readyNext := out.readyNext ++ [i] }
      else return out) (fun _ => ListedFrom s₀) (fun _ => ListedFrom s₀) s₁ := by
    intro route s₁ h₁ hcontexts
    rw [outcome_bind]
    refine (stageNext_listed h₁ t edge idx route (hcontexts ▸ hctxs)).mono (fun i s₂ h₂ => ?_)
      fun _ _ h => h
    rw [outcome_bind, outcome_get]
    dsimp only
    rw [outcome_bind, outcome_modify]
    have h₃ := h₂.thins (thins_updateStaged
      (f := fun x => { x with
        ready := decide (s₂.getInboundCriteriaStatus wf edge.dst r = .satisfied) })
      (fun _ => rfl) i s₂)
    split
    · exact h₃
    · split
      · exact h₃
      · exact h₃
  unfold stageTaken
  rw [outcome_bind]
  refine (evaluateRoute_outcome wf edge r s).mono ?_ ?_
  · rintro route s₁ (⟨_, rfl, _⟩ | ⟨ids, _, rfl⟩)
    · exact hnext route s₁ h rfl
    · exact hnext route _ ⟨⟨h.listed.last, h.listed.ctxs⟩, h.started⟩ rfl
  · rintro _ s₁ rfl
    exact h

theorem stageTransitions_listed {wf : Workflow} {spec : TaskSpec} {t : String} {r idx : ℕ}
    {ctx : EvalContext} {s : Conductor} (h : Listed s) (hidx : idx < s.started.length) :
    Outcome (stageTransitions wf spec t r idx ctx) (fun _ => Listed) (fun _ => Listed) s := by
  refine (stageTransitions_rule (I := fun _ => ListedFrom s) (E := fun _ => ListedFrom s)
    (fun _ _ _ hs h => h.thins hs) ?_ ⟨h, rfl⟩).mono ?_ fun _ _ h => h.listed
  · intro edge _ out s₁ h₁
    refine stageTransition_rule (fun _ _ hs h => h.thins hs)
      (fun _ c d h => ⟨h.listed.newContext c d, h.started⟩) ?_ out s₁ h₁
    intro _ _ out s₂ s₃ ctxs h₂ h₃ hctxs
    exact stageTaken_listed wf t r idx out edge h₃ (h₂.ctxsOk hidx hctxs)
  · rintro _ s₁ ⟨_, _, h₁⟩
    exact h₁.listed

theorem kept_listed (wf : Workflow) :
    Kept wf (fun _ _ _ => true) (fun _ _ _ _ _ _ => true) Listed where
  thins _ _ hs h := h.thins hs
  start x s h hx := by
    refine (addTaskState_listed h ?_).mono (fun _ _ h => h.1) fun _ _ h => h
    exact h.waiting (Conductor.core_mem_waiting hx)
  restage t r idx s h _ _ := restage_listed h t r idx
  leave spec t r idx ctx s h hidx _ := stageTransitions_listed h (h.last t r idx hidx)

/-- Every update is admitted where nothing is asked. -/
theorem admits_true (wf : Workflow) (n : ℕ) : ∀ t r event s,
    admits wf (fun _ _ _ => true) (fun _ _ _ _ _ _ => true) n t r event s = true := by
  induction n with
  | zero => exact fun _ _ _ _ => rfl
  | succ n ih =>
    intro t r event s
    rw [admits, passes_iff]
    refine outcome_true.mono (fun p s₁ _ => ?_) fun _ _ _ => trivial
    split
    · rfl
    · split
      · rw [passes_iff]
        refine outcome_true.mono (fun ctx s₂ _ => ?_) fun _ _ _ => trivial
        rw [passes_iff]
        refine outcome_true.mono (fun due s₃ _ => ?_) fun _ _ _ => trivial
        split
        · exact ih t r _ s₃
        · exact Bool.or_true _
      · rfl

/-! ## Running a task again -/

theorem startAgain_listed (wf : Workflow) (t : String) (r : ℕ) {ctxs : List ℕ} (prev : Prev)
    {s : Conductor} (h : Listed s) (hctxs : CtxsOk s.contexts.length ctxs) :
    Outcome (startAgain wf t r ctxs prev) (fun _ => Listed) (fun _ => Listed) s := by
  unfold startAgain
  rw [outcome_bind, outcome_get]
  dsimp only
  rw [outcome_bind, outcome_set, outcome_bind]
  have hallocs : Allocs s ((s.allocList ctxs).2.allocPrev prev).2 :=
    ⟨[ctxs], [prev], rfl, rfl, rfl, rfl, rfl, rfl, rfl⟩
  have hlist : ((s.allocList ctxs).2.allocPrev prev).2.list s.lists.length = ctxs := by
    show ((s.lists ++ [ctxs])[s.lists.length]?).getD [] = ctxs
    rw [List.getElem?_concat_length, Option.getD_some]
  refine (addTaskState_listed (h.allocs hallocs) (hlist.symm ▸ hctxs)).mono ?_ fun _ _ h => h
  rintro _ s' ⟨hs', hctxs'⟩
  exact hs'.addStagedTask hctxs' t r _ true none

theorem requestTaskRerun_listed (wf : Workflow) (t : String) (r : ℕ) (resetItems : Bool)
    {s : Conductor} (h : Listed s) :
    Outcome (requestTaskRerun wf t r resetItems) (fun _ => Listed) (fun _ => Listed) s := by
  unfold requestTaskRerun
  rw [outcome_bind, outcome_get]
  split
  · exact h
  · rename_i idx hidx
    split
    · exact h
    · rename_i e he
      rw [outcome_bind, outcome_lift]
      refine ⟨fun spec _ => ?_, fun _ _ => h⟩
      rw [outcome_bind, outcome_modify, outcome_bind, outcome_modify, outcome_bind, outcome_modify]
      have hthins : Thins s { reopenStaged t r (s.popTerm idx) with
          errors := (reopenStaged t r (s.popTerm idx)).errors.filter
            fun entry => entry.taskId ≠ some t } :=
        trans_of Thins (popTerm_thins idx s)
          (trans_of Thins (reopenStaged_thins t r _) (thins_errors _ _))
      generalize ({ reopenStaged t r (s.popTerm idx) with
          errors := (reopenStaged t r (s.popTerm idx)).errors.filter
            fun entry => entry.taskId ≠ some t } : Conductor) = s₁ at hthins ⊢
      have h₁ : Listed s₁ := h.thins hthins
      split
      · rw [outcome_bind]
        refine (resetStagedItems_thins t r resetItems).step (fun _ s₂ h₂ => ?_)
          fun _ s₂ h₂ => h₁.thins h₂
        exact (h₁.thins h₂).thins (foldl_popTerm_thins _ s₂)
      · rw [outcome_bind]
        have hctxs : CtxsOk s₁.contexts.length (s.list e.ctxsIn) := by
          rw [hthins.contexts]
          exact h.entry he
        refine (startAgain_listed wf t r (s.prev e.prev) h₁ hctxs).mono (fun _ s₂ h₂ => ?_)
          fun _ _ h => h
        exact h₂.thins (foldl_popTerm_thins _ s₂)

theorem requestWorkflowRerun_listed (wf : Workflow) (requests : List RerunRequest) {s : Conductor}
    (h : Listed s) :
    Outcome (requestWorkflowRerun wf requests) (fun _ => Listed) (fun _ => Listed) s := by
  unfold requestWorkflowRerun
  rw [outcome_bind, outcome_get]
  split
  · exact h
  · dsimp only
    split
    · exact h
    · rw [outcome_bind]
      refine (outcome_forM (I := Listed)
        (fun k _ s₁ h₁ => requestTaskRerun_listed wf k.id k.route _ h₁) h).mono
        (fun _ s₁ h₁ => ?_) fun _ _ h => h
      rw [outcome_bind, outcome_modify, outcome_modify]
      have h₂ : Listed (s₁.continuableCandidates.foldl (fun s i => s.popTerm i) s₁) :=
        h₁.thins (foldl_popTerm_thins _ s₁)
      exact h₂.thins (OnlyStatus.thins rfl)

/-! ## A new workflow -/

/-- A state in which nothing was staged or started yet. -/
structure Fresh (s : Conductor) : Prop where
  tasks : s.tasks = []
  started : s.started = []
  waiting : s.waiting = []

theorem Fresh.thins {s s' : Conductor} (h : Fresh s) (hs : Thins s s') : Fresh s' := by
  refine ⟨hs.tasks.trans h.tasks, hs.started.trans h.started, ?_⟩
  have hsub := hs.waiting
  rw [h.waiting] at hsub
  exact List.sublist_nil.mp hsub

theorem Fresh.listed {s : Conductor} (h : Fresh s) : Listed s := by
  constructor
  · intro t r idx hidx
    rw [Conductor.taskStateIdx, h.tasks] at hidx
    cases hidx
  · rw [h.started, h.waiting]
    exact fun c hc => (List.not_mem_nil hc).elim

theorem init_listed (wf : Workflow) : Listed (.init wf) := by
  unfold Conductor.init
  rw [← outcome_after (P := Listed)]
  refine makeWorkflowState_rule (I := Fresh) (fun _ _ hs h => h.thins hs) (fun _ h => h.listed) ?_
    ⟨rfl, rfl, rfl⟩
  intro s d h
  have hstart : Listed { s with contexts := s.contexts ++ [d], routes := s.routes ++ [[]] } :=
    Fresh.listed ⟨h.tasks, h.started, h.waiting⟩
  refine (outcome_forM (I := fun s => Listed s ∧ 0 < s.contexts.length) (E := fun _ => Listed) ?_
    ⟨hstart, by simp⟩).mono (fun _ _ h => h.1) fun _ _ h => h
  rintro t _ s₁ ⟨h₁, hcontexts⟩
  rw [outcome_bind, outcome_get]
  dsimp only
  rw [outcome_set]
  have hallocs : Allocs s₁ ((s₁.allocList [0]).2.allocPrev []).2 :=
    ⟨[[0]], [[]], rfl, rfl, rfl, rfl, rfl, rfl, rfl⟩
  have hok : CtxsOk s₁.contexts.length
      (((s₁.allocList [0]).2.allocPrev []).2.list (s₁.allocList [0]).1) := by
    show CtxsOk s₁.contexts.length (((s₁.lists ++ [[0]])[s₁.lists.length]?).getD [])
    rw [List.getElem?_concat_length, Option.getD_some]
    exact ⟨by simpa using hcontexts, rfl⟩
  refine ⟨(h₁.allocs hallocs).addStagedTask hok t 0 _ true none, ?_⟩
  rw [addStagedTask_eq hok.ne_nil]
  exact hcontexts

/-! ## Calls -/

theorem clientStep_listed (wf : Workflow) (s : Conductor) (c : ClientCall) (h : Listed s) :
    Listed (clientStep wf s c) := by
  cases c with
  | call c =>
    cases c with
    | requestWorkflowStatus st => exact h.thins (requestWorkflowStatus_thins st s)
    | updateTaskState t r event =>
      show Listed (after (updateTaskState wf t r event) s)
      rw [← outcome_after (P := Listed)]
      exact (kept_listed wf).update (fun _ _ _ _ _ _ _ => rfl) _ t r event s h
        (admits_true wf _ t r event s)
    | getNextTasks => exact h.thins (getNextTasks_thins wf s)
  | requestWorkflowRerun requests =>
    show Listed (after (requestWorkflowRerun wf requests) s)
    rw [← outcome_after (P := Listed)]
    exact requestWorkflowRerun_listed wf requests h

/-! ## A restored workflow -/

theorem length_loadContexts (cs : List (List (String × Json))) (h : Dicts) :
    (Dicts.loadContexts cs h).1.length = cs.length := by
  induction cs generalizing h with
  | nil => rfl
  | cons c cs ih => exact congrArg (· + 1) (ih _)

/-- The lists are restored with what they have. -/
theorem restored_listed {s : Conductor} (h : Listed s) : Listed s.restored := by
  have hlength : s.restored.contexts.length = s.contexts.length := by
    refine (length_loadContexts _ []).trans ?_
    rw [Conductor.serialize, List.length_map]
  have hlists : s.restored.lists =
      s.sequence.map (fun e => s.list e.ctxsIn) ++ s.staged.map fun x => s.list x.ctxsIn := by
    show (s.sequence.map _).map _ ++ (s.staged.map _).map _ = _
    rw [List.map_map, List.map_map]
    rfl
  constructor
  · intro t r idx hidx
    have hlt := h.last t r idx hidx
    rw [Conductor.length_started] at hlt ⊢
    show idx < ((s.sequence.map _).zipIdx.map _).length
    simpa using hlt
  · intro c hc
    rw [hlength, Conductor.list, hlists]
    rcases List.mem_append.mp hc with hc | hc
    · obtain ⟨_, he', rfl⟩ := List.mem_map.mp hc
      obtain ⟨⟨_, i⟩, hi, rfl⟩ := List.mem_map.mp he'
      have hget := List.mem_zipIdx_iff_getElem?.mp hi
      obtain ⟨e, he, -⟩ := Option.map_eq_some_iff.mp (List.getElem?_map.symm.trans hget)
      show CtxsOk _ ((_ ++ _ : List (List ℕ))[i]?.getD [])
      rw [List.getElem?_append_left (by simpa using (List.getElem?_eq_some_iff.mp he).1),
        List.getElem?_map, he]
      exact h.entry he
    · obtain ⟨_, hx', rfl⟩ := List.mem_map.mp hc
      obtain ⟨⟨_, j⟩, hj, rfl⟩ := List.mem_map.mp hx'
      have hget := List.mem_zipIdx_iff_getElem?.mp hj
      obtain ⟨x, hx, -⟩ := Option.map_eq_some_iff.mp (List.getElem?_map.symm.trans hget)
      show CtxsOk _ ((_ ++ _ : List (List ℕ))[s.serialize.sequence.length + j]?.getD [])
      rw [List.getElem?_append_right (by simp [Conductor.serialize]), List.getElem?_map]
      have hpos : s.serialize.sequence.length + j -
          (s.sequence.map fun e => s.list e.ctxsIn).length = j := by
        simp [Conductor.serialize]
      rw [hpos, hx]
      exact h.waiting (Conductor.core_mem_waiting (List.mem_of_getElem? hx))

end Orquesta
end IntegratedCLI
