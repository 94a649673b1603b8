import IntegratedCLI.Lib.Fallible
import IntegratedCLI.Lib.Positions
import IntegratedCLI.Orquesta.Conducting

/-!
# What the parts of the conductor write

One lemma for each part of `update_task_state` says what the part leaves as it
was, or what exactly it writes.  The proofs about a whole call use these and do
not open the definitions again.

`Alloc` is the relation for the parts that only make objects: lists of contexts,
back references, retries and dictionaries are added, and nothing that a field of
the conductor refers to is changed but the dictionaries.
-/

namespace IntegratedCLI
namespace Orquesta

open Effect Status

/-- Objects are made, and nothing else is written. -/
def Alloc (s s' : Conductor) : Prop :=
  ∃ l p q d, (∀ x ∈ l, x = [0]) ∧
    s' = { s with lists := s.lists ++ l, prevs := s.prevs ++ p, retries := s.retries ++ q, dicts := d }

instance : IsPreorder Conductor Alloc where
  refl s := ⟨[], [], [], s.dicts, by simp, by simp⟩
  trans := by
    rintro s _ _ ⟨l, p, q, d, hl, rfl⟩ ⟨l', p', q', d', hl', rfl⟩
    refine ⟨l ++ l', p ++ p', q ++ q', d', ?_, by simp⟩
    intro x hx
    rcases List.mem_append.mp hx with hx | hx
    · exact hl x hx
    · exact hl' x hx

/-- Only the dictionaries are written. -/
def OnlyDicts (s s' : Conductor) : Prop := ∃ d, s' = { s with dicts := d }

instance : IsPreorder Conductor OnlyDicts where
  refl s := ⟨s.dicts, rfl⟩
  trans := by
    rintro s _ _ ⟨d, rfl⟩ ⟨d', rfl⟩
    exact ⟨d', rfl⟩

theorem OnlyDicts.alloc {s s' : Conductor} (h : OnlyDicts s s') : Alloc s s' := by
  obtain ⟨d, rfl⟩ := h
  exact ⟨[], [], [], d, by simp, by simp⟩

/-! ## Contexts -/

theorem mergeContext_moves (r : Ref) (i : ℕ) : Moves OnlyDicts (mergeContext r i) := by
  unfold mergeContext
  refine moves_bind moves_get fun s => ?_
  split
  · exact moves_throw _
  · exact moves_modify fun s => ⟨_, rfl⟩

theorem getTaskContext_moves (idxs : List ℕ) : Moves OnlyDicts (getTaskContext idxs) := by
  unfold getTaskContext
  refine moves_bind moves_get fun s => ?_
  refine moves_bind (moves_modify fun s => ⟨_, rfl⟩) fun _ => ?_
  refine moves_bind (moves_forM fun i _ => mergeContext_moves _ i) fun _ => ?_
  exact moves_bind moves_get fun s => moves_pure _

theorem getTaskInitialContext_moves (t : String) (r : ℕ) :
    Moves OnlyDicts (getTaskInitialContext t r) := by
  unfold getTaskInitialContext
  refine moves_bind moves_get fun s => ?_
  split
  · exact getTaskContext_moves _
  · split
    · exact getTaskContext_moves _
    · exact moves_throw _

theorem loadDict_moves (vars : List (String × Json)) : Moves OnlyDicts (loadDict vars) := by
  unfold loadDict
  refine moves_bind moves_get fun s => ?_
  exact moves_bind (moves_modify fun s => ⟨_, rfl⟩) fun _ => moves_pure _

/-- The new context is the last one. -/
theorem appendContext_outcome (vars : List (String × Json)) (s : Conductor) :
    Outcome (appendContext vars)
      (fun i s' => i = s.contexts.length ∧
        ∃ r d, s' = { s with contexts := s.contexts ++ [r], dicts := d })
      (fun _ _ => False) s := by
  unfold appendContext loadDict
  simp

/-! ## A new entry -/

theorem setupRetry_moves (wf : Workflow) (spec : RetrySpec) (ctxs : Ref) :
    Moves OnlyDicts (setupRetry wf spec ctxs) := by
  unfold setupRetry
  refine moves_bind moves_get fun s => ?_
  refine moves_bind (getTaskContext_moves _) fun vars => ?_
  dsimp only
  split
  · refine moves_bind (moves_pure _) fun _ => ?_
    exact moves_bind (moves_lift _) fun _ => moves_pure _
  · refine moves_bind (moves_map (moves_lift _)) fun _ => ?_
    exact moves_bind (moves_lift _) fun _ => moves_pure _

/-- An entry was started for the task, with the given contexts and back
references. -/
def Started (wf : Workflow) (t : String) (r : ℕ) (ctxs : Ref) (s s' : Conductor) : Prop :=
  ∃ s₁ e, Alloc s s₁ ∧ s' = pushEntry e s₁ ∧ e.id = t ∧ e.route = r ∧ e.status = none ∧
    e.next = [] ∧ wf.graph.hasTask t = true ∧
    (s.list ctxs ≠ [] → e.ctxsIn = ctxs) ∧ (s.list ctxs = [] → s₁.list e.ctxsIn = [0]) ∧
    (wf.graph.getTaskRetrySpec t = none → e.retry = none)

theorem orRoot_alloc (s : Conductor) (l : Ref) :
    Alloc s (s.orRoot l).2 ∧ (s.list l ≠ [] → (s.orRoot l).1 = l) ∧
      (s.list l = [] → (s.orRoot l).2.list (s.orRoot l).1 = [0]) := by
  unfold Conductor.orRoot
  split
  · rename_i h
    refine ⟨⟨[[0]], [], [], s.dicts, by simp, by simp [Conductor.allocList]⟩, absurd h, fun _ => ?_⟩
    simp [Conductor.allocList, Conductor.list]
  · rename_i h
    exact ⟨refl_of Alloc s, fun _ => rfl, fun h' => absurd h' h⟩

theorem orEmpty_alloc (s : Conductor) (p : Ref) :
    Alloc s (s.orEmpty p).2 ∧ (s.orEmpty p).2.lists = s.lists := by
  unfold Conductor.orEmpty
  split
  · exact ⟨⟨[], [[]], [], s.dicts, by simp, by simp [Conductor.allocPrev]⟩, rfl⟩
  · exact ⟨refl_of Alloc s, rfl⟩

theorem addTaskState_outcome (wf : Workflow) (t : String) (r : ℕ) (ctxs prev : Ref)
    (s : Conductor) :
    Outcome (addTaskState wf t r ctxs prev) (fun _ => Started wf t r ctxs s) (fun _ => Alloc s) s := by
  unfold addTaskState
  split
  · exact refl_of Alloc s
  · rename_i ht
    obtain ⟨hroot, hsome, hnone⟩ := orRoot_alloc s ctxs
    obtain ⟨hempty, hlists⟩ := orEmpty_alloc (s.orRoot ctxs).2 prev
    have hs₂ : Alloc s ((s.orRoot ctxs).2.orEmpty prev).2 := trans_of Alloc hroot hempty
    have hlist : ((s.orRoot ctxs).2.orEmpty prev).2.list = (s.orRoot ctxs).2.list := by
      funext l
      unfold Conductor.list
      rw [hlists]
    have hhas : wf.graph.hasTask t = true := by simpa using ht
    have hctx : s.list ctxs = [] →
        ((s.orRoot ctxs).2.orEmpty prev).2.list (s.orRoot ctxs).1 = [0] := by
      intro h
      rw [hlist]
      exact hnone h
    simp only [outcome_bind, outcome_get, outcome_set]
    split
    · rename_i hretry
      exact ⟨_, _, hs₂, rfl, rfl, rfl, rfl, rfl, hhas, hsome, hctx, fun _ => rfl⟩
    · rename_i spec hretry
      rw [outcome_bind]
      refine (setupRetry_moves wf spec _).step (fun x s₃ hs₃ => ?_) fun _ s₃ hs₃ => ?_
      · simp only [outcome_bind, outcome_get, outcome_set]
        obtain ⟨d, rfl⟩ := hs₃
        refine ⟨(Conductor.allocRetry x _).2, _, ?_, rfl, rfl, rfl, rfl, rfl, hhas, hsome, hctx,
          fun h => by rw [hretry] at h; cases h⟩
        exact trans_of Alloc hs₂ ⟨[], [], [x], d, by simp, by simp [Conductor.allocRetry]⟩
      · exact trans_of Alloc hs₂ hs₃.alloc

theorem getStagedTask_spec {s : Conductor} {t : String} {r : ℕ} {x : StagedTask}
    (h : s.getStagedTask t r = some x) : x ∈ s.staged ∧ x.id = t ∧ x.route = r := by
  unfold Conductor.getStagedTask Conductor.stagedIdx at h
  obtain ⟨i, hi, hx⟩ := Option.bind_eq_some_iff.mp h
  obtain ⟨hlt, hp, _⟩ := List.findIdx?_eq_some_iff_getElem.mp hi
  rw [List.getElem?_eq_getElem hlt, Option.some_inj] at hx
  subst hx
  exact ⟨List.getElem_mem hlt, of_decide_eq_true hp⟩

theorem getElem?_pushEntry {s : Conductor} {e e' : TaskState} {i : ℕ}
    (h : s.sequence[i]? = some e') : (pushEntry e s).sequence[i]? = some e' := by
  obtain ⟨hlt, _⟩ := List.getElem?_eq_some_iff.mp h
  show (s.sequence ++ [e])[i]? = _
  rw [List.getElem?_append_left hlt, h]

/-- The entry that was started is the last one of the task, and has no status. -/
theorem Started.entry {wf : Workflow} {t : String} {r : ℕ} {ctxs : Ref} {s s' : Conductor}
    (h : Started wf t r ctxs s s') :
    s'.taskStateIdx t r = some s.sequence.length ∧
      ∃ e, s'.getTaskStateEntry t r = some e ∧ e.status = none := by
  obtain ⟨_, e, ⟨_, _, _, _, _, rfl⟩, rfl, hid, hroute, hst, _⟩ := h
  subst hid hroute
  refine ⟨Dict.lookup_put_self, e, ?_, hst⟩
  unfold Conductor.getTaskStateEntry Conductor.taskStateIdx pushEntry
  rw [Dict.lookup_put_self]
  simp

theorem startEntry_outcome (wf : Workflow) (t : String) (staged : Option StagedTask)
    (s : Conductor) :
    Outcome (startEntry wf t staged)
      (fun _ s' => ∃ x, staged = some x ∧ Started wf t x.route x.ctxsIn s s')
      (fun _ s' => Alloc s s') s := by
  unfold startEntry
  split
  · exact refl_of Alloc s
  · rename_i x
    exact (addTaskState_outcome wf t x.route x.ctxsIn x.prev s).mono
      (fun _ _ h => ⟨x, rfl, h⟩) fun _ _ h => h

/-- **Opening an entry** leaves the state alone, or starts an entry from the staged
task: for a task that has none, for an engine command, and for a completed task
that starts again. -/
theorem openEntry_outcome (wf : Workflow) (t : String) (r : ℕ) (event : Event) (s : Conductor) :
    Outcome (openEntry wf t r event)
      (fun idx s' => s'.taskStateIdx t r = some idx ∧
        (s' = s ∧ isReserved t = false ∧
            (∃ e, s.getTaskStateEntry t r = some e ∧
              ¬ (e.status.any (· ∈ completedStatuses) = true ∧
                event.status.any (· ∈ startingStatuses) = true)) ∨
          ∃ x, s.getStagedTask t r = some x ∧ Started wf t r x.ctxsIn s s' ∧
            (isReserved t = false → ∀ e, s.getTaskStateEntry t r = some e →
              e.status.any (· ∈ completedStatuses) = true ∧
                event.status.any (· ∈ startingStatuses) = true)))
      (fun _ s' => Alloc s s') s := by
  unfold openEntry ensureEntry renewEntry
  simp only [outcome_bind, outcome_get]
  by_cases hnew : ((s.getTaskStateEntry t r).isNone || isReserved t) = true
  · rw [if_pos hnew]
    refine (startEntry_outcome wf t _ s).mono (fun _ s₁ h => ?_) (fun _ _ h => h)
    obtain ⟨x, hx, h⟩ := h
    obtain ⟨_, hid, hroute⟩ := getStagedTask_spec hx
    rw [hroute] at h
    obtain ⟨hidx, e, he, hst⟩ := h.entry
    rw [he]
    dsimp only
    rw [hst, Option.any_none, Bool.false_and, if_neg Bool.false_ne_true]
    simp only [outcome_pure, hidx]
    refine ⟨trivial, Or.inr ⟨x, hx, h, fun hres e' he' => ?_⟩⟩
    rw [he', hres] at hnew
    cases hnew
  · rw [if_neg hnew, outcome_pure]
    rw [Bool.or_eq_true, not_or, Bool.not_eq_true, Bool.not_eq_true] at hnew
    obtain ⟨hsome, hres⟩ := hnew
    obtain ⟨e, he⟩ := Option.isSome_iff_exists.mp (Option.isNone_eq_false_iff.mp hsome)
    rw [he]
    dsimp only
    split
    · rename_i hrenew
      rw [Bool.and_eq_true] at hrenew
      refine (startEntry_outcome wf t _ s).mono (fun _ s₁ h => ?_) (fun _ _ h => h)
      obtain ⟨x, hx, h⟩ := h
      obtain ⟨_, hid, hroute⟩ := getStagedTask_spec hx
      rw [hroute] at h
      simp only [h.entry.1, outcome_pure]
      refine ⟨trivial, Or.inr ⟨x, hx, h, fun _ e' he' => ?_⟩⟩
      cases he'
      exact hrenew
    · rename_i hrenew
      rw [Bool.and_eq_true] at hrenew
      rw [outcome_pure]
      obtain ⟨idx, hidx, _⟩ := Option.bind_eq_some_iff.mp he
      simp only [hidx, outcome_pure]
      exact ⟨trivial, Or.inl ⟨trivial, hres, e, rfl, hrenew⟩⟩

/-! ## Staged tasks of one task -/

/-- Of the staged tasks only those of one task on one route are changed: they may
be taken away, and their items and their mark of completion may be written. -/
structure Restaged (t : String) (r : ℕ) (s s' : Conductor) : Prop where
  rest : s' = { s with staged := s'.staged, errors := s'.errors }
  old : ∀ x' ∈ s'.staged, ∃ x ∈ s.staged,
    x' = { x with items := x'.items, completed := x'.completed } ∧
      (x.completed = true → x'.completed = true) ∧ x'.items.isSome = x.items.isSome
  others : ∀ x ∈ s.staged, ¬ (x.id = t ∧ x.route = r) → x ∈ s'.staged

instance (t : String) (r : ℕ) : IsPreorder Conductor (Restaged t r) where
  refl s := ⟨rfl, fun x hx => ⟨x, hx, rfl, id, rfl⟩, fun _ hx _ => hx⟩
  trans := by
    rintro s₁ s₂ s₃ ⟨h, hold, hothers⟩ ⟨h', hold', hothers'⟩
    refine ⟨?_, ?_, fun x hx hne => hothers' x (hothers x hx hne) hne⟩
    · rw [h', h]
    · intro x'' hx''
      obtain ⟨x', hx', heq', hc', hi'⟩ := hold' x'' hx''
      obtain ⟨x, hx, heq, hc, hi⟩ := hold x' hx'
      refine ⟨x, hx, ?_, fun h => hc' (hc h), hi'.trans hi⟩
      rw [heq', heq]

theorem stagedIdx_spec {s : Conductor} {t : String} {r i : ℕ} (h : s.stagedIdx t r = some i) :
    ∃ x, s.staged[i]? = some x ∧ x.id = t ∧ x.route = r := by
  unfold Conductor.stagedIdx at h
  obtain ⟨hlt, hp, _⟩ := List.findIdx?_eq_some_iff_getElem.mp h
  exact ⟨_, List.getElem?_eq_getElem hlt, of_decide_eq_true hp⟩

theorem removeStagedTask_restaged (t : String) (r : ℕ) (s : Conductor) :
    Restaged t r s (s.removeStagedTask t r) := by
  unfold Conductor.removeStagedTask
  split
  · exact refl_of (Restaged t r) s
  · rename_i i hi
    obtain ⟨y, hy, hid, hroute⟩ := stagedIdx_spec hi
    split
    · exact refl_of (Restaged t r) s
    · refine ⟨rfl, fun x hx => ⟨x, List.mem_of_mem_eraseIdx hx, rfl, id, rfl⟩, ?_⟩
      intro x hx hne
      refine Positions.mem_eraseIdx_of_ne hx hy ?_
      rintro rfl
      exact hne ⟨hid, hroute⟩

/-- Writing the items or the mark of completion of the staged task. -/
theorem updateStaged_restaged {t : String} {r i : ℕ} {f : StagedTask → StagedTask}
    {s : Conductor} (hi : s.stagedIdx t r = some i)
    (hf : ∀ x, f x = { x with items := (f x).items, completed := (f x).completed } ∧
      (x.completed = true → (f x).completed = true))
    (hitems : ∀ x, s.staged[i]? = some x → (f x).items.isSome = x.items.isSome) :
    Restaged t r s (s.updateStaged i f) := by
  obtain ⟨y, hy, hid, hroute⟩ := stagedIdx_spec hi
  refine ⟨rfl, ?_, ?_⟩
  · intro x hx
    rcases Positions.mem_modify hx with hx | ⟨z, hz, rfl⟩
    · exact ⟨x, hx, rfl, id, rfl⟩
    · exact ⟨z, List.mem_of_getElem? hz, (hf z).1, (hf z).2, hitems z hz⟩
  · intro x hx hne
    refine Positions.mem_modify_of_ne hx hy ?_
    rintro rfl
    exact hne ⟨hid, hroute⟩

theorem logEntry_restaged (t : String) (r : ℕ) (entry : LogEntry) (s : Conductor) :
    Restaged t r s (s.logEntry entry) := by
  unfold Conductor.logEntry
  split
  · exact refl_of (Restaged t r) s
  · exact ⟨rfl, fun x hx => ⟨x, hx, rfl, id, rfl⟩, fun _ hx _ => hx⟩

theorem unstageOnEvent_moves (t : String) (r : ℕ) (event : Event) :
    Moves (Restaged t r) (unstageOnEvent t r event) := by
  unfold unstageOnEvent
  refine moves_bind moves_get fun s => ?_
  split
  · exact moves_modify fun s => removeStagedTask_restaged t r s
  · exact moves_pure _

theorem logFailed_moves (t : String) (r : ℕ) (event : Event) :
    Moves (Restaged t r) (logFailed t event) := by
  unfold logFailed
  split
  · exact moves_modify fun s => logEntry_restaged t r _ s
  · exact moves_pure _

theorem getStagedTask_eq {s : Conductor} {t : String} {r i : ℕ} (hi : s.stagedIdx t r = some i) :
    s.getStagedTask t r = s.staged[i]? := by
  unfold Conductor.getStagedTask
  rw [hi, Option.bind_some]

/-- A task with items is not taken off staging by an event. -/
theorem unstageOnEvent_items {s : Conductor} {t : String} {r : ℕ} {x : StagedTask}
    {items : List (Option Status)} (hx : s.getStagedTask t r = some x)
    (hitems : x.items = some items) (event : Event) : unstageOnEvent t r event s = .ok () s := by
  unfold unstageOnEvent
  rw [run_get, hx, Option.any_some, hitems, Option.isNone_some, Bool.and_false,
    if_neg Bool.false_ne_true]
  rfl

theorem recordItem_moves {s : Conductor} {t : String} {r : ℕ} {x : StagedTask}
    {items : List (Option Status)} (hx : s.getStagedTask t r = some x)
    (hitems : x.items = some items) (event : Event) :
    Restaged t r s (after (recordItem t r (some x) event) s) := by
  rw [← outcome_after (P := Restaged t r s)]
  unfold recordItem
  cases event with
  | item itemId st result accumulated =>
    simp only [hitems]
    split
    · simp only [outcome_bind, outcome_get]
      split
      · exact refl_of (Restaged t r) s
      · rename_i i hi
        rw [outcome_modify]
        refine updateStaged_restaged hi (fun x => ⟨rfl, id⟩) ?_
        intro y hy
        rw [getStagedTask_eq hi, hy, Option.some_inj] at hx
        rw [hx, hitems]
        rfl
    · exact refl_of (Restaged t r) s
  | _ => exact refl_of (Restaged t r) s

/-- **Recording the event** changes the staged tasks of the task, and the log. -/
theorem recordEvent_moves (t : String) (r : ℕ) (event : Event) :
    Moves (Restaged t r) (recordEvent t r event) := by
  refine moves_iff.mpr fun s => ?_
  have hlog : ∀ s₂, Restaged t r s s₂ →
      Outcome (logFailed t event) (fun _ => Restaged t r s) (fun _ => Restaged t r s) s₂ :=
    fun s₂ h₂ => (logFailed_moves t r event).step
      (fun _ _ h => trans_of (Restaged t r) h₂ h) fun _ _ h => trans_of (Restaged t r) h₂ h
  unfold recordEvent
  simp only [outcome_bind, outcome_get]
  cases hx : s.getStagedTask t r with
  | none =>
    refine (unstageOnEvent_moves t r event).step (fun _ s₁ h₁ => ?_) fun _ _ h => h
    exact hlog s₁ h₁
  | some x =>
    cases hitems : x.items with
    | none =>
      refine (unstageOnEvent_moves t r event).step (fun _ s₁ h₁ => ?_) fun _ _ h => h
      unfold recordItem
      cases event with
      | item itemId st result accumulated =>
        simp only [hitems]
        exact h₁
      | _ => exact hlog s₁ h₁
    | some items =>
      unfold Outcome
      rw [unstageOnEvent_items hx hitems]
      have hrec := recordItem_moves hx hitems event
      rw [← outcome_after (P := Restaged t r s)] at hrec
      exact hrec.mono (fun _ s₁ h₁ => hlog s₁ h₁) fun _ _ h => h

/-- Only the log is written. -/
def OnlyLog (s s' : Conductor) : Prop := s' = { s with errors := s'.errors }

theorem logEntry_onlyLog (entry : LogEntry) (s : Conductor) : OnlyLog s (s.logEntry entry) := by
  unfold Conductor.logEntry
  split <;> rfl

theorem logFailed_outcome (t : String) (event : Event) (s : Conductor) :
    Outcome (logFailed t event) (fun _ s' => OnlyLog s s') (fun _ _ => False) s := by
  unfold logFailed
  split
  · exact logEntry_onlyLog _ s
  · exact rfl

/-- **An item event** is recorded in the first staged entry of the task, if there is one
with as many items; if there is no staged entry only the log is written. -/
theorem recordEvent_item (t : String) (r k : ℕ) (st : Option Status) (result accumulated : Json)
    (s : Conductor) :
    Outcome (recordEvent t r (.item k st result accumulated))
      (fun _ s' => s.getStagedTask t r = none ∧ OnlyLog s s' ∨
        ∃ i x items, s.stagedIdx t r = some i ∧ s.staged[i]? = some x ∧ x.items = some items ∧
          k < items.length ∧
          OnlyLog (s.updateStaged i fun x => { x with items := some (items.set k st) }) s')
      (fun _ s' => ∃ x, s.getStagedTask t r = some x ∧
        (x.items = none ∧ s' = after (unstageOnEvent t r (.item k st result accumulated)) s ∨
          ∃ items, x.items = some items ∧ items.length ≤ k ∧ s' = s)) s := by
  unfold recordEvent
  rw [outcome_bind, outcome_get]
  dsimp only
  cases hx : s.getStagedTask t r with
  | none =>
    have hkeep : unstageOnEvent t r (.item k st result accumulated) s = .ok () s := by
      unfold unstageOnEvent
      rw [run_get, hx, Option.any_none, Bool.and_false, if_neg Bool.false_ne_true]
      rfl
    rw [outcome_bind]
    unfold Outcome
    rw [hkeep]
    exact (logFailed_outcome t _ s).mono (fun _ _ h => Or.inl ⟨rfl, h⟩) fun _ _ h => h.elim
  | some x =>
    obtain ⟨i, hi, hx'⟩ := Option.bind_eq_some_iff.mp hx
    cases hitems : x.items with
    | none =>
      rw [outcome_bind]
      refine (outcome_run (m := unstageOnEvent t r (.item k st result accumulated))).mono ?_ ?_
      · intro _ s₁ h₁
        have hafter : s₁ = after (unstageOnEvent t r (.item k st result accumulated)) s := by
          rw [after, h₁]
        rw [outcome_bind, recordItem]
        simp only [hitems]
        exact ⟨x, rfl, Or.inl ⟨hitems, hafter⟩⟩
      · intro _ s₁ h₁
        have hafter : s₁ = after (unstageOnEvent t r (.item k st result accumulated)) s := by
          rw [after, h₁]
        exact ⟨x, rfl, Or.inl ⟨hitems, hafter⟩⟩
    | some items =>
      rw [outcome_bind]
      unfold Outcome
      rw [unstageOnEvent_items hx hitems]
      show Outcome (recordItem t r (some x) (.item k st result accumulated) >>= fun _ => _) _ _ s
      rw [outcome_bind, recordItem]
      simp only [hitems]
      split
      · rename_i hlt
        rw [outcome_bind, outcome_get, hi]
        dsimp only
        rw [outcome_modify]
        refine (logFailed_outcome t _ _).mono (fun _ _ h => Or.inr ?_) fun _ _ h => h.elim
        exact ⟨i, x, items, rfl, hx', hitems, hlt, h⟩
      · rename_i hlt
        exact ⟨x, rfl, Or.inr ⟨items, hitems, Nat.le_of_not_lt hlt, rfl⟩⟩

/-! ## The task state machine -/

/-- The status of the entry at the position may be written. -/
def StatusAt (idx : ℕ) (s s' : Conductor) : Prop :=
  s' = s ∨ ∃ st, s' = s.updateEntry idx fun e => { e with status := some st }

/-- **Processing an event** writes the next status of the entry, if there is one. -/
theorem processEvent_outcome (idx : ℕ) (event : Event) (s : Conductor) :
    Outcome (TaskStateMachine.processEvent idx event)
      (fun _ s' => ∃ e, s.sequence[idx]? = some e ∧
        (TaskStateMachine.nextStatus s e event = .ok none ∧ s' = s ∨
          ∃ st, TaskStateMachine.nextStatus s e event = .ok (some st) ∧
            s' = s.updateEntry idx fun e => { e with status := some st }))
      (fun x s' => s' = s ∧ (s.sequence[idx]? = none ∨ ∃ e, s.sequence[idx]? = some e ∧
        TaskStateMachine.nextStatus s e event = .error x)) s := by
  unfold TaskStateMachine.processEvent
  simp only [outcome_bind, outcome_get]
  split
  · rename_i h
    exact ⟨rfl, Or.inl h⟩
  · rename_i e he
    split
    · rename_i x hx
      exact ⟨rfl, Or.inr ⟨e, he, hx⟩⟩
    · rename_i hx
      exact ⟨e, he, Or.inl ⟨hx, rfl⟩⟩
    · rename_i st hx
      exact ⟨e, he, Or.inr ⟨st, hx, rfl⟩⟩

theorem processEvent_statusAt (idx : ℕ) (event : Event) (s : Conductor) :
    StatusAt idx s (after (TaskStateMachine.processEvent idx event) s) := by
  rw [← outcome_after (P := StatusAt idx s)]
  refine (processEvent_outcome idx event s).mono ?_ ?_
  · rintro _ s' ⟨e, _, ⟨_, rfl⟩ | ⟨st, _, rfl⟩⟩
    · exact Or.inl rfl
    · exact Or.inr ⟨st, rfl⟩
  · rintro _ s' ⟨rfl, _⟩
    exact Or.inl rfl

theorem transition_row {current st : Status} {name : EventName}
    (h : TaskStateMachine.transition current name = .ok (some st)) :
    (name, st) ∈ (taskStateMachineData current).getD [] := by
  unfold TaskStateMachine.transition at h
  cases hrow : taskStateMachineData current with
  | none =>
    rw [hrow] at h
    cases h
  | some row =>
    rw [hrow] at h
    exact Dict.mem_of_lookup (Except.ok.inj h)

/-- The names that the machine looks up for an event have its head. -/
theorem addContextToTaskItemEvent_head {s : Conductor} {t : String} {r itemId : ℕ} {event : Event}
    {name : EventName}
    (h : TaskStateMachine.addContextToTaskItemEvent s t r itemId event = .ok name) :
    name.head = event.name.head := by
  unfold TaskStateMachine.addContextToTaskItemEvent at h
  split at h
  · split at h
    · cases h
    · split at h
      · cases h
      · split at h
        · cases h
          rfl
        · cases h
  · cases h
    rfl

theorem addContextToWorkflowEvent_head (s : Conductor) (t : String) (r : ℕ) (event : Event) :
    (TaskStateMachine.addContextToWorkflowEvent s t r event).head = event.name.head := by
  unfold TaskStateMachine.addContextToWorkflowEvent
  split
  · rfl
  · split
    · rfl
    · rfl

/-- The next status is in the row of the current one, under the head of the event. -/
theorem nextStatus_row {s : Conductor} {e : TaskState} {event : Event} {st : Status}
    (h : TaskStateMachine.nextStatus s e event = .ok (some st)) :
    ∃ sfx, (⟨event.name.head, sfx⟩, st) ∈ (taskStateMachineData e.statusOrUnset).getD [] := by
  have hrow : ∀ {name : EventName}, name.head = event.name.head →
      TaskStateMachine.transition e.statusOrUnset name = .ok (some st) →
      ∃ sfx, (⟨event.name.head, sfx⟩, st) ∈ (taskStateMachineData e.statusOrUnset).getD [] := by
    rintro ⟨head, sfx⟩ hhead h
    exact ⟨sfx, hhead ▸ transition_row h⟩
  unfold TaskStateMachine.nextStatus at h
  cases event with
  | workflow w =>
    dsimp only at h
    split at h
    · exact hrow (addContextToWorkflowEvent_head s _ _ _) h
    · cases h
  | task id route st => cases h
  | action st result =>
    dsimp only at h
    split at h
    · exact hrow rfl h
    · cases h
  | item itemId st result accumulated =>
    dsimp only at h
    split at h
    · obtain ⟨name, hname, h⟩ := Fallible.bind_eq_ok.mp h
      exact hrow (addContextToTaskItemEvent_head hname) h
    · cases h
  | operation command =>
    dsimp only at h
    split at h
    · exact hrow rfl h
    · cases h

/-- A task that is told of a request goes on to pause or to cancel, and it was not
completed. -/
theorem nextStatus_workflow {s : Conductor} {e : TaskState} {w : Option Status} {st : Status}
    (h : TaskStateMachine.nextStatus s e (.workflow w) = .ok (some st)) :
    e.statusOrUnset ∉ completedStatuses ∧ st ∈ pauseStatuses ++ cancelStatuses := by
  obtain ⟨sfx, hrow⟩ := nextStatus_row h
  have htable : ∀ current : Status, ∀ p ∈ (taskStateMachineData current).getD [],
      (match p.1.head with
        | .workflow _ => true
        | _ => false) = true →
      current ∉ completedStatuses ∧ p.2 ∈ pauseStatuses ++ cancelStatuses := by
    intro current
    cases current <;> decide
  exact htable _ _ hrow rfl

/-! ## A retried and a completed task -/

/-- **Staging a retried task** counts the retry, and stages the task anew with the
objects of its entry. -/
theorem restage_outcome (t : String) (r idx : ℕ) (s : Conductor) :
    Outcome (restage t r idx)
      (fun _ s' => ∃ e x s₁, s.sequence[idx]? = some e ∧ e.retry = some x ∧
        Restaged t r { s with
          retries := s.retries.modify x fun retry => { retry with tally := retry.tally + 1 } } s₁ ∧
        s' = s₁.addStagedTask t r e.ctxsIn e.prev true (some x))
      (fun _ s' => s' = s) s := by
  unfold restage
  simp only [outcome_bind, outcome_get]
  split
  · rfl
  · rename_i e he
    split
    · rfl
    · rename_i x hx
      simp only [outcome_bind, outcome_modify]
      exact ⟨e, x, _, he, hx, removeStagedTask_restaged t r _, rfl⟩

theorem closeStaged_moves (spec : TaskSpec) (t : String) (r : ℕ) (st : Status) :
    Moves (Restaged t r) (closeStaged spec t r st) := by
  refine moves_iff.mpr fun s => ?_
  unfold closeStaged
  split
  · simp only [outcome_bind, outcome_get]
    split
    · exact refl_of (Restaged t r) s
    · rename_i i hi
      exact updateStaged_restaged hi (fun x => ⟨rfl, fun _ => rfl⟩) fun _ _ => rfl
  · exact removeStagedTask_restaged t r s

theorem makeTaskContext_moves (idx : ℕ) (result : Json) :
    Moves OnlyDicts (makeTaskContext idx result) := by
  unfold makeTaskContext
  refine moves_bind moves_get fun s => ?_
  split
  · exact moves_throw _
  · refine moves_bind (getTaskContext_moves _) fun _ => ?_
    exact moves_bind moves_get fun _ => moves_pure _

/-- **Completing a task** changes its staged tasks and the dictionaries. -/
theorem completeTask_outcome (spec : TaskSpec) (t : String) (r idx : ℕ) (st : Status)
    (event : Event) (s : Conductor) :
    Outcome (completeTask spec t r idx st event)
      (fun _ s' => ∃ s₁, Restaged t r s s₁ ∧ OnlyDicts s₁ s')
      (fun _ s' => ∃ s₁, Restaged t r s s₁ ∧ OnlyDicts s₁ s') s := by
  unfold completeTask
  rw [outcome_bind]
  refine (closeStaged_moves spec t r st).step (fun _ s₁ h₁ => ?_) fun _ s₁ h₁ => ?_
  · exact (makeTaskContext_moves idx _).step (fun _ _ h => ⟨s₁, h₁, h⟩) fun _ _ h => ⟨s₁, h₁, h⟩
  · exact ⟨s₁, h₁, refl_of OnlyDicts s₁⟩

/-- Evaluating a retry writes nothing. -/
theorem needsRetry_moves (wf : Workflow) (idx : ℕ) (ctx : EvalContext) :
    Moves (Keeps id) (needsRetry wf idx ctx) := by
  unfold needsRetry
  refine moves_bind moves_get fun s => ?_
  split
  · exact moves_lift _
  · exact moves_pure _

/-! ## The workflow state machine -/

/-- Only the status of the workflow and the log are written. -/
def OnlyStatus (s s' : Conductor) : Prop :=
  s' = { s with status := s'.status, errors := s'.errors }

instance : IsPreorder Conductor OnlyStatus where
  refl _ := rfl
  trans := by
    intro s₁ s₂ s₃ (h : s₂ = _) (h' : s₃ = _)
    show s₃ = _
    rw [h', h]

theorem logEntry_onlyStatus (entry : LogEntry) (s : Conductor) : OnlyStatus s (s.logEntry entry) := by
  unfold Conductor.logEntry
  split <;> rfl

theorem logEntry_status (entry : LogEntry) (s : Conductor) : (s.logEntry entry).status = s.status := by
  unfold Conductor.logEntry
  split <;> rfl

theorem logErrors_onlyStatus (es : List EvaluationError) (t : Option String) (r : Option ℕ)
    (tid : Option TransitionId) (s : Conductor) :
    OnlyStatus s (s.logErrors es t r tid) ∧ (s.logErrors es t r tid).status = s.status := by
  unfold Conductor.logErrors
  induction es generalizing s with
  | nil => exact ⟨rfl, rfl⟩
  | cons e es ih =>
    obtain ⟨h, h'⟩ := ih (s.logError (.evaluation e) t r tid)
    refine ⟨trans_of OnlyStatus (logEntry_onlyStatus _ s) h, h'.trans (logEntry_status _ s)⟩

theorem failUnreachable_outcome (wf : Workflow) (s : Conductor) :
    Outcome (WorkflowStateMachine.failUnreachable wf)
      (fun _ s' => s' = s ∧ (s.status ∈ completedStatuses → s.getUnreachableBarriers wf = []) ∨
        OnlyStatus s s' ∧ s'.status = failed ∧ s.status ∈ completedStatuses ∧
          s.getUnreachableBarriers wf ≠ [])
      (fun _ _ => False) s := by
  unfold WorkflowStateMachine.failUnreachable
  simp only [outcome_bind, outcome_get]
  split
  · rename_i hst
    split
    · rename_i h
      exact Or.inl ⟨rfl, fun _ => h⟩
    · rename_i h
      simp only [outcome_bind, outcome_modify]
      have hset : OnlyStatus s (s.setStatus failed) := rfl
      refine (outcome_forM (I := fun s' => OnlyStatus s s' ∧ s'.status = failed) ?_
        ⟨hset, rfl⟩).mono (fun _ s' hs' => Or.inr ⟨hs'.1, hs'.2, hst, h⟩) (fun _ _ h => h)
      rintro x _ s' ⟨hs', hst'⟩
      exact ⟨trans_of OnlyStatus hs' (logEntry_onlyStatus _ s'), (logEntry_status _ s').trans hst'⟩
  · rename_i hst
    exact Or.inl ⟨rfl, fun h => absurd h hst⟩

/-- **Processing a task event** leaves the workflow alone, gives it the status in
the table, or fails it because a staged join is unreachable. -/
theorem processTaskEvent_outcome (wf : Workflow) (t : String) (r : ℕ) (st : Status)
    (s : Conductor) :
    Outcome (WorkflowStateMachine.processTaskEvent wf t r st)
      (fun _ s' =>
        let name := WorkflowStateMachine.addContextToTaskEvent wf s t r st
        name ∈ taskExecutionEvents ∧
          (WorkflowStateMachine.transition s.status name = .ok none ∧ s' = s ∨
            ∃ new, WorkflowStateMachine.transition s.status name = .ok (some new) ∧
              (s' = s.setStatus new ∧
                  (new ∈ completedStatuses → s.getUnreachableBarriers wf = []) ∨
                OnlyStatus s s' ∧ s'.status = failed ∧ new ∈ completedStatuses ∧
                  s.getUnreachableBarriers wf ≠ [])))
      (fun x s' => s' = s ∧
        let name := WorkflowStateMachine.addContextToTaskEvent wf s t r st
        (name ∉ taskExecutionEvents ∧ x = .invalidEvent name ∨
          WorkflowStateMachine.transition s.status name = .error x)) s := by
  unfold WorkflowStateMachine.processTaskEvent
  simp only [outcome_bind, outcome_get]
  split
  · rename_i hname
    split
    · rename_i x hx
      exact ⟨rfl, Or.inr hx⟩
    · rename_i hx
      exact ⟨hname, Or.inl ⟨hx, rfl⟩⟩
    · rename_i new hx
      simp only [outcome_bind, outcome_modify]
      refine (failUnreachable_outcome wf _).mono ?_ (fun _ _ h => h.elim)
      rintro _ s' (⟨rfl, h⟩ | ⟨h, hst, hnew, hbar⟩)
      · exact ⟨hname, Or.inr ⟨new, hx, Or.inl ⟨rfl, h⟩⟩⟩
      · exact ⟨hname, Or.inr ⟨new, hx,
          Or.inr ⟨trans_of OnlyStatus (b := s.setStatus new) rfl h, hst, hnew, hbar⟩⟩⟩
  · rename_i hname
    exact ⟨rfl, Or.inl ⟨hname, rfl⟩⟩

/-- The status that a request leads to, if it is accepted. -/
theorem processWorkflowEvent_outcome (st : Option Status) (s : Conductor) :
    Outcome (WorkflowStateMachine.processWorkflowEvent st)
      (fun _ s' =>
        let name := WorkflowStateMachine.addContextToWorkflowEvent s st
        name ∈ workflowExecutionEvents ∧
          (WorkflowStateMachine.transition s.status name = .ok none ∧ s' = s ∨
            ∃ new, WorkflowStateMachine.transition s.status name = .ok (some new) ∧
              s' = s.setStatus new))
      (fun x s' => s' = s ∧
        let name := WorkflowStateMachine.addContextToWorkflowEvent s st
        (name ∉ workflowExecutionEvents ∧ x = .invalidEvent name ∨
          WorkflowStateMachine.transition s.status name = .error x)) s := by
  unfold WorkflowStateMachine.processWorkflowEvent
  simp only [outcome_bind, outcome_get]
  split
  · rename_i hname
    split
    · rename_i x hx
      exact ⟨rfl, Or.inr hx⟩
    · rename_i hx
      exact ⟨hname, Or.inl ⟨hx, rfl⟩⟩
    · rename_i new hx
      exact ⟨hname, Or.inr ⟨new, hx, rfl⟩⟩
  · rename_i hname
    exact ⟨rfl, Or.inl ⟨hname, rfl⟩⟩

end Orquesta
end IntegratedCLI
