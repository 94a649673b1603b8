import IntegratedCLI.Orquesta.ItemRecords

/-!
# The status of a task with items

The items of a task report their statuses one by one, and the task machine gives the task
a status that depends on all of them.  When all items are completed the task should be
completed, and it should succeed only if every item succeeded (`AgreesWithItems`,
`SucceedsWithItems`).

`beginUpdate_item` says what an event of an item does: it is recorded in the first staged
record of the task, if that has items, and the status becomes `afterItem`.  The rest of the
update is `Apart`, and so is every call that is for another task.

The row of a paused task has no success of an item in it, nor have those of a task that is
pending, requested, scheduled, delayed or resumed.  `expectedOf` asks that the last item
does not complete while the task is in one of those.
-/

namespace IntegratedCLI
namespace Orquesta

open Effect Status

/-! ## The statuses of the items -/

def allCompleted (items : List (Option Status)) : Bool :=
  items.all fun st => st.any (· ∈ completedStatuses)

def allSucceeded (items : List (Option Status)) : Bool :=
  items.all fun st => st = some succeeded

theorem any_eq_false_of_completed {items : List (Option Status)} (h : allCompleted items = true)
    {sts : List Status} (hsts : ∀ st ∈ completedStatuses, st ∉ sts) :
    (items.any fun st => st.any (· ∈ sts)) = false := by
  rw [List.any_eq_false]
  intro st hst hin
  obtain ⟨st', rfl, hcompleted⟩ := (Option.any_eq_true _ _).mp (List.all_eq_true.mp h st hst)
  exact hsts st' (of_decide_eq_true hcompleted) (of_decide_eq_true hin)

/-- When the items are completed, the task is dormant, and it is not paused. -/
theorem itemSuffix_of_completed {items : List (Option Status)} (h : allCompleted items = true) :
    TaskStateMachine.itemSuffix items ∈
      [[Suffix.taskDormant, .itemsCanceled], [.taskDormant, .itemsFailed],
        [.taskDormant, .itemsCompleted]] := by
  have hactive : (items.any fun st => st.any (· ∈ activeStatuses)) = false :=
    any_eq_false_of_completed h (by decide)
  have hpaused : (items.any fun st => st.any (· ∈ [pending, paused])) = false :=
    any_eq_false_of_completed h (by decide)
  have hincomplete : (items.any fun st => !st.any (· ∈ completedStatuses)) = false := by
    rw [List.any_eq_false]
    intro st hst hnot
    rw [List.all_eq_true.mp h st hst] at hnot
    cases hnot
  unfold TaskStateMachine.itemSuffix
  simp only [hactive, hpaused, hincomplete, Bool.and_false, Bool.not_false, Bool.true_and,
    Bool.false_eq_true, ↓reduceIte]
  split
  · exact List.mem_cons_self
  · split
    · exact List.mem_cons_of_mem _ List.mem_cons_self
    · exact List.mem_cons_of_mem _ (List.mem_cons_of_mem _ List.mem_cons_self)

/-- The name of an event says that the items are completed only if they succeeded. -/
theorem allSucceeded_of_itemSuffix {items : List (Option Status)}
    (h : TaskStateMachine.itemSuffix items = [.taskDormant, .itemsCompleted]) :
    allSucceeded items = true := by
  unfold TaskStateMachine.itemSuffix at h
  dsimp only at h
  split at h
  · cases (List.cons.inj (List.cons.inj h).2).1
  · split at h
    · cases (List.cons.inj (List.cons.inj h).2).1
    · split at h
      · cases (List.cons.inj (List.cons.inj h).2).1
      · rename_i hcanceled hfailed
        have hdormant := (List.cons.inj h).1
        have hcompleted := (List.cons.inj (List.cons.inj h).2).1
        split at hdormant
        · cases hdormant
        · rename_i hactive
          split at hcompleted
          · cases hcompleted
          · rename_i hincomplete
            simp only [Bool.not_eq_true] at hactive
            simp only [hactive, Bool.not_false, Bool.true_and, Bool.not_eq_true] at hcanceled hfailed
            refine List.all_eq_true.mpr fun st hst => ?_
            have hc := List.any_eq_false.mp hcanceled st hst
            have hf := List.any_eq_false.mp hfailed st hst
            have hdone : st.any (· ∈ completedStatuses) = true := by
              by_contra hnot
              rw [Bool.not_eq_true] at hnot
              exact hincomplete (List.any_eq_true.mpr ⟨st, hst, by rw [hnot]; rfl⟩)
            revert hc hf hdone
            cases st with
            | none => exact fun _ _ h => h
            | some st => cases st <;> decide

/-! ## The table -/

/-- In the rows of these statuses there is an event for every way in which the last item
completes. -/
theorem completes_of_table : ∀ current ∈ [running, pausing, canceling], ∀ st ∈ completedStatuses,
    ∀ suffixes ∈ [[Suffix.taskDormant, .itemsCanceled], [.taskDormant, .itemsFailed],
      [.taskDormant, .itemsCompleted]],
    ∃ new ∈ completedStatuses,
      TaskStateMachine.transition current ⟨.action (some st), suffixes⟩ = .ok (some new) := by
  have hrow : ∀ current ∈ [running, pausing, canceling], ∀ st ∈ completedStatuses,
      ∀ suffixes ∈ [[Suffix.taskDormant, .itemsCanceled], [.taskDormant, .itemsFailed],
        [.taskDormant, .itemsCompleted]],
      ∃ new ∈ completedStatuses, (taskStateMachineData current).bind
        (·.lookup ⟨.action (some st), suffixes⟩) = some new := by decide
  intro current hcurrent st hst suffixes hsuffixes
  obtain ⟨new, hnew, hlookup⟩ := hrow current hcurrent st hst suffixes hsuffixes
  obtain ⟨row, hdata, hlookup⟩ := Option.bind_eq_some_iff.mp hlookup
  refine ⟨new, hnew, ?_⟩
  unfold TaskStateMachine.transition
  rw [hdata]
  exact congrArg Except.ok hlookup

/-- A completed task is not moved on by an event of an action. -/
theorem transition_of_completed {current new : Status} {name : EventName}
    (hcurrent : current ∈ completedStatuses) {st : Option Status}
    (hname : name.head = .action st) :
    TaskStateMachine.transition current name ≠ .ok (some new) := by
  intro h
  have htable : ∀ current ∈ completedStatuses, ∀ p ∈ (taskStateMachineData current).getD [],
      p.1.head = .operation .taskRetry := by decide
  have hhead := htable current hcurrent _ (transition_row h)
  rw [hname] at hhead
  cases hhead

/-- A task succeeds with an engine command, or with a success that says that the items are
completed, if it says anything of them. -/
theorem succeeds_of_table {current : Status} {name : EventName}
    (h : TaskStateMachine.transition current name = .ok (some succeeded)) :
    name.head = .operation .taskContinue ∨ name.head = .operation .taskNoop ∨
      name.head = .action (some succeeded) ∧
        (name.suffixes = [] ∨ name.suffixes = [.taskDormant, .itemsCompleted]) := by
  have htable : ∀ current : Status, ∀ p ∈ (taskStateMachineData current).getD [],
      p.2 = succeeded → p.1.head = .operation .taskContinue ∨ p.1.head = .operation .taskNoop ∨
        p.1.head = .action (some succeeded) ∧
          (p.1.suffixes = [] ∨ p.1.suffixes = [.taskDormant, .itemsCompleted]) := by
    intro current
    cases current <;> decide
  exact htable current _ (transition_row h) rfl

/-! ## An event of an item -/

/-- The name that is looked up for an event of the item. -/
def itemEventName (items : List (Option Status)) (k : ℕ) (st : Option Status) : EventName :=
  if st.any (· ∈ TaskStateMachine.itemRequirements) then
    ⟨.action st, TaskStateMachine.itemSuffix (items.eraseIdx k)⟩
  else ⟨.action st, []⟩

/-- The status that the event is given as the next one, or the status as it was. -/
def nextOr (e : TaskState) : Except PyError (Option Status) → Option Status
  | .ok (some st) => some st
  | _ => e.status

theorem itemEventName_head (items : List (Option Status)) (k : ℕ) (st : Option Status) :
    (itemEventName items k st).head = .action st := by
  unfold itemEventName
  split <;> rfl

theorem itemEventName_of_required {st : Status} (h : st ∈ TaskStateMachine.itemRequirements)
    (items : List (Option Status)) (k : ℕ) : itemEventName items k (some st) =
      ⟨.action (some st), TaskStateMachine.itemSuffix (items.eraseIdx k)⟩ :=
  if_pos (decide_eq_true h)

theorem nextOr_cases (e : TaskState) (x : Except PyError (Option Status)) :
    nextOr e x = e.status ∨ ∃ new, x = .ok (some new) ∧ nextOr e x = some new := by
  cases x with
  | error _ => exact Or.inl rfl
  | ok next =>
    cases next with
    | none => exact Or.inl rfl
    | some new => exact Or.inr ⟨new, rfl, rfl⟩

/-- The status of the entry after an event of the item. -/
def afterItem (e : TaskState) (items : List (Option Status)) (k : ℕ) (st : Option Status) :
    Option Status :=
  if ⟨.action st, []⟩ ∈ actionExecutionEvents ++ engineOperationEvents then
    nextOr e (TaskStateMachine.transition e.statusOrUnset (itemEventName items k st))
  else e.status

section

variable {s : Conductor} {e : TaskState} {x : StagedTask} {items : List (Option Status)} {k : ℕ}

theorem nextStatus_item (hx : s.getStagedTask e.id e.route = some x) (hitems : x.items = some items)
    (hk : k < items.length) (st : Option Status) (result accumulated : Json) :
    nextOr e (TaskStateMachine.nextStatus s e (.item k st result accumulated)) =
      afterItem e items k st := by
  have hname : TaskStateMachine.addContextToTaskItemEvent s e.id e.route k
      (.item k st result accumulated) = .ok (itemEventName items k st) := by
    unfold TaskStateMachine.addContextToTaskItemEvent itemEventName
    show (if st.any (· ∈ TaskStateMachine.itemRequirements) then _ else _) = _
    split
    · rw [hx]
      dsimp only
      rw [hitems]
      dsimp only
      rw [if_pos hk]
      rfl
    · rfl
  unfold TaskStateMachine.nextStatus afterItem
  dsimp only
  by_cases hlegal : (Event.item k st result accumulated).name ∈
      actionExecutionEvents ++ engineOperationEvents
  · rw [if_pos hlegal, hname]
    exact (if_pos hlegal).symm
  · rw [if_neg hlegal]
    exact (if_neg hlegal).symm

/-- An event of an item that is not recorded leads to no success. -/
theorem nextStatus_item_none (hx : s.getStagedTask e.id e.route = none) (st : Option Status)
    (result accumulated : Json)
    (h : nextOr e (TaskStateMachine.nextStatus s e (.item k st result accumulated)) =
      some succeeded) : e.status = some succeeded := by
  rcases nextOr_cases e (TaskStateMachine.nextStatus s e (.item k st result accumulated)) with
    hsame | ⟨new, hnext, hnew⟩
  · exact hsame.symm.trans h
  · obtain rfl := Option.some.inj (hnew.symm.trans h)
    unfold TaskStateMachine.nextStatus at hnext
    dsimp only at hnext
    split at hnext
    · obtain ⟨name, hname, hrow⟩ := Fallible.bind_eq_ok.mp hnext
      unfold TaskStateMachine.addContextToTaskItemEvent at hname
      rw [hx] at hname
      split at hname
      · cases hname
      · -- a success would have asked for the other items
        rename_i hnot
        cases hname
        rcases succeeds_of_table hrow with hhead | hhead | ⟨hhead, _⟩
        · cases hhead
        · cases hhead
        · obtain rfl : st = some succeeded := EventHead.action.inj hhead
          exact absurd rfl hnot
    · cases hnext

end

/-- What an event of an item makes of a task that can be moved on by it, when all the items
are completed. -/
theorem afterItem_completed {e : TaskState} {items : List (Option Status)} {k : ℕ}
    {st : Option Status} (hst : st.any (· ∈ completedStatuses) = true)
    (hothers : allCompleted (items.eraseIdx k) = true)
    (he : e.status.any (· ∈ [running, pausing, canceling] ++ completedStatuses) = true) :
    (afterItem e items k st).any (· ∈ completedStatuses) = true := by
  obtain ⟨current, hcurrent, hin⟩ := (Option.any_eq_true _ _).mp he
  obtain ⟨st, rfl, hcompleted⟩ := (Option.any_eq_true _ _).mp hst
  have hcompleted := of_decide_eq_true hcompleted
  have hcurrent' : e.statusOrUnset = current := by
    unfold TaskStateOf.statusOrUnset
    rw [hcurrent, Option.getD_some]
  have hlegal : ∀ st ∈ completedStatuses, (⟨.action (some st), []⟩ : EventName) ∈
      actionExecutionEvents ++ engineOperationEvents := by decide
  have hcounts : ∀ st ∈ completedStatuses, st ∈ TaskStateMachine.itemRequirements := by decide
  unfold afterItem
  rw [if_pos (hlegal st hcompleted), itemEventName_of_required (hcounts st hcompleted), hcurrent']
  rcases List.mem_append.mp (of_decide_eq_true hin) with hmoves | hdone
  · obtain ⟨new, hnew, hrow⟩ := completes_of_table current hmoves st hcompleted _
      (itemSuffix_of_completed hothers)
    rw [hrow]
    exact decide_eq_true hnew
  · rcases nextOr_cases e (TaskStateMachine.transition current
        ⟨.action (some st), TaskStateMachine.itemSuffix (items.eraseIdx k)⟩) with
      hsame | ⟨new, hrow, _⟩
    · rw [hsame, hcurrent]
      exact decide_eq_true hdone
    · exact absurd hrow (transition_of_completed hdone rfl)

/-- An event of an item leads to success only if it says so, and the other items succeeded. -/
theorem afterItem_succeeded {e : TaskState} {items : List (Option Status)} {k : ℕ}
    {st : Option Status} (h : afterItem e items k st = some succeeded) :
    e.status = some succeeded ∨
      st = some succeeded ∧ allSucceeded (items.eraseIdx k) = true := by
  unfold afterItem at h
  split at h
  · rcases nextOr_cases e (TaskStateMachine.transition e.statusOrUnset
        (itemEventName items k st)) with hsame | ⟨new, hrow, hnew⟩
    · exact Or.inl (hsame.symm.trans h)
    · obtain rfl := Option.some.inj (hnew.symm.trans h)
      rcases succeeds_of_table hrow with hhead | hhead | ⟨hhead, hsuffixes⟩
      · rw [itemEventName_head] at hhead
        cases hhead
      · rw [itemEventName_head] at hhead
        cases hhead
      · rw [itemEventName_head] at hhead
        obtain rfl := EventHead.action.inj hhead
        rw [itemEventName_of_required (by decide)] at hsuffixes
        rcases hsuffixes with hnil | hcompleted
        · exact absurd hnil (itemSuffix_ne_nil _)
        · exact Or.inr ⟨rfl, allSucceeded_of_itemSuffix hcompleted⟩
  · exact Or.inl h

/-! ## The first half of an update -/

section

variable {wf : Workflow} {t : String} {r : ℕ} {s s₀ s₁ s' : Conductor}

theorem statusOf_at {idx : ℕ} {e : TaskState} (hidx : At t r idx s)
    (he : s.sequence[idx]? = some e) : s.statusOf t r = e.status := by
  unfold Conductor.statusOf
  rw [getTaskStateEntry_at hidx, he]
  rfl

theorem Alloc.apart (h : Alloc s s') : Apart t r s s' := by
  obtain ⟨l, p, q, d, _, rfl⟩ := h
  exact apart_of_entries (.refl _) rfl rfl

theorem OnlyLog.apart (h : OnlyLog s s') : Apart t r s s' := by
  unfold OnlyLog at h
  rw [h]
  exact apart_of_entries (.refl _) rfl rfl

/-- The entry of the task is open: it is the one that was there, or one was started for an
event that finds no entry or starts a completed task again. -/
structure Opened (t : String) (r : ℕ) (event : Event) (s s₀ : Conductor) : Prop where
  orderly : Orderly t r s₀
  staged : s₀.staged = s.staged
  status : s₀.statusOf t r = s.statusOf t r ∧
      ¬ ((s.statusOf t r).any (· ∈ completedStatuses) = true ∧
        event.status.any (· ∈ startingStatuses) = true) ∨
    s₀.statusOf t r = none ∧ (s.getStagedTask t r).isSome = true ∧
      ∀ e, s.getTaskStateEntry t r = some e → event.status.any (· ∈ startingStatuses) = true

theorem openEntry_opened (hres : isReserved t = false)
    (hretry : wf.graph.getTaskRetrySpec t = none) (hs : Orderly t r s) (event : Event) :
    Outcome (openEntry wf t r event) (fun idx s₀ => At t r idx s₀ ∧ Opened t r event s s₀)
      (fun _ s' => Apart t r s s') s := by
  refine (openEntry_outcome wf t r event s).mono ?_ fun _ _ h => h.apart
  rintro idx s₀ ⟨hidx, ⟨rfl, _, e, he, hnot⟩ | ⟨x, hx, hstart, hold⟩⟩
  · have hstatus : s₀.statusOf t r = e.status := by
      rw [Conductor.statusOf, he]
      rfl
    exact ⟨hidx, hs, rfl, Or.inl ⟨rfl, hstatus ▸ hnot⟩⟩
  · refine ⟨hidx, ?_⟩
    have hstatus : s₀.statusOf t r = none := by
      obtain ⟨_, e, he, hst⟩ := hstart.entry
      unfold Conductor.statusOf
      rw [he, Option.bind_some, hst]
    obtain ⟨s₁, e, halloc, rfl, rfl, rfl, _, _, _, _, _, hnone⟩ := hstart
    refine ⟨((halloc.apart.orderly hs).pushEntry fun _ => hnone hretry), ?_, Or.inr ⟨hstatus, ?_⟩⟩
    · obtain ⟨_, _, _, _, _, rfl⟩ := halloc
      rfl
    · exact ⟨by rw [hx]; rfl, fun e' he' => (hold hres e' he').2⟩

/-- The event is processed for the entry. -/
structure Processed (t : String) (r : ℕ) (e : TaskState) (event : Event) (s₁ s' : Conductor) :
    Prop where
  orderly : Orderly t r s'
  staged : s'.staged = s₁.staged
  status : s'.statusOf t r = nextOr e (TaskStateMachine.nextStatus s₁ e event)

theorem process_processed (spec : TaskSpec) {idx : ℕ} {e : TaskState} (hs : Orderly t r s₁)
    (hidx : At t r idx s₁) (he : s₁.sequence[idx]? = some e) (event : Event) :
    Outcome (do
        let old ← statusAt idx
        TaskStateMachine.processEvent idx event
        let new ← statusAt idx
        return (⟨spec, idx, old, new⟩ : Progress))
      (fun p s' => At t r p.idx s' ∧ Processed t r e event s₁ s')
      (fun _ s' => Processed t r e event s₁ s') s₁ := by
  have hsame : nextOr e (TaskStateMachine.nextStatus s₁ e event) = e.status →
      Processed t r e event s₁ s₁ := fun h => ⟨hs, rfl, h ▸ statusOf_at hidx he⟩
  rw [outcome_bind, statusAt, outcome_bind, outcome_get, outcome_pure, outcome_bind]
  refine (processEvent_outcome idx event s₁).mono ?_ ?_
  · rintro _ s' ⟨e', he', ⟨hnext, rfl⟩ | ⟨st, hnext, rfl⟩⟩
    · cases he.symm.trans he'
      simp only [outcome_bind, outcome_get, outcome_pure]
      exact ⟨hidx, hsame (by rw [hnext]; rfl)⟩
    · cases he.symm.trans he'
      simp only [outcome_bind, outcome_get, outcome_pure]
      have hidx' : At t r idx (s₁.updateEntry idx fun e => { e with status := some st }) := hidx
      have he' : (s₁.updateEntry idx fun e => { e with status := some st }).sequence[idx]? =
          some { e with status := some st } := by
        show (s₁.sequence.modify _ _)[_]? = _
        rw [Positions.getElem?_modify, if_pos rfl, he, Option.map_some]
      refine ⟨hidx', hs.updateEntry ?_ idx, rfl, ?_⟩
      · exact fun _ => rfl
      · rw [statusOf_at hidx' he', hnext]
        rfl
  · rintro x s' ⟨rfl, hnone | ⟨e', he', hnext⟩⟩
    · rw [he] at hnone
      cases hnone
    · cases he.symm.trans he'
      exact hsame (by rw [hnext]; rfl)

/-- What an event of the item does to the task before its new status is followed up: nothing;
or it finds no record with items; or it is recorded. -/
inductive Reported (t : String) (r : ℕ) (k : ℕ) (st : Option Status) (s s' : Conductor) : Prop
  | ignored (h : Apart t r s s')
  | unknown (hrecord : ∀ x, s'.getStagedTask t r = some x → x.Untouched)
      (hstatus : s'.statusOf t r = some succeeded → s.statusOf t r = some succeeded)
  | recorded {x x' : StagedTask} {items : List (Option Status)} {e : TaskState}
      (hx : s.getStagedTask t r = some x) (hitems : x.items = some items) (hk : k < items.length)
      (hx' : s'.getStagedTask t r = some x') (hitems' : x'.items = some (items.set k st))
      (hold : e.status = s.statusOf t r ∧
          ¬ ((s.statusOf t r).any (· ∈ completedStatuses) = true ∧
            st.any (· ∈ startingStatuses) = true) ∨
        e.status = none ∧
          ∀ e, s.getTaskStateEntry t r = some e → st.any (· ∈ startingStatuses) = true)
      (hstatus : s'.statusOf t r = afterItem e (items.set k st) k st)

theorem unstageOnEvent_apart (hretry : wf.graph.getTaskRetrySpec t = none)
    (event : Event) : Moves (Apart t r) (unstageOnEvent t r event) :=
  moves_apart hretry (unstageOnEvent_writes t r event)

/-- The first staged record is changed. -/
theorem records_updateStaged_first {f : StagedTask → StagedTask}
    (hf : ∀ x, (f x).id = x.id ∧ (f x).route = x.route) {i : ℕ} (hi : s.stagedIdx t r = some i) :
    (s.updateStaged i f).records t r = (s.records t r).modify 0 f := by
  refine Positions.filter_modify_findIdx? (fun x => ?_) hi
  obtain ⟨hid, hroute⟩ := hf x
  rw [hid, hroute]

/-- The event is recorded in the first staged record. -/
theorem recorded_first {i k : ℕ} {st : Option Status} {x : StagedTask}
    {items : List (Option Status)} (hs : Orderly t r s₀) (hi : s₀.stagedIdx t r = some i)
    (hx : s₀.staged[i]? = some x)
    (hlog : OnlyLog (s₀.updateStaged i fun x => { x with items := some (items.set k st) }) s₁) :
    Orderly t r s₁ ∧
      s₁.getStagedTask t r = some { x with items := some (items.set k st) } := by
  unfold OnlyLog at hlog
  have hrecords : s₁.records t r =
      (s₀.records t r).modify 0 fun x => { x with items := some (items.set k st) } := by
    rw [hlog]
    refine records_updateStaged_first ?_ hi
    exact fun _ => ⟨rfl, rfl⟩
  have hhead : (s₀.records t r).head? = some x := by
    rw [← Conductor.getStagedTask_eq_head?]
    exact (getStagedTask_eq hi).trans hx
  obtain ⟨rest, hrest⟩ : ∃ rest, s₀.records t r = x :: rest := by
    cases hxs : s₀.records t r with
    | nil =>
      rw [hxs] at hhead
      cases hhead
    | cons y ys =>
      rw [hxs] at hhead
      cases hhead
      exact ⟨ys, rfl⟩
  rw [hrest, List.modify_zero_cons] at hrecords
  refine ⟨⟨?_, ?_, ?_⟩, ?_⟩
  · rw [hlog]
    exact hs.last
  · rw [hlog]
    exact hs.noRetry
  · have hbehind := hs.behind
    rw [hrest] at hbehind
    rw [hrecords]
    exact hbehind
  · rw [Conductor.getStagedTask_eq_head?, hrecords]
    rfl

namespace Opened

variable {event : Event}

theorem getStagedTask (h : Opened t r event s s₀) :
    s₀.getStagedTask t r = s.getStagedTask t r := by
  rw [Conductor.getStagedTask_eq_head?, Conductor.getStagedTask_eq_head?,
    records_of_staged h.staged]

/-- The entry that is open. -/
theorem entry (h : Opened t r event s s₀) {idx : ℕ} (hidx : At t r idx s₀) :
    ∃ e, s₀.sequence[idx]? = some e ∧ e.id = t ∧ e.route = r ∧
      (e.status = s.statusOf t r ∧
          ¬ ((s.statusOf t r).any (· ∈ completedStatuses) = true ∧
            event.status.any (· ∈ startingStatuses) = true) ∨
        e.status = none ∧ (s.getStagedTask t r).isSome = true ∧
          ∀ e, s.getTaskStateEntry t r = some e →
            event.status.any (· ∈ startingStatuses) = true) := by
  obtain ⟨e, he, hid, hroute⟩ := h.orderly.last t r idx hidx
  have hstatus := h.status
  rw [statusOf_at hidx he] at hstatus
  exact ⟨e, he, hid, hroute, hstatus⟩

end Opened

/-- What the event leads to, when it was recorded or found nothing to be recorded in. -/
theorem process_reported {k : ℕ} {st : Option Status} {result accumulated : Json} {idx : ℕ}
    {e : TaskState} (spec : TaskSpec) (hs : Orderly t r s₁) (hidx : At t r idx s₁)
    (he : s₁.sequence[idx]? = some e)
    (hprocessed : ∀ s', Processed t r e (.item k st result accumulated) s₁ s' →
      Reported t r k st s s') :
    Outcome (do
        let old ← statusAt idx
        TaskStateMachine.processEvent idx (.item k st result accumulated)
        let new ← statusAt idx
        return (⟨spec, idx, old, new⟩ : Progress))
      (fun p s' => At t r p.idx s' ∧ Orderly t r s' ∧ Reported t r k st s s')
      (fun _ s' => Orderly t r s' ∧ Reported t r k st s s') s₁ := by
  refine (process_processed spec hs hidx he _).mono ?_ ?_
  · rintro p s' ⟨hidx', h⟩
    exact ⟨hidx', h.orderly, hprocessed s' h⟩
  · intro _ s' h
    exact ⟨h.orderly, hprocessed s' h⟩

theorem beginUpdate_item (hres : isReserved t = false)
    (hretry : wf.graph.getTaskRetrySpec t = none) (hs : Orderly t r s) {k : ℕ}
    (hknown : ∀ x items, s.getStagedTask t r = some x → x.items = some items → k < items.length)
    (st : Option Status) (result accumulated : Json) :
    Outcome (beginUpdate wf t r (.item k st result accumulated))
      (fun p s' => At t r p.idx s' ∧ Orderly t r s' ∧ Reported t r k st s s')
      (fun _ s' => Orderly t r s' ∧ Reported t r k st s s') s := by
  unfold beginUpdate
  split
  · exact ⟨hs, .ignored (refl_of (Apart t r) s)⟩
  · simp only [outcome_bind, outcome_get]
    refine outcome_lift.mpr ⟨fun spec _ => ?_, fun _ _ => ⟨hs, .ignored (refl_of (Apart t r) s)⟩⟩
    split
    · exact ⟨hs, .ignored (refl_of (Apart t r) s)⟩
    · rw [outcome_bind]
      refine (openEntry_opened hres hretry hs _).mono ?_ fun _ _ h => ⟨h.orderly hs, .ignored h⟩
      rintro idx s₀ ⟨hidx, hopened⟩
      obtain ⟨e, he, rfl, rfl, hold⟩ := hopened.entry hidx
      rw [outcome_bind]
      refine (recordEvent_item e.id e.route k st result accumulated s₀).mono ?_ ?_
      · rintro _ s₁ (⟨hnone, hlog⟩ | ⟨i, x, items, hi, hx, hitems, hk, hlog⟩)
        · -- no record of the task is staged
          have horderly := hlog.apart.orderly hopened.orderly
          unfold OnlyLog at hlog
          have hnone₁ : s₁.getStagedTask e.id e.route = none := by
            rw [hlog]
            exact hnone
          have hidx₁ : At e.id e.route idx s₁ := by
            rw [hlog]
            exact hidx
          have he₁ : s₁.sequence[idx]? = some e := by
            rw [hlog]
            exact he
          refine process_reported spec horderly hidx₁ he₁ fun s' h => ?_
          have hnone' : s'.getStagedTask e.id e.route = none := by
            rw [Conductor.getStagedTask_eq_head?, records_of_staged h.staged,
              ← Conductor.getStagedTask_eq_head?]
            exact hnone₁
          refine .unknown (fun x hx => ?_) fun hsucceeded => ?_
          · rw [hnone'] at hx
            cases hx
          · rw [h.status] at hsucceeded
            have hwas := nextStatus_item_none hnone₁ st result accumulated hsucceeded
            rcases hold with ⟨heq, _⟩ | ⟨_, hsome, _⟩
            · exact heq.symm.trans hwas
            · rw [← hopened.getStagedTask, hnone] at hsome
              cases hsome
        · obtain ⟨horderly, hx₁⟩ := recorded_first hopened.orderly hi hx hlog
          unfold OnlyLog at hlog
          have hidx₁ : At e.id e.route idx s₁ := by
            rw [hlog]
            exact hidx
          have he₁ : s₁.sequence[idx]? = some e := by
            rw [hlog]
            exact he
          refine process_reported spec horderly hidx₁ he₁ fun s' h => ?_
          have hx' : s'.getStagedTask e.id e.route =
              some { x with items := some (items.set k st) } := by
            rw [Conductor.getStagedTask_eq_head?, records_of_staged h.staged,
              ← Conductor.getStagedTask_eq_head?]
            exact hx₁
          refine .recorded (e := e) ?_ hitems hk hx' rfl ?_ ?_
          · rw [← hopened.getStagedTask]
            exact (getStagedTask_eq hi).trans hx
          · exact hold.imp_right fun h => ⟨h.1, h.2.2⟩
          · rw [h.status]
            exact nextStatus_item hx₁ rfl (by rwa [List.length_set]) st result accumulated
      · rintro _ s₁ ⟨x, hx, ⟨hitems, rfl⟩ | ⟨items, hitems, hle, rfl⟩⟩
        · -- the record has no items
          have hunstage := unstageOnEvent_apart (r := e.route) hretry
            (.item k st result accumulated) s₀
          refine ⟨hunstage.orderly hopened.orderly, .unknown (fun x' hx' => ?_) fun h => ?_⟩
          · rcases hunstage.head hopened.orderly hx' with hnew | ⟨y, hy, heq⟩
            · exact hnew
            · rw [hx] at hy
              cases hy
              intro items' hitems'
              rw [heq, hitems] at hitems'
              cases hitems'
          · rcases hunstage.told hopened.orderly with heq | ⟨_, hnew⟩
            · rw [heq, statusOf_at hidx he] at h
              rcases hold with ⟨hsame, _⟩ | ⟨hnone, _⟩
              · exact hsame.symm.trans h
              · rw [hnone] at h
                cases h
            · rw [h] at hnew
              cases hnew
        · rw [hopened.getStagedTask] at hx
          exact absurd (hknown x items hx hitems) (Nat.not_lt.mpr hle)

end

/-! ## The task and its items -/

/-- The statuses of the items in the staged record of the task. -/
def Conductor.itemsOf (t : String) (r : ℕ) (s : Conductor) : Option (List (Option Status)) :=
  (s.getStagedTask t r).bind StagedTaskOf.items

/-- **The task agrees with its items**: it is completed when they all are, and if it has
succeeded then they all have, unless they are new ones that none was reported of. -/
structure AgreesWithItems (t : String) (r : ℕ) (s : Conductor) : Prop where
  completed : ∀ items, s.itemsOf t r = some items → items ≠ [] → allCompleted items = true →
    (s.statusOf t r).any (· ∈ completedStatuses) = true
  succeeded : s.statusOf t r = some succeeded → ∀ items, s.itemsOf t r = some items →
    (∀ st ∈ items, st = some .unset) ∨ allSucceeded items = true

/-- The task succeeds only with an event of an item after which every item succeeded. -/
def SucceedsWithItems (t : String) (r : ℕ) (s : Conductor) (c : Call) (s' : Conductor) : Prop :=
  s'.statusOf t r = some succeeded → s.statusOf t r = some succeeded ∨
    ∃ k st result accumulated items, c = .updateTaskState t r (.item k st result accumulated) ∧
      s.itemsOf t r = some items ∧ k < items.length ∧ allSucceeded (items.set k st) = true

/-- The event is for one of the items.  If it completes the last one then the task is in a
status whose row has such an event in it, or is completed; and if the task has succeeded
before then it starts the task again. -/
def expectedOf (status : Option Status) (items : List (Option Status)) (k : ℕ)
    (st : Option Status) : Bool :=
  decide (k < items.length) &&
    (!allCompleted (items.set k st) ||
      status.any (· ∈ [running, pausing, canceling] ++ completedStatuses)) &&
    (!decide (status = some succeeded) || st.any (· ∈ startingStatuses) ||
      allSucceeded (items.set k st))

/-- Any call but an event of an item of the task that is not to be expected. -/
def Call.expected (t : String) (r : ℕ) (s : Conductor) : Call → Bool
  | .updateTaskState t' r' (.item k st _ _) =>
    !decide (t' = t ∧ r' = r) ||
      (s.itemsOf t r).all fun items => expectedOf (s.statusOf t r) items k st
  | _ => true

/-- What the task is told, it is told by its items. -/
def Call.byItems (t : String) (r : ℕ) : Call → Bool
  | .updateTaskState _ _ (.item _ _ _ _) => true
  | .updateTaskState t' r' _ => !decide (t' = t ∧ r' = r)
  | _ => true

section

variable {wf : Workflow} {t : String} {r : ℕ} {s s' : Conductor}

theorem Apart.itemsOf (h : Apart t r s s') (hs : Orderly t r s) {items : List (Option Status)}
    (hitems : s'.itemsOf t r = some items) :
    (∀ st ∈ items, st = some .unset) ∨ s.itemsOf t r = some items := by
  obtain ⟨x', hx', hitems⟩ := Option.bind_eq_some_iff.mp hitems
  rcases h.head hs hx' with hnew | ⟨x, hx, heq⟩
  · exact Or.inl (hnew items hitems)
  · refine Or.inr (Option.bind_eq_some_iff.mpr ⟨x, hx, ?_⟩)
    rw [← heq]
    exact hitems

theorem not_allCompleted_of_untouched {items : List (Option Status)} (hne : items ≠ [])
    (h : ∀ st ∈ items, st = some .unset) : allCompleted items = false := by
  cases items with
  | nil => exact absurd rfl hne
  | cons st items =>
    rw [h st List.mem_cons_self]
    rfl

/-- What the task was told did not make it succeed, and it was not completed before. -/
theorem Told.succeeded {st st' : Option Status} (h : Told st st') (h' : st' = some succeeded) :
    st = some succeeded := by
  rcases h with rfl | ⟨_, hnew⟩
  · exact h'
  · rw [h'] at hnew
    cases hnew

theorem Told.completed {st st' : Option Status} (h : Told st st')
    (hst : st.any (· ∈ completedStatuses) = true) : st' = st := by
  rcases h with heq | ⟨hold, _⟩
  · exact heq
  · obtain ⟨st, rfl, hcompleted⟩ := (Option.any_eq_true _ _).mp hst
    exact absurd (of_decide_eq_true hcompleted) (of_decide_eq_true hold)

theorem Apart.agrees (h : Apart t r s s') (hs : Orderly t r s) (hagrees : AgreesWithItems t r s) :
    AgreesWithItems t r s' := by
  refine ⟨fun items hitems hne hall => ?_, fun hsucceeded items hitems => ?_⟩
  · rcases h.itemsOf hs hitems with hnew | hsame
    · rw [not_allCompleted_of_untouched hne hnew] at hall
      cases hall
    · have hold := hagrees.completed items hsame hne hall
      rw [(h.told hs).completed hold]
      exact hold
  · rcases h.itemsOf hs hitems with hnew | hsame
    · exact Or.inl hnew
    · exact hagrees.succeeded ((h.told hs).succeeded hsucceeded) items hsame

theorem allSucceeded_set {items : List (Option Status)} {k : ℕ}
    (h : allSucceeded ((items.set k (some succeeded)).eraseIdx k) = true) :
    allSucceeded (items.set k (some succeeded)) = true := by
  refine List.all_eq_true.mpr fun st hst => ?_
  obtain ⟨i, hi⟩ := List.mem_iff_getElem?.mp hst
  by_cases hik : i = k
  · subst hik
    obtain ⟨hlt, _⟩ := List.getElem?_eq_some_iff.mp hi
    rw [List.getElem?_set_self (by rwa [List.length_set] at hlt)] at hi
    obtain rfl := Option.some.inj hi
    exact decide_eq_true rfl
  · refine List.all_eq_true.mp h st (List.mem_eraseIdx_iff_getElem?.mpr ⟨i, ?_, hi⟩)
    exact hik

theorem allCompleted_set {items : List (Option Status)} {k : ℕ} {st : Option Status}
    (hk : k < items.length) (h : allCompleted (items.set k st) = true) :
    st.any (· ∈ completedStatuses) = true ∧
      allCompleted ((items.set k st).eraseIdx k) = true := by
  have hall := List.all_eq_true.mp h
  refine ⟨hall st (List.mem_set hk st), List.all_eq_true.mpr fun st' hst' => hall st' ?_⟩
  exact List.mem_of_mem_eraseIdx hst'

theorem not_completed_of_any_starting {st : Option Status}
    (h : st.any (· ∈ startingStatuses) = true) : st.any (· ∈ completedStatuses) = false := by
  obtain ⟨st, rfl, hstarting⟩ := (Option.any_eq_true _ _).mp h
  exact decide_eq_false (Status.not_completed_of_starting (of_decide_eq_true hstarting))

/-- **An event of an item** that is to be expected. -/
theorem Reported.agrees {k : ℕ} {st : Option Status} (h : Reported t r k st s s')
    (hs : Orderly t r s) (hagrees : AgreesWithItems t r s)
    (hexpected : ∀ items, s.itemsOf t r = some items →
      expectedOf (s.statusOf t r) items k st = true) :
    AgreesWithItems t r s' ∧ (s'.statusOf t r = some succeeded → s.statusOf t r = some succeeded ∨
      ∃ items, s.itemsOf t r = some items ∧ k < items.length ∧
        allSucceeded (items.set k st) = true) := by
  cases h with
  | ignored h =>
    exact ⟨h.agrees hs hagrees, fun hsucceeded => Or.inl ((h.told hs).succeeded hsucceeded)⟩
  | unknown hrecord hstatus =>
    have hnew : ∀ items, s'.itemsOf t r = some items → ∀ st ∈ items, st = some .unset := by
      intro items hitems
      obtain ⟨x, hx, hitems⟩ := Option.bind_eq_some_iff.mp hitems
      exact hrecord x hx items hitems
    refine ⟨⟨fun items hitems hne hall => ?_, fun _ items hitems => Or.inl (hnew items hitems)⟩,
      fun hsucceeded => Or.inl (hstatus hsucceeded)⟩
    rw [not_allCompleted_of_untouched hne (hnew items hitems)] at hall
    cases hall
  | @recorded x x' items e hx hitems hk hx' hitems' hold hstatus =>
    have hwas : s.itemsOf t r = some items := by
      rw [Conductor.itemsOf, hx]
      exact hitems
    have hare : s'.itemsOf t r = some (items.set k st) := by
      rw [Conductor.itemsOf, hx']
      exact hitems'
    have hexp := hexpected items hwas
    unfold expectedOf at hexp
    rw [Bool.and_eq_true, Bool.and_eq_true] at hexp
    obtain ⟨⟨_, hfinishes⟩, hagain⟩ := hexp
    -- what makes the task succeed
    have hsucceeds : s'.statusOf t r = some succeeded → allSucceeded (items.set k st) = true := by
      intro hsucceeded
      rw [hstatus] at hsucceeded
      rcases afterItem_succeeded hsucceeded with hbefore | ⟨rfl, hothers⟩
      · rcases hold with ⟨heq, hnot⟩ | ⟨hnone, _⟩
        · rw [← heq, hbefore] at hagain hnot
          rcases Bool.or_eq_true_iff.mp hagain with hstarts | hall
          · exact absurd ⟨rfl, hstarts⟩ hnot
          · exact hall
        · rw [hnone] at hbefore
          cases hbefore
      · exact allSucceeded_set hothers
    refine ⟨⟨fun items' hitems' hne hall => ?_, fun hsucceeded items' hitems' => ?_⟩,
      fun hsucceeded => Or.inr ⟨items, hwas, hk, hsucceeds hsucceeded⟩⟩
    · obtain rfl := Option.some.inj (hare.symm.trans hitems')
      obtain ⟨hdone, hothers⟩ := allCompleted_set hk hall
      rw [hstatus]
      refine afterItem_completed hdone hothers ?_
      rw [hall] at hfinishes
      rcases hold with ⟨heq, _⟩ | ⟨_, hstarts⟩
      · rw [heq]
        exact hfinishes
      · -- the event that completes the last item does not start the task again
        cases hentry : s.getTaskStateEntry t r with
        | none =>
          rw [Conductor.statusOf, hentry] at hfinishes
          cases hfinishes
        | some e' =>
          rw [not_completed_of_any_starting (hstarts e' hentry)] at hdone
          cases hdone
    · obtain rfl := Option.some.inj (hare.symm.trans hitems')
      exact Or.inr (hsucceeds hsucceeded)

/-! ## Runs -/

theorem Apart.step_agrees (h : Apart t r s s') (hs : Orderly t r s) (hagrees : AgreesWithItems t r s)
    (c : Call) :
    Orderly t r s' ∧ AgreesWithItems t r s' ∧ SucceedsWithItems t r s c s' :=
  ⟨h.orderly hs, h.agrees hs hagrees, fun hsucceeded => Or.inl ((h.told hs).succeeded hsucceeded)⟩

/-- An event of an item, and what follows from the new status. -/
theorem updateTaskStateTo_agrees (hres : isReserved t = false)
    (hretry : wf.graph.getTaskRetrySpec t = none) (hs : Orderly t r s)
    (hagrees : AgreesWithItems t r s) {k : ℕ} {st : Option Status}
    (hexpected : ∀ items, s.itemsOf t r = some items →
      expectedOf (s.statusOf t r) items k st = true) (result accumulated : Json) (n : ℕ) :
    let c := Call.updateTaskState t r (.item k st result accumulated)
    let s' := after (updateTaskStateTo wf (n + 1) t r (.item k st result accumulated)) s
    Orderly t r s' ∧ AgreesWithItems t r s' ∧ SucceedsWithItems t r s c s' := by
  intro c s'
  have hknown : ∀ x items, s.getStagedTask t r = some x → x.items = some items →
      k < items.length := by
    intro x items hx hitems
    have hof : s.itemsOf t r = some items := by
      rw [Conductor.itemsOf, hx]
      exact hitems
    have hexp := hexpected items hof
    unfold expectedOf at hexp
    rw [Bool.and_eq_true, Bool.and_eq_true] at hexp
    exact of_decide_eq_true hexp.1.1
  have hreported : ∀ {s₁}, Orderly t r s₁ → Reported t r k st s s₁ →
      Orderly t r s₁ ∧ AgreesWithItems t r s₁ ∧ SucceedsWithItems t r s c s₁ := by
    intro s₁ hs₁ h
    obtain ⟨hagrees₁, hsucceeds⟩ := h.agrees hs hagrees hexpected
    refine ⟨hs₁, hagrees₁, fun hsucceeded => (hsucceeds hsucceeded).imp_right ?_⟩
    rintro ⟨items, hitems, hk, hall⟩
    exact ⟨k, st, result, accumulated, items, rfl, hitems, hk, hall⟩
  rw [← outcome_after (P := fun s' => Orderly t r s' ∧ AgreesWithItems t r s' ∧
    SucceedsWithItems t r s c s'), updateTaskStateTo_succ, outcome_bind]
  refine (beginUpdate_item hres hretry hs hknown st result accumulated).mono ?_ ?_
  · rintro p s₁ ⟨hidx, hs₁, h⟩
    obtain ⟨_, hagrees₁, hsucceeds⟩ := hreported hs₁ h
    have hthen : ∀ {s₂}, Apart t r s₁ s₂ →
        Orderly t r s₂ ∧ AgreesWithItems t r s₂ ∧ SucceedsWithItems t r s c s₂ := fun h₂ =>
      ⟨h₂.orderly hs₁, h₂.agrees hs₁ hagrees₁, fun hsucceeded =>
        hsucceeds ((h₂.told hs₁).succeeded hsucceeded)⟩
    exact (continueUpdate_apart hres hretry n _ p hs₁ hidx).mono (fun _ _ h₂ => hthen h₂)
      fun _ _ h₂ => hthen h₂
  · rintro _ s₁ ⟨hs₁, h⟩
    exact hreported hs₁ h

theorem step_agrees (hres : isReserved t = false) (hretry : wf.graph.getTaskRetrySpec t = none)
    (hs : Orderly t r s) (hagrees : AgreesWithItems t r s) {c : Call} (hby : c.byItems t r = true)
    (hexpected : c.expected t r s = true) :
    Orderly t r (step wf s c) ∧ AgreesWithItems t r (step wf s c) ∧
      SucceedsWithItems t r s c (step wf s c) := by
  cases c with
  | requestWorkflowStatus st =>
    exact (moves_apart hretry (requestWorkflowStatus_writes st) s).step_agrees hs hagrees _
  | getNextTasks =>
    exact (moves_apart hretry getNextTasks_writes s).step_agrees hs hagrees _
  | updateTaskState t' r' event =>
    by_cases hfor : t' = t ∧ r' = r
    · obtain ⟨rfl, rfl⟩ := hfor
      cases event with
      | item k st result accumulated =>
        refine updateTaskStateTo_agrees hres hretry hs hagrees (fun items hitems => ?_) _ _ _
        unfold Call.expected at hexpected
        simpa [hitems] using hexpected
      | workflow _ => simp [Call.byItems] at hby
      | task _ _ _ => simp [Call.byItems] at hby
      | action _ _ => simp [Call.byItems] at hby
      | operation _ => simp [Call.byItems] at hby
    · exact (updateTaskStateTo_apart hres hretry _ event hfor s).step_agrees hs hagrees _

end

/-- **A task agrees with its items** in a run in which its last item is not completed while
the task is in a status that does not expect that. -/
theorem items_agree {wf : Workflow} {t : String} (r : ℕ) {spec : TaskSpec}
    (hspec : wf.spec.getTask t = .ok spec) (hitems : spec.hasItems = true)
    (hretry : wf.graph.getTaskRetrySpec t = none) {calls : List Call}
    (hby : ∀ c ∈ calls, c.byItems t r = true)
    (hexpected : Run.Along (step wf) (fun s c => c.expected t r s = true) (.init wf) calls) :
    Run.Throughout (step wf) (AgreesWithItems t r) (.init wf) calls ∧
      Run.Along (step wf) (fun s c => SucceedsWithItems t r s c (step wf s c)) (.init wf) calls := by
  have hres : isReserved t = false := by
    unfold WorkflowSpec.getTask at hspec
    split at hspec
    · cases hspec
      cases hitems
    · rename_i h
      rwa [Bool.not_eq_true] at h
  have hstart : AgreesWithItems t r .empty :=
    ⟨fun _ h => (nomatch h), fun h => (nomatch h)⟩
  have hinit := init_apart (r := r) hretry
  have h₀ := hinit.orderly (Orderly.empty t r)
  have halong := (Run.along_const.mpr hby).and hexpected
  have hstep : ∀ s c, Orderly t r s ∧ AgreesWithItems t r s →
      c.byItems t r = true ∧ c.expected t r s = true →
      Orderly t r (step wf s c) ∧ AgreesWithItems t r (step wf s c) := fun s c hs hc =>
    have h := step_agrees hres hretry hs.1 hs.2 hc.1 hc.2
    ⟨h.1, h.2.1⟩
  refine ⟨?_, ?_⟩
  · exact (Run.throughout_of_along hstep ⟨h₀, hinit.agrees (Orderly.empty t r) hstart⟩
      halong).mono fun _ h => h.2
  · exact Run.along_of_inv hstep
      (fun s c hs hc => (step_agrees hres hretry hs.1 hs.2 hc.1 hc.2).2.2)
      ⟨h₀, hinit.agrees (Orderly.empty t r) hstart⟩ halong

/-! ### A task with one item -/

/-- A workflow of one task, which has one item. -/
def oneItem : Workflow where
  spec := ⟨[], [], [("task1",
    ⟨none, none, some ⟨none, .list [.str "x"], .null⟩, .str "core.noop", .dict [], none, []⟩)]⟩
  graph := ⟨[("task1", ⟨none, none⟩)], []⟩
  inputs := []
  parentCtx := []
  evaluator := fun s _ => .ok (.str s)
  composed := ⟨2, rfl⟩

/-- The first item of the task has the status. -/
def firstItem (st : Status) : Call :=
  .updateTaskState "task1" 0 (.item 0 (some st) .null .null)

def itemSucceeds : List Call :=
  [.requestWorkflowStatus (some running), .getNextTasks, firstItem running, firstItem succeeded]

theorem items_agree_itemSucceeds :
    Run.Throughout (step oneItem) (AgreesWithItems "task1" 0) (.init oneItem) itemSucceeds ∧
      Run.Along (step oneItem) (fun s c => SucceedsWithItems "task1" 0 s c (step oneItem s c))
        (.init oneItem) itemSucceeds :=
  items_agree 0 rfl rfl rfl (by decide) (by decide +kernel)

/-- The item is pending, and then it succeeds. -/
def pendingSucceeds : List Call :=
  [.requestWorkflowStatus (some running), .getNextTasks, firstItem running, firstItem pending,
    firstItem succeeded]

/-- All the items of the task succeeded, and it is paused. -/
theorem not_items_agree_pendingSucceeds :
    (∀ c ∈ pendingSucceeds, c.byItems "task1" 0 = true) ∧
      ¬ Run.Throughout (step oneItem) (AgreesWithItems "task1" 0) (.init oneItem)
        pendingSucceeds := by
  refine ⟨by decide, fun h => ?_⟩
  have hitems : (pendingSucceeds.foldl (step oneItem) (.init oneItem)).itemsOf "task1" 0 =
      some [some succeeded] := by decide +kernel
  have hstatus : (pendingSucceeds.foldl (step oneItem) (.init oneItem)).statusOf "task1" 0 =
      some paused := by decide +kernel
  have hcompleted := h.last.completed _ hitems (List.cons_ne_nil _ _) rfl
  rw [hstatus] at hcompleted
  cases hcompleted

end Orquesta
end IntegratedCLI
