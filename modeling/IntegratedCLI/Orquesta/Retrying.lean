import IntegratedCLI.Orquesta.Writes

/-!
# Retries are counted

An entry of a task with a retry has a record of its own, in which `tally` counts the
retries of the entry.  `update_task_state` counts a retry and stages the task again
whenever the status after the event is `RETRYING`, whether the event changed it or not.

`Ledger` is what holds of the records in every state that a run reaches, whatever the
events are.  `Calm` relates two states between which no retry is counted, and every write
is calm that is not about the status of an entry with a retry.  `Counts ks` relates the
states before and after an update that staged the entries at the positions `ks` again;
`restagedTo` are these positions.

An event that finds a task retrying and is recognized, but does not change the status, is
counted as a retry: `movesOn` is the condition that there is none.
-/

namespace IntegratedCLI
namespace Orquesta

open Effect Status

namespace Conductor

section

variable (s : Conductor) (i : ℕ)

/-- The record of the retries of the entry at the position. -/
def retryAt : Option Ref := (s.sequence[i]?).bind TaskStateOf.retry

/-- How often the entry was counted as retried. -/
def tallyAt : ℕ := (s.retryAt i).elim 0 fun x => (s.retry x).tally

def retryingAt : Bool := (s.sequence[i]?).any fun e => e.status = some retrying

end

theorem retryAt_eq {s : Conductor} {i : ℕ} {e : TaskState} (h : s.sequence[i]? = some e) :
    s.retryAt i = e.retry := by
  rw [retryAt, h, Option.bind_some]

theorem retryingAt_eq {s : Conductor} {i : ℕ} {e : TaskState} (h : s.sequence[i]? = some e) :
    s.retryingAt i = true ↔ e.status = some retrying := by
  rw [retryingAt, h, Option.any_some, decide_eq_true_iff]

end Conductor

/-! ## The ledger -/

/-- Every entry of a task with a retry has a record of its own, and no record counts more
retries than there may be. -/
structure Ledger (wf : Workflow) (s : Conductor) : Prop where
  own : s.sequence.filterMap TaskStateOf.retry = List.range s.retries.length
  given : ∀ e ∈ s.sequence, e.retry.isSome = (wf.graph.getTaskRetrySpec e.id).isSome
  last : ∀ t r i, s.taskStateIdx t r = some i →
    ∃ e, s.sequence[i]? = some e ∧ e.id = t ∧ e.route = r
  bound : ∀ x ∈ s.retries, (x.tally : ℤ) ≤ max 0 x.count

section Ledger

variable {wf : Workflow} {s s' : Conductor}

theorem Ledger.lt (h : Ledger wf s) {i : ℕ} {x : Ref} (hx : s.retryAt i = some x) :
    x < s.retries.length := by
  obtain ⟨e, he, hx⟩ := Option.bind_eq_some_iff.mp hx
  have hmem : x ∈ s.sequence.filterMap TaskStateOf.retry :=
    List.mem_filterMap.mpr ⟨e, List.mem_of_getElem? he, hx⟩
  rw [h.own] at hmem
  exact List.mem_range.mp hmem

/-- No two entries share a record. -/
theorem Ledger.distinct (h : Ledger wf s) {i j : ℕ} {x : Ref} (hi : s.retryAt i = some x)
    (hj : s.retryAt j = some x) : i = j := by
  obtain ⟨e, he, hx⟩ := Option.bind_eq_some_iff.mp hi
  obtain ⟨e', he', hx'⟩ := Option.bind_eq_some_iff.mp hj
  refine Positions.eq_of_filterMap_nodup ?_ he he' hx hx'
  rw [h.own]
  exact List.nodup_range

/-- What an entry is about for the ledger. -/
def TaskStateOf.booking (e : TaskState) : String × ℕ × Option Ref := (e.id, e.route, e.retry)

theorem booking_getElem? (h : s'.sequence.map TaskStateOf.booking =
      s.sequence.map TaskStateOf.booking) (i : ℕ) :
    (s'.sequence[i]?).map TaskStateOf.booking = (s.sequence[i]?).map TaskStateOf.booking := by
  rw [← List.getElem?_map, h, List.getElem?_map]

theorem retryAt_of_booking (h : s'.sequence.map TaskStateOf.booking =
      s.sequence.map TaskStateOf.booking) (i : ℕ) : s'.retryAt i = s.retryAt i := by
  have hi := booking_getElem? h i
  unfold Conductor.retryAt
  cases hs : s.sequence[i]? with
  | none =>
    rw [hs, Option.map_none, Option.map_eq_none_iff] at hi
    rw [hi]
  | some e =>
    rw [hs, Option.map_some] at hi
    obtain ⟨e', he', hbook⟩ := Option.map_eq_some_iff.mp hi
    rw [he']
    exact congrArg (fun b : String × ℕ × Option Ref => b.2.2) hbook

theorem Ledger.of_booking (h : Ledger wf s)
    (hbook : s'.sequence.map TaskStateOf.booking = s.sequence.map TaskStateOf.booking)
    (htasks : s'.tasks = s.tasks) (hretries : s'.retries = s.retries) : Ledger wf s' where
  own := by
    have hmap : ∀ s : Conductor, s.sequence.filterMap TaskStateOf.retry =
        (s.sequence.map TaskStateOf.booking).filterMap fun b => b.2.2 := by
      intro s
      rw [List.filterMap_map]
      rfl
    rw [hmap, hbook, ← hmap, h.own, hretries]
  given := by
    intro e' he'
    obtain ⟨i, hi⟩ := List.mem_iff_getElem?.mp he'
    have hi' := booking_getElem? hbook i
    rw [hi, Option.map_some] at hi'
    obtain ⟨e, he, hb⟩ := Option.map_eq_some_iff.mp hi'.symm
    obtain ⟨hid, hb⟩ := Prod.mk.inj hb
    obtain ⟨_, hretry⟩ := Prod.mk.inj hb
    rw [← hid, ← hretry]
    exact h.given e (List.mem_of_getElem? he)
  last := by
    intro t r i hi
    unfold Conductor.taskStateIdx at hi
    rw [htasks] at hi
    obtain ⟨e, he, hid, hroute⟩ := h.last t r i hi
    have hi' := booking_getElem? hbook i
    rw [he, Option.map_some] at hi'
    obtain ⟨e', he', hb⟩ := Option.map_eq_some_iff.mp hi'
    obtain ⟨hid', hb⟩ := Prod.mk.inj hb
    obtain ⟨hroute', _⟩ := Prod.mk.inj hb
    exact ⟨e', he', hid'.trans hid, hroute'.trans hroute⟩
  bound := hretries ▸ h.bound

/-! ### What counts no retry -/

/-- No retry is counted, and no entry with a retry begins to be retried. -/
structure Calm (s s' : Conductor) : Prop where
  kept : ∀ (i : ℕ) (e : TaskState), s.sequence[i]? = some e →
    ∃ e', s'.sequence[i]? = some e' ∧ e'.retry = e.retry
  records : s.retries <+: s'.retries
  tally : ∀ i, s'.tallyAt i = s.tallyAt i
  quiet : ∀ i, (s'.retryAt i).isSome → s'.retryingAt i = true → s.retryingAt i = true

/-- The ledger is kept, and no retry is counted. -/
def Calmly (wf : Workflow) (s s' : Conductor) : Prop := Ledger wf s → Ledger wf s' ∧ Calm s s'

instance : IsPreorder Conductor (Calmly wf) where
  refl _ h := ⟨h, fun _ e he => ⟨e, he, rfl⟩, List.prefix_rfl, fun _ => rfl, fun _ _ hi => hi⟩
  trans := by
    intro s₁ s₂ s₃ h h' h₁
    obtain ⟨h₂, hcalm⟩ := h h₁
    obtain ⟨h₃, hcalm'⟩ := h' h₂
    refine ⟨h₃, fun i e he => ?_, hcalm.records.trans hcalm'.records,
      fun i => (hcalm'.tally i).trans (hcalm.tally i), ?_⟩
    · obtain ⟨e₂, he₂, hretry⟩ := hcalm.kept i e he
      obtain ⟨e₃, he₃, hretry'⟩ := hcalm'.kept i e₂ he₂
      exact ⟨e₃, he₃, hretry'.trans hretry⟩
    · intro i hsome hret
      have hret₂ := hcalm'.quiet i hsome hret
      refine hcalm.quiet i ?_ hret₂
      obtain ⟨e₂, he₂, _⟩ := (Option.any_eq_true _ _).mp hret₂
      obtain ⟨e₃, he₃, hretry⟩ := hcalm'.kept i e₂ he₂
      rw [Conductor.retryAt_eq he₃, hretry] at hsome
      rw [Conductor.retryAt_eq he₂]
      exact hsome

/-- The entries may be written, but for what they are about and for a status of being
retried. -/
theorem calmly_of_booking
    (hbook : s'.sequence.map TaskStateOf.booking = s.sequence.map TaskStateOf.booking)
    (htasks : s'.tasks = s.tasks) (hretries : s'.retries = s.retries)
    (hquiet : ∀ i, (s'.retryAt i).isSome → s'.retryingAt i = true → s.retryingAt i = true) :
    Calmly wf s s' := by
  intro h
  refine ⟨h.of_booking hbook htasks hretries, fun i e he => ?_, ?_, fun i => ?_, hquiet⟩
  · have hi := booking_getElem? hbook i
    rw [he, Option.map_some] at hi
    obtain ⟨e', he', hb⟩ := Option.map_eq_some_iff.mp hi
    exact ⟨e', he', congrArg (fun b : String × ℕ × Option Ref => b.2.2) hb⟩
  · simp only [hretries, List.prefix_rfl]
  · unfold Conductor.tallyAt Conductor.retry
    rw [retryAt_of_booking hbook, hretries]

/-- The entries are not written. -/
theorem calmly_of_sequence (hseq : s'.sequence = s.sequence) (htasks : s'.tasks = s.tasks)
    (hretries : s'.retries = s.retries) : Calmly wf s s' := by
  refine calmly_of_booking (by rw [hseq]) htasks hretries fun i _ hret => ?_
  unfold Conductor.retryingAt at hret ⊢
  rw [← hseq]
  exact hret

theorem calmly_note (i : ℕ) {f : TaskState → TaskState} (hf : ∀ e, (f e).booking = e.booking)
    (hst : ∀ e, (f e).status = e.status) (s : Conductor) : Calmly wf s (s.updateEntry i f) := by
  refine calmly_of_booking (Positions.map_modify hf) rfl rfl fun j _ hret => ?_
  have hmap : (s.updateEntry i f).sequence.map TaskStateOf.status =
      s.sequence.map TaskStateOf.status := Positions.map_modify hst
  have hany : ∀ s : Conductor, s.retryingAt j =
      ((s.sequence.map TaskStateOf.status)[j]?).any fun st => st = some retrying := by
    intro s
    rw [Conductor.retryingAt, List.getElem?_map]
    cases s.sequence[j]? <;> rfl
  rw [hany, ← hmap, ← hany]
  exact hret

/-- A status is written, of an entry without a retry or other than being retried. -/
theorem calmly_status {i : ℕ} {e : TaskState} {st : Status} (he : s.sequence[i]? = some e)
    (h : e.retry = none ∨ st ≠ retrying) :
    Calmly wf s (s.updateEntry i fun e => { e with status := some st }) := by
  have hbook : (s.updateEntry i fun e => { e with status := some st }).sequence.map
      TaskStateOf.booking = s.sequence.map TaskStateOf.booking := by
    refine Positions.map_modify ?_
    exact fun _ => rfl
  refine calmly_of_booking hbook rfl rfl fun j hsome hret => ?_
  rw [retryAt_of_booking hbook] at hsome
  have hj : (s.updateEntry i fun e => { e with status := some st }).sequence[j]? =
      if i = j then (s.sequence[j]?).map fun e => { e with status := some st }
      else s.sequence[j]? := Positions.getElem?_modify _ _ _ _
  by_cases hij : i = j
  · subst hij
    rw [if_pos rfl, he, Option.map_some] at hj
    rw [Conductor.retryAt_eq he] at hsome
    rcases h with h | h
    · rw [h] at hsome
      cases hsome
    · exact absurd (Option.some.inj ((Conductor.retryingAt_eq hj).mp hret)) h
  · rw [if_neg hij] at hj
    unfold Conductor.retryingAt at hret ⊢
    rw [← hj]
    exact hret

/-- A new entry has no status, and a record with nothing counted. -/
theorem calmly_start {e : TaskState} {q : List Retry} (hst : e.status = none)
    (hretry : wf.graph.getTaskRetrySpec e.id = none ∧ e.retry = none ∧ q = [] ∨
      (∃ spec, wf.graph.getTaskRetrySpec e.id = some spec) ∧
        ∃ x : Retry, x.tally = 0 ∧ q = [x] ∧ e.retry = some s.retries.length) :
    Calmly wf s (pushEntry e { s with retries := s.retries ++ q }) := by
  intro h
  have hseq : ∀ {i : ℕ} {e' : TaskState}, s.sequence[i]? = some e' →
      (s.sequence ++ [e])[i]? = some e' := by
    intro i e' he'
    obtain ⟨hlt, _⟩ := List.getElem?_eq_some_iff.mp he'
    rw [List.getElem?_append_left hlt, he']
  have hnew : ∀ {i : ℕ} {e' : TaskState}, s.sequence[i]? = none →
      (s.sequence ++ [e])[i]? = some e' → e' = e := by
    intro i e' hi he'
    rw [List.getElem?_append_right (List.getElem?_eq_none_iff.mp hi)] at he'
    exact List.mem_singleton.mp (List.mem_of_getElem? he')
  have hold : ∀ x < s.retries.length, (s.retries ++ q)[x]? = s.retries[x]? :=
    fun x hx => List.getElem?_append_left hx
  refine ⟨⟨?_, ?_, ?_, ?_⟩, fun i e' he' => ⟨e', hseq he', rfl⟩, List.prefix_append _ _,
    fun i => ?_, fun i _ hret => ?_⟩
  · show (s.sequence ++ [e]).filterMap _ = List.range (s.retries ++ q).length
    rw [List.filterMap_append, h.own]
    rcases hretry with ⟨_, hnone, rfl⟩ | ⟨_, x, _, rfl, hx⟩
    · rw [List.append_nil, List.filterMap_cons_none hnone, List.filterMap_nil, List.append_nil]
    · rw [List.filterMap_cons_some hx, List.filterMap_nil, List.length_append,
        List.length_singleton, List.range_succ]
  · intro e' he'
    rcases List.mem_append.mp he' with he' | he'
    · exact h.given e' he'
    · rw [List.mem_singleton.mp he']
      rcases hretry with ⟨hspec, hnone, _⟩ | ⟨⟨spec, hspec⟩, x, _, _, hx⟩
      · rw [hspec, hnone]
        rfl
      · rw [hspec, hx]
        rfl
  · intro t r i hi
    have hi' : (Dict.put s.tasks ⟨e.id, e.route⟩ s.sequence.length).lookup ⟨t, r⟩ = some i := hi
    rw [Dict.lookup_put] at hi'
    split at hi'
    · rename_i hkey
      cases hkey
      cases hi'
      exact ⟨e, List.getElem?_concat_length, rfl, rfl⟩
    · obtain ⟨e', he', hid⟩ := h.last t r i hi'
      exact ⟨e', hseq he', hid⟩
  · intro x hx
    rcases List.mem_append.mp hx with hx | hx
    · exact h.bound x hx
    · rcases hretry with ⟨_, _, rfl⟩ | ⟨_, y, hy, rfl, _⟩
      · cases hx
      · rw [List.mem_singleton.mp hx, hy]
        exact le_max_left _ _
  · show ((s.sequence ++ [e])[i]?.bind TaskStateOf.retry).elim 0
      (fun x => ((s.retries ++ q)[x]?.getD _).tally) = _
    cases hi : s.sequence[i]? with
    | some e' =>
      unfold Conductor.tallyAt
      rw [hseq hi, Conductor.retryAt_eq hi, Option.bind_some]
      cases hx : e'.retry with
      | none => rfl
      | some x =>
        have hlt : x < s.retries.length := h.lt ((Conductor.retryAt_eq hi).trans hx)
        rw [Option.elim_some, hold x hlt]
        rfl
    | none =>
      have hzero : s.tallyAt i = 0 := by
        rw [Conductor.tallyAt, Conductor.retryAt, hi]
        rfl
      rw [hzero]
      cases hi' : (s.sequence ++ [e])[i]? with
      | none => rfl
      | some e' =>
        rw [hnew hi hi', Option.bind_some]
        rcases hretry with ⟨_, hnone, _⟩ | ⟨_, x, hx, rfl, hsome⟩
        · rw [hnone]
          rfl
        · rw [hsome, Option.elim_some, List.getElem?_concat_length]
          exact hx
  · obtain ⟨e', he', hst'⟩ := (Option.any_eq_true _ _).mp hret
    change (s.sequence ++ [e])[i]? = some e' at he'
    cases hi : s.sequence[i]? with
    | some e₀ =>
      rw [hseq hi, Option.some_inj] at he'
      rw [Conductor.retryingAt_eq hi, he']
      exact of_decide_eq_true hst'
    | none =>
      rw [hnew hi he', hst] at hst'
      cases of_decide_eq_true hst'

/-- An engine command has no retry. -/
theorem getTaskRetrySpec_none {t : String} (ht : isReserved t = true) :
    wf.graph.getTaskRetrySpec t = none := by
  cases hhas : wf.graph.hasTask t with
  | true => exact Workflow.getTaskRetrySpec_reserved hhas ht
  | false =>
    unfold WorkflowGraph.hasTask at hhas
    rw [Option.isSome_eq_false_iff, Option.isNone_iff_eq_none] at hhas
    unfold WorkflowGraph.getTaskRetrySpec WorkflowGraph.node
    rw [hhas]
    rfl

/-- The tasks that are engine commands. -/
def Reserved (t : String) (_ : ℕ) : Prop := isReserved t = true

/-- **A write** is calm, if the entries that are advanced are ones of engine commands. -/
theorem Write.calmly {K : String → ℕ → Prop} (hw : Write wf K Reserved s s') : Calmly wf s s' := by
  have hnone : Ledger wf s → ∀ {t : String} {r i : ℕ} {e : TaskState}, Reserved t r →
      s.taskStateIdx t r = some i → s.sequence[i]? = some e → e.retry = none := by
    intro h t r i e hres hi he
    obtain ⟨e', he', rfl, _⟩ := h.last t r i hi
    rw [he, Option.some_inj] at he'
    subst he'
    have hgiven := h.given e (List.mem_of_getElem? he)
    rw [getTaskRetrySpec_none hres, Option.isSome_none, Option.isSome_eq_false_iff] at hgiven
    exact Option.isNone_iff_eq_none.mp hgiven
  cases hw with
  | rest hseq htasks _ hretries => exact calmly_of_sequence hseq htasks hretries
  | note i f hf =>
    refine calmly_note i (fun e => ?_) (fun e => ?_) s
    · rw [hf e]
      rfl
    · rw [hf e]
  | tell he hst =>
    refine calmly_status he (Or.inr ?_)
    rintro rfl
    exact absurd (nextStatus_workflow hst).2 (by decide)
  | unstage t r =>
    have hsame : (s.removeStagedTask t r) =
        { s with staged := (s.removeStagedTask t r).staged } := by
      unfold Conductor.removeStagedTask
      split
      · rfl
      · split <;> rfl
    rw [hsame]
    exact calmly_of_sequence rfl rfl rfl
  | mark i f hf => exact calmly_of_sequence rfl rfl rfl
  | clear i => exact calmly_of_sequence rfl rfl rfl
  | offer hx hitems => exact calmly_of_sequence rfl rfl rfl
  | stage x hitems => exact calmly_of_sequence rfl rfl rfl
  | item st hK hi hx hitems hk => exact calmly_of_sequence rfl rfl rfl
  | start hK hst hretry => exact calmly_start hst hretry
  | advance hJ hi he hst =>
    exact fun h => calmly_status he (Or.inl (hnone h hJ hi he)) h
  | count hJ hi he hx =>
    intro h
    rw [hnone h hJ hi he] at hx
    cases hx

theorem Writes.calmly {K : String → ℕ → Prop} (h : Writes wf K Reserved s s') : Calmly wf s s' :=
  h.within fun _ _ => Write.calmly

end Ledger

/-! ## Events for a task that is retried -/

/-- The statuses that a task that is being retried goes on to. -/
theorem nextStatus_retrying {s : Conductor} {e : TaskState} {event : Event} {st : Status}
    (he : e.status = some retrying)
    (h : TaskStateMachine.nextStatus s e event = .ok (some st)) :
    st = running ∨ st = canceling ∨ st = canceled := by
  obtain ⟨sfx, hrow⟩ := nextStatus_row h
  unfold TaskStateOf.statusOrUnset at hrow
  rw [he] at hrow
  have htable : ∀ p ∈ taskRowRetrying, p.2 = running ∨ p.2 = canceling ∨ p.2 = canceled := by
    decide
  exact htable _ hrow

/-- Only the command makes a task retrying, and only a task that succeeded or failed. -/
theorem nextStatus_to_retrying {s : Conductor} {e : TaskState} {event : Event}
    (h : TaskStateMachine.nextStatus s e event = .ok (some retrying)) :
    event = .operation .taskRetry ∧ (e.statusOrUnset = succeeded ∨ e.statusOrUnset = failed) := by
  obtain ⟨sfx, hrow⟩ := nextStatus_row h
  have htable : ∀ current : Status, ∀ p ∈ (taskStateMachineData current).getD [],
      p.2 = retrying → p.1.head = .operation .taskRetry ∧
        (current = succeeded ∨ current = failed) := by
    intro current
    cases current <;> decide
  obtain ⟨hhead, hst⟩ := htable _ _ hrow rfl
  refine ⟨?_, hst⟩
  cases event with
  | operation command =>
    cases hhead
    rfl
  | _ => cases hhead

/-- The command does something for a task that succeeded or failed only. -/
theorem nextStatus_taskRetry {s : Conductor} {e : TaskState} :
    TaskStateMachine.nextStatus s e (.operation .taskRetry) =
      TaskStateMachine.transition e.statusOrUnset (.operation .taskRetry) := by
  unfold TaskStateMachine.nextStatus
  dsimp only
  rw [if_pos (by decide)]
  rfl

/-- The events that a task is given: those of its actions and items, and the commands. -/
def Event.isForTask : Event → Bool
  | .action _ _ | .item _ _ _ _ | .operation _ => true
  | _ => false

/-- A name with a suffix is not looked for in a task that is retried. -/
theorem transition_retrying_suffix {name : EventName} (h : name.suffixes ≠ []) :
    TaskStateMachine.transition retrying name = .ok none := by
  show Except.ok (taskRowRetrying.lookup name) = .ok none
  have htable : ∀ p ∈ taskRowRetrying, p.1.suffixes = [] := by decide
  cases hl : taskRowRetrying.lookup name with
  | none => rfl
  | some st => exact absurd (htable _ (Dict.mem_of_lookup hl)) h

theorem itemSuffix_ne_nil (items : List (Option Status)) : TaskStateMachine.itemSuffix items ≠ [] := by
  unfold TaskStateMachine.itemSuffix
  dsimp only
  split
  · exact List.cons_ne_nil _ _
  · split
    · exact List.cons_ne_nil _ _
    · split <;> exact List.cons_ne_nil _ _

/-- An event that is recorded and then does not move a retrying task on is one that would
not move it on before, either. -/
theorem nextStatus_of_recorded {s s₁ : Conductor} {t : String} {r : ℕ} {event : Event}
    {e : TaskState} (hrec : recordEvent t r event s = .ok () s₁) (hfor : event.isForTask = true)
    (he : e.status = some retrying) (hid : e.id = t ∧ e.route = r)
    (h : TaskStateMachine.nextStatus s₁ e event = .ok none) :
    TaskStateMachine.nextStatus s e event = .ok none := by
  cases event with
  | workflow st => cases hfor
  | task id route st => cases hfor
  | action st result => exact h
  | operation command => exact h
  | item itemId st result accumulated =>
    obtain ⟨rfl, rfl⟩ := hid
    have hst : e.statusOrUnset = retrying := by
      rw [TaskStateOf.statusOrUnset, he, Option.getD_some]
    unfold TaskStateMachine.nextStatus at h ⊢
    dsimp only at h ⊢
    split at h
    · rename_i hlegal
      rw [if_pos hlegal, hst]
      rw [hst] at h
      unfold TaskStateMachine.addContextToTaskItemEvent at h ⊢
      split at h
      · rename_i hreq
        rw [if_pos hreq]
        rcases (recordEvent_item e.id e.route itemId st result accumulated s).of_run hrec with
          ⟨hnone, hlog⟩ | ⟨i, x, items, hi, hx, hitems, hlt, _⟩
        · -- without a staged task the name cannot be made
          have hnone₁ : s₁.getStagedTask e.id e.route = none := by
            rw [hlog]
            exact hnone
          rw [hnone₁] at h
          cases h
        · rw [getStagedTask_eq hi, hx]
          dsimp only
          rw [hitems]
          dsimp only
          rw [if_pos hlt]
          refine transition_retrying_suffix (List.append_ne_nil_of_right_ne_nil _ ?_)
          exact itemSuffix_ne_nil _
      · rename_i hreq
        rw [if_neg hreq]
        exact h
    · cases h

/-! ## The entries that are staged again -/

/-- The positions of the entries that an update stages again.  The engine commands that
follow from the update are not looked at, since they have no retry. -/
def restagedTo (wf : Workflow) : ℕ → String → ℕ → Event → Conductor → List ℕ
  | 0, _, _, _, _ => []
  | n + 1, t, r, event, s =>
    match beginUpdate wf t r event s with
    | .error _ _ => []
    | .ok p s =>
      if p.new = retrying then
        match restage t r p.idx s with
        | .error _ _ => []
        | .ok _ _ => [p.idx]
      else if p.new ∈ completedStatuses then
        match completeTask p.spec t r p.idx p.new event s with
        | .error _ _ => []
        | .ok ctx s =>
          match needsRetry wf p.idx ctx s with
          | .ok true s => restagedTo wf n t r (.operation .taskRetry) s
          | _ => []
      else []

variable {wf : Workflow}

/-- A retry is due only if there is one left. -/
theorem needsRetry_due (idx : ℕ) (ctx : EvalContext) (s : Conductor) :
    Outcome (needsRetry wf idx ctx)
      (fun due s' => s' = s ∧ (due = true → ∃ e x, s.sequence[idx]? = some e ∧
        e.retry = some x ∧ ((s.retry x).tally : ℤ) < (s.retry x).count))
      (fun _ s' => s' = s) s := by
  unfold needsRetry
  rw [outcome_bind, outcome_get]
  split
  · rw [outcome_lift]
    refine ⟨fun due hdue => ⟨rfl, fun htrue => ?_⟩, fun _ _ => rfl⟩
    rw [htrue] at hdue
    unfold evaluateTaskRetry at hdue
    split at hdue
    · cases hdue
    · rename_i e he
      split at hdue
      · cases hdue
      · rename_i x hx
        dsimp only at hdue
        split at hdue
        · cases hdue
        · rename_i hlt
          exact ⟨e, x, he, hx, lt_of_not_ge hlt⟩
  · exact ⟨rfl, fun h => absurd h Bool.false_ne_true⟩

/-- The command leaves a task alone, or it makes it retrying. -/
theorem nextStatus_command {s : Conductor} {e : TaskState} {st : Status}
    (h : TaskStateMachine.nextStatus s e (.operation .taskRetry) = .ok (some st)) :
    st = retrying := by
  obtain ⟨sfx, hrow⟩ := nextStatus_row h
  have htable : ∀ current : Status, ∀ p ∈ (taskStateMachineData current).getD [],
      p.1.head = .operation .taskRetry → p.2 = retrying := by
    intro current
    cases current <;> decide
  exact htable _ _ hrow rfl

/-- An entry that is there is the one that an event is for, unless a completed task starts
again. -/
theorem openEntry_old {t : String} {r idx : ℕ} {event : Event} {s s' : Conductor} {e : TaskState}
    (hres : isReserved t = false) (he : s.getTaskStateEntry t r = some e)
    (h : ¬ (e.status.any (· ∈ completedStatuses) = true ∧
      event.status.any (· ∈ startingStatuses) = true))
    (hopen : openEntry wf t r event s = .ok idx s') : s' = s ∧ s.taskStateIdx t r = some idx := by
  obtain ⟨hidx, ⟨rfl, _⟩ | ⟨x, _, _, hnew⟩⟩ := (openEntry_outcome wf t r event s).of_run hopen
  · exact ⟨rfl, hidx⟩
  · exact absurd (hnew hres e he) h

theorem getTaskStateEntry_at {t : String} {r idx : ℕ} {s : Conductor} (h : At t r idx s) :
    s.getTaskStateEntry t r = s.sequence[idx]? := by
  unfold At at h
  rw [Conductor.getTaskStateEntry, h, Option.bind_some]

theorem recordEvent_sequence {t : String} {r : ℕ} {event : Event} {s s' : Conductor}
    (h : recordEvent t r event s = .ok () s') : s'.sequence = s.sequence := by
  rw [((recordEvent_moves t r event).outcome s).of_run h |>.rest]

/-- The command stages the entry that is there again, or none; none if it is canceled. -/
theorem restagedTo_command {t : String} {r idx : ℕ} (hres : isReserved t = false) (n : ℕ) :
    ∀ {s : Conductor} {e : TaskState}, At t r idx s → s.sequence[idx]? = some e →
      restagedTo wf n t r (.operation .taskRetry) s = [] ∨
        restagedTo wf n t r (.operation .taskRetry) s = [idx] ∧ e.status ≠ some canceled := by
  induction n with
  | zero => exact fun _ _ => Or.inl rfl
  | succ n ih =>
    intro s e hidx he
    unfold restagedTo
    cases hbegin : beginUpdate wf t r (.operation .taskRetry) s with
    | error x s' => exact Or.inl rfl
    | ok p s' =>
      obtain ⟨s₀, s₁, e₁, _, hopen, hrec, hidx₁, he₁, hold, hcase⟩ :=
        (beginUpdate_begun (K := fun _ _ => True) (J := Reserved) trivial _ s).of_run hbegin
      have hentry : s.getTaskStateEntry t r = some e := (getTaskStateEntry_at hidx).trans he
      obtain ⟨rfl, hidx'⟩ := openEntry_old hres hentry (fun h => absurd h.2 (by decide)) hopen
      obtain rfl : idx = p.idx := Option.some.inj (hidx.symm.trans hidx')
      rw [recordEvent_sequence hrec, he, Option.some_inj] at he₁
      subst he₁
      dsimp only
      split
      · rename_i hnew
        split
        · exact Or.inl rfl
        · refine Or.inr ⟨rfl, fun hst => ?_⟩
          have hcanceled : e.statusOrUnset = canceled := by
            rw [TaskStateOf.statusOrUnset, hst, Option.getD_some]
          rcases hcase with ⟨_, hsame, _⟩ | ⟨hnext, _⟩
          · rw [hsame, hold, hcanceled] at hnew
            cases hnew
          · rw [hnew] at hnext
            rcases (nextStatus_to_retrying hnext).2 with h | h
            · rw [hcanceled] at h
              cases h
            · rw [hcanceled] at h
              cases h
      · rename_i hnew
        rcases hcase with ⟨_, _, rfl⟩ | ⟨hnext, _⟩
        · split
          · split
            · exact Or.inl rfl
            · rename_i ctx s₂ hcomplete
              split
              · rename_i s₃ hdue
                obtain ⟨rfl, _⟩ := (needsRetry_due p.idx ctx s₂).of_run hdue
                have hseq := (completeTask_sequence p.spec t r p.idx p.new _ s').of_run hcomplete
                have hthins := ((completeTask_thins p.spec t r p.idx p.new _).outcome s').of_run
                  hcomplete
                refine ih (hthins.at hidx₁) ?_
                rw [hseq, recordEvent_sequence hrec]
                exact he
              · exact Or.inl rfl
          · exact Or.inl rfl
        · exact absurd (nextStatus_command hnext) hnew

/-! ## What an update counts -/

/-- Whether the entry at the position has begun to be retried, as a number. -/
def enters (i : ℕ) (s s' : Conductor) : ℕ :=
  if s.retryingAt i = false ∧ s'.retryingAt i = true then 1 else 0

/-- The entries at the positions began to be retried, and they were counted; no others. -/
structure Counts (ks : List ℕ) (s s' : Conductor) : Prop where
  kept : ∀ (i : ℕ) (e : TaskState), s.sequence[i]? = some e →
    ∃ e', s'.sequence[i]? = some e' ∧ e'.retry = e.retry
  tally : ∀ i, s'.tallyAt i = s.tallyAt i + ks.count i
  entered : ∀ i, (s'.retryAt i).isSome → enters i s s' = ks.count i
  staged : ∀ i ∈ ks, ∃ y, s'.staged.getLast? = some y ∧ s'.retryAt i = y.retry

section Counts

variable {ks : List ℕ} {s s₁ s' : Conductor}

theorem Calm.counts (h : Calm s s') : Counts [] s s' where
  kept := h.kept
  tally i := h.tally i
  entered i hsome := by
    rw [List.count_nil, enters, if_neg]
    rintro ⟨hnot, hret⟩
    rw [h.quiet i hsome hret] at hnot
    cases hnot
  staged _ hi := absurd hi List.not_mem_nil

/-- What is calm before is not counted, if the entries that are counted were not retried
before. -/
theorem Counts.of_calm (h : Calm s s₁) (h' : Counts ks s₁ s')
    (hks : ∀ i ∈ ks, s.retryingAt i = false) : Counts ks s s' where
  kept i e he := by
    obtain ⟨e₁, he₁, hretry⟩ := h.kept i e he
    obtain ⟨e₂, he₂, hretry'⟩ := h'.kept i e₁ he₁
    exact ⟨e₂, he₂, hretry'.trans hretry⟩
  tally i := by rw [h'.tally i, h.tally i]
  entered i hsome := by
    have hentered := h'.entered i hsome
    by_cases hmem : i ∈ ks
    · rw [← hentered, enters, enters, hks i hmem]
      have hpos : 0 < ks.count i := List.count_pos_iff.mpr hmem
      rw [← hentered, enters] at hpos
      split at hpos
      · rename_i hrise
        rw [if_pos hrise, if_pos ⟨rfl, hrise.2⟩]
      · exact absurd hpos (lt_irrefl 0)
    · rw [List.count_eq_zero_of_not_mem hmem] at hentered ⊢
      rw [enters, if_neg]
      rintro ⟨hnot, hret⟩
      have hret₁ : s₁.retryingAt i = true := by
        by_contra hfalse
        rw [Bool.not_eq_true] at hfalse
        rw [enters, if_pos ⟨hfalse, hret⟩] at hentered
        cases hentered
      obtain ⟨e₁, he₁, _⟩ := (Option.any_eq_true _ _).mp hret₁
      obtain ⟨e', he', hretry⟩ := h'.kept i e₁ he₁
      rw [Conductor.retryAt_eq he', hretry, ← Conductor.retryAt_eq he₁] at hsome
      rw [h.quiet i hsome hret₁] at hnot
      cases hnot
  staged := h'.staged

end Counts

def TaskStateOf.standing (e : TaskState) : (String × ℕ × Option Ref) × Option Status :=
  (e.booking, e.status)

/-- The entries have their statuses and retries, and what is staged is still staged. -/
structure Stands (s s' : Conductor) : Prop where
  entries : s'.sequence.map TaskStateOf.standing = s.sequence.map TaskStateOf.standing
  tasks : s'.tasks = s.tasks
  retries : s'.retries = s.retries
  staged : s'.staged = s.staged

instance : IsPreorder Conductor Stands where
  refl _ := ⟨rfl, rfl, rfl, rfl⟩
  trans _ _ _ h h' := ⟨h'.entries.trans h.entries, h'.tasks.trans h.tasks,
    h'.retries.trans h.retries, h'.staged.trans h.staged⟩

theorem OnlyStatus.stands {s s' : Conductor} (h : OnlyStatus s s') : Stands s s' := by
  unfold OnlyStatus at h
  rw [h]
  exact ⟨rfl, rfl, rfl, rfl⟩

theorem notifyWorkflow_stands (t : String) (r idx : ℕ) :
    Moves Stands (notifyWorkflow wf t r idx) := by
  unfold notifyWorkflow
  refine moves_bind moves_get fun s => ?_
  split
  · exact moves_throw _
  · refine moves_iff.mpr fun s => (processTaskEvent_outcome wf t r _ s).mono ?_ ?_
    · rintro _ s' ⟨_, ⟨_, rfl⟩ | ⟨new, _, ⟨rfl, _⟩ | ⟨h, _⟩⟩⟩
      · exact refl_of Stands s'
      · exact OnlyStatus.stands rfl
      · exact h.stands
    · rintro _ s' ⟨rfl, _⟩
      exact refl_of Stands s'

theorem markTerminal_stands (idx : ℕ) : Moves Stands (markTerminal idx) := by
  unfold markTerminal
  refine moves_bind moves_get fun s => ?_
  split
  · refine moves_modify fun s => ⟨Positions.map_modify ?_, rfl, rfl, rfl⟩
    exact fun _ => rfl
  · exact moves_pure _

/-- A task that is not completed leads to no other task. -/
theorem finishUpdate_stands (spec : TaskSpec) (t : String) (r idx : ℕ) (old : Status)
    {new : Status} (hnew : new ∉ completedStatuses) (ctx : EvalContext)
    (command : String × ℕ → M Unit) :
    Moves Stands (finishUpdate wf spec t r idx old new ctx command) := by
  unfold finishUpdate
  rw [if_neg fun h => hnew h.1, pure_bind]
  refine moves_bind (notifyWorkflow_stands t r idx) fun _ => ?_
  exact moves_bind (moves_pure _) fun _ => markTerminal_stands idx

section Restaged

variable {s s' : Conductor}

theorem Stands.booking (h : Stands s s') :
    s'.sequence.map TaskStateOf.booking = s.sequence.map TaskStateOf.booking := by
  have hmap : ∀ s : Conductor, s.sequence.map TaskStateOf.booking =
      (s.sequence.map TaskStateOf.standing).map Prod.fst := by
    intro s
    rw [List.map_map]
    rfl
  rw [hmap, h.entries, ← hmap]

theorem Stands.retryingAt (h : Stands s s') (i : ℕ) : s'.retryingAt i = s.retryingAt i := by
  have hany : ∀ s : Conductor, s.retryingAt i =
      ((s.sequence.map TaskStateOf.standing)[i]?).any fun b => b.2 = some retrying := by
    intro s
    rw [Conductor.retryingAt, List.getElem?_map]
    cases s.sequence[i]? <;> rfl
  rw [hany, h.entries, ← hany]

/-- A retry that is left may be counted. -/
theorem Ledger.count (h : Ledger wf s) {idx : ℕ} {x : Ref} (hx : s.retryAt idx = some x)
    (hlt : ((s.retry x).tally : ℤ) < (s.retry x).count)
    (hbook : s'.sequence.map TaskStateOf.booking = s.sequence.map TaskStateOf.booking)
    (htasks : s'.tasks = s.tasks)
    (hretries : s'.retries =
      s.retries.modify x fun retry => { retry with tally := retry.tally + 1 }) :
    Ledger wf s' ∧ ∀ i, s'.tallyAt i = s.tallyAt i + [idx].count i := by
  have hsame : Ledger wf { s' with retries := s.retries } := h.of_booking hbook htasks rfl
  have hget : s.retries[x]? = some (s.retry x) := by
    rw [Conductor.retry, List.getElem?_eq_getElem (h.lt hx), Option.getD_some]
  have hlength : s'.retries.length = s.retries.length := by
    rw [hretries, List.length_modify]
  refine ⟨⟨?_, hsame.given, hsame.last, ?_⟩, fun i => ?_⟩
  · rw [hlength]
    exact hsame.own
  · intro y hy
    rw [hretries] at hy
    rcases Positions.mem_modify hy with hy | ⟨y₀, hy₀, rfl⟩
    · exact h.bound y hy
    · rw [hget, Option.some_inj] at hy₀
      subst hy₀
      push_cast
      exact (Int.add_one_le_of_lt hlt).trans (le_max_right _ _)
  · have hi := retryAt_of_booking hbook i
    unfold Conductor.tallyAt
    rw [hi]
    cases hx' : s.retryAt i with
    | none =>
      rw [Option.elim_none, Option.elim_none, List.count_eq_zero_of_not_mem]
      intro hmem
      rw [List.mem_singleton.mp hmem, hx] at hx'
      cases hx'
    | some y =>
      rw [Option.elim_some, Option.elim_some]
      by_cases hidx : i = idx
      · subst hidx
        obtain rfl : x = y := Option.some.inj (hx.symm.trans hx')
        rw [List.count_singleton_self, Conductor.retry, hretries, Positions.getElem?_modify,
          if_pos rfl, hget, Option.map_some, Option.getD_some]
      · have hne : x ≠ y := by
          rintro rfl
          exact hidx (h.distinct hx' hx)
        rw [List.count_eq_zero_of_not_mem (by simpa using hidx), Nat.add_zero, Conductor.retry,
          hretries, Positions.getElem?_modify, if_neg hne]
        rfl

/-- A retry that may be counted is one in a later state, too. -/
theorem Calm.retry (h : Calm s s') {x : Ref} (hx : x < s.retries.length) :
    s'.retry x = s.retry x := by
  obtain ⟨more, hmore⟩ := h.records
  unfold Conductor.retry
  rw [← hmore, List.getElem?_append_left hx]

/-- A task that is retried is staged last. -/
theorem restage_run {t : String} {r idx : ℕ} {e : TaskState} {x : Ref}
    (he : s.sequence[idx]? = some e) (hx : e.retry = some x) :
    ∃ s', restage t r idx s = .ok () s' ∧ s'.sequence = s.sequence ∧ s'.tasks = s.tasks ∧
      s'.retries = s.retries.modify x (fun retry => { retry with tally := retry.tally + 1 }) ∧
      ∃ y, s'.staged.getLast? = some y ∧ y.retry = some x := by
  have hrun : ∃ s', restage t r idx s = .ok () s' := by
    unfold restage
    rw [run_get, he]
    dsimp only
    rw [hx]
    exact ⟨_, rfl⟩
  obtain ⟨s', hrun⟩ := hrun
  obtain ⟨e', x', s₁, he', hx', hrestaged, rfl⟩ := (restage_outcome t r idx s).of_run hrun
  rw [he, Option.some_inj] at he'
  subst he'
  obtain rfl : x = x' := Option.some.inj (hx.symm.trans hx')
  refine ⟨_, hrun, ?_⟩
  have hroot : ∀ s : Conductor, (s.orRoot e.ctxsIn).2.sequence = s.sequence ∧
      (s.orRoot e.ctxsIn).2.tasks = s.tasks ∧ (s.orRoot e.ctxsIn).2.retries = s.retries := by
    intro s
    unfold Conductor.orRoot
    split <;> exact ⟨rfl, rfl, rfl⟩
  obtain ⟨hseq, htasks, hretries⟩ := hroot s₁
  refine ⟨hseq.trans ?_, htasks.trans ?_, hretries.trans ?_, ?_⟩
  · rw [hrestaged.rest]
  · rw [hrestaged.rest]
  · rw [hrestaged.rest]
  · exact ⟨_, List.getLast?_concat, rfl⟩

end Restaged

/-! ## An update -/

/-- A task with a retry is not left retrying by an event that is recognized, and a
command to retry it comes while there is a retry left. -/
def movesOn (t : String) (r : ℕ) (event : Event) (s : Conductor) : Bool :=
  match s.getTaskStateEntry t r with
  | none => true
  | some e =>
    match e.retry, TaskStateMachine.nextStatus s e event with
    | some _, .ok none => e.status ≠ some retrying
    | some x, .ok (some st) =>
      st ≠ retrying || decide (((s.retry x).tally : ℤ) < (s.retry x).count)
    | _, _ => true

section Update

variable {s s₀ s₁ s' : Conductor} {t : String} {r : ℕ} {event : Event} {p : Progress}
  {e : TaskState}

/-- The entry that an event is for is the last one of the task, or a new one. -/
theorem Begun.entry_cases (h : Begun wf t r event s p s₀ s₁ e s') :
    s₀ = s ∧ s.getTaskStateEntry t r = some e ∧ s.sequence[p.idx]? = some e ∨
      e.status = none ∧ s.sequence[p.idx]? = none := by
  have he := h.entry
  rw [recordEvent_sequence h.recorded] at he
  obtain ⟨hidx, ⟨rfl, _⟩ | ⟨x, _, hstart, _⟩⟩ := (openEntry_outcome wf t r event s).of_run h.opened
  · exact Or.inl ⟨rfl, (getTaskStateEntry_at hidx).trans he, he⟩
  · have hidx' := hstart.entry.1
    rw [hidx, Option.some_inj] at hidx'
    rw [hidx'] at he ⊢
    obtain ⟨_, e', ⟨_, _, _, _, _, rfl⟩, rfl, _, _, hst, _⟩ := hstart
    change (s.sequence ++ [e'])[s.sequence.length]? = some e at he
    rw [List.getElem?_concat_length, Option.some_inj] at he
    exact Or.inr ⟨he ▸ hst, List.getElem?_eq_none le_rfl⟩

/-- The status of the entry after the event. -/
theorem Begun.status (h : Begun wf t r event s p s₀ s₁ e s') :
    ∃ e', s'.sequence[p.idx]? = some e' ∧ e'.retry = e.retry ∧ e'.statusOrUnset = p.new := by
  rcases h.next with ⟨_, hsame, rfl⟩ | ⟨_, rfl⟩
  · exact ⟨e, h.entry, rfl, (hsame.trans h.old).symm⟩
  · refine ⟨{ e with status := some p.new }, ?_, rfl, rfl⟩
    show (s₁.sequence.modify _ _)[_]? = _
    rw [Positions.getElem?_modify, if_pos rfl, h.entry, Option.map_some]

theorem statusOrUnset_eq {st : Status} (h : e.status = some st) : e.statusOrUnset = st := by
  rw [TaskStateOf.statusOrUnset, h, Option.getD_some]

theorem status_of_statusOrUnset {st : Status} (h : e.statusOrUnset = st) (hst : st ≠ .unset) :
    e.status = some st := by
  unfold TaskStateOf.statusOrUnset at h
  cases he : e.status with
  | none =>
    rw [he] at h
    exact absurd h.symm hst
  | some st' =>
    rw [he, Option.getD_some] at h
    rw [h]

/-- A task that is made retrying was not before, and has a retry left. -/
theorem Begun.retry_left {x : Ref} (h : Begun wf t r event s p s₀ s₁ e s')
    (hfor : event.isForTask = true) (hmoves : movesOn t r event s = true)
    (hid : e.id = t ∧ e.route = r) (hnew : p.new = retrying) (hx : e.retry = some x) :
    s.retryAt p.idx = some x ∧ s.retryingAt p.idx = false ∧
      ((s.retry x).tally : ℤ) < (s.retry x).count := by
  rcases h.entry_cases with ⟨rfl, hentry, he⟩ | ⟨hnone, _⟩
  · unfold movesOn at hmoves
    rw [hentry] at hmoves
    dsimp only at hmoves
    rw [hx] at hmoves
    rcases h.next with ⟨hnext, hsame, _⟩ | ⟨hnext, _⟩
    · -- the event would leave the task retrying
      have hst : e.status = some retrying :=
        status_of_statusOrUnset (h.old.symm.trans (hsame.symm.trans hnew)) (by decide)
      rw [nextStatus_of_recorded h.recorded hfor hst hid hnext] at hmoves
      exact absurd hst (of_decide_eq_true hmoves)
    · rw [hnew] at hnext
      obtain ⟨rfl, hst⟩ := nextStatus_to_retrying hnext
      rw [nextStatus_taskRetry, ← nextStatus_taskRetry (s := s₀)] at hnext
      rw [hnext] at hmoves
      dsimp only at hmoves
      rw [Bool.or_eq_true] at hmoves
      refine ⟨(Conductor.retryAt_eq he).trans hx, ?_, ?_⟩
      · rw [← Bool.not_eq_true, Conductor.retryingAt_eq he]
        intro hret
        rw [statusOrUnset_eq hret] at hst
        rcases hst with h | h <;> cases h
      · rcases hmoves with h | h
        · exact absurd rfl (of_decide_eq_true h)
        · exact of_decide_eq_true h
  · exfalso
    rcases h.next with ⟨_, hsame, _⟩ | ⟨hnext, _⟩
    · rw [hsame, h.old, TaskStateOf.statusOrUnset, hnone] at hnew
      cases hnew
    · exact nextStatus_unset hnone hnext hnew

/-- An entry that was retrying and is completed is canceled. -/
theorem Begun.ends_canceled (h : Begun wf t r event s p s₀ s₁ e s')
    (hnew : p.new ∈ completedStatuses) (hret : s.retryingAt p.idx = true) : p.new = canceled := by
  rcases h.entry_cases with ⟨rfl, hentry, he⟩ | ⟨_, hnone⟩
  · have hst : e.status = some retrying := (Conductor.retryingAt_eq he).mp hret
    rcases h.next with ⟨_, hsame, _⟩ | ⟨hnext, _⟩
    · rw [hsame, h.old, statusOrUnset_eq hst] at hnew
      exact absurd hnew (by decide)
    · rcases nextStatus_retrying hst hnext with h | h | h
      · rw [h] at hnew
        exact absurd hnew (by decide)
      · rw [h] at hnew
        exact absurd hnew (by decide)
      · exact h
  · rw [Conductor.retryingAt, hnone] at hret
    cases hret

/-- The retry of an entry that is made retrying is counted once. -/
theorem restage_counts {idx : ℕ} {e : TaskState} {x : Ref} {s₁ s₂ s₃ : Conductor}
    (h₁ : Ledger wf s₁) (hcalm : Calm s s₁) (he : s₁.sequence[idx]? = some e)
    (hx : e.retry = some x) (hlt : ((s₁.retry x).tally : ℤ) < (s₁.retry x).count)
    (hnot : s.retryingAt idx = false)
    (hseq : s₂.sequence = s₁.sequence.modify idx fun e => { e with status := some retrying })
    (htasks : s₂.tasks = s₁.tasks) (hretries : s₂.retries =
      s₁.retries.modify x fun retry => { retry with tally := retry.tally + 1 })
    (hstaged : ∃ y, s₂.staged.getLast? = some y ∧ y.retry = some x) (hstands : Stands s₂ s₃) :
    Ledger wf s₃ ∧ Counts [idx] s s₃ := by
  have hbook : s₃.sequence.map TaskStateOf.booking = s₁.sequence.map TaskStateOf.booking := by
    rw [hstands.booking, hseq]
    refine Positions.map_modify ?_
    exact fun _ => rfl
  obtain ⟨h₃, htally⟩ := h₁.count ((Conductor.retryAt_eq he).trans hx) hlt hbook
    (hstands.tasks.trans htasks) (hstands.retries.trans hretries)
  have hret : ∀ i, s₃.retryingAt i = if i = idx then true else s₁.retryingAt i := by
    intro i
    rw [hstands.retryingAt, Conductor.retryingAt, hseq, Positions.getElem?_modify]
    by_cases hi : i = idx
    · rw [if_pos hi.symm, if_pos hi, hi, he]
      rfl
    · rw [if_neg (Ne.symm hi), if_neg hi]
      rfl
  refine ⟨h₃, ⟨fun i e₀ he₀ => ?_, fun i => ?_, fun i hsome => ?_, fun i hi => ?_⟩⟩
  · obtain ⟨e₁, he₁, hretry⟩ := hcalm.kept i e₀ he₀
    have hi := booking_getElem? hbook i
    rw [he₁, Option.map_some] at hi
    obtain ⟨e₃, he₃, hb⟩ := Option.map_eq_some_iff.mp hi
    exact ⟨e₃, he₃, (congrArg (fun b : String × ℕ × Option Ref => b.2.2) hb).trans hretry⟩
  · rw [htally, hcalm.tally]
  · unfold enters
    rw [hret]
    by_cases hi : i = idx
    · rw [hi, if_pos rfl, if_pos ⟨hnot, rfl⟩, List.count_singleton_self]
    · rw [if_neg hi, List.count_eq_zero_of_not_mem (by simpa using hi), if_neg]
      rintro ⟨hnot, hret₁⟩
      rw [retryAt_of_booking hbook] at hsome
      rw [hcalm.quiet i hsome hret₁] at hnot
      cases hnot
  · obtain ⟨y, hy, hretry⟩ := hstaged
    refine ⟨y, ?_, ?_⟩
    · rw [hstands.staged]
      exact hy
    · rw [List.mem_singleton.mp hi, retryAt_of_booking hbook, Conductor.retryAt_eq he, hx, hretry]

/-- The second half of an update that made the task retrying. -/
theorem continueUpdate_retrying {x : Ref} (hledger : Ledger wf s₁) (hcalm : Calm s s₁)
    (h : Begun wf t r event s p s₀ s₁ e s') (hx : e.retry = some x) (hnew : p.new = retrying)
    (hnot : s.retryingAt p.idx = false)
    (hlt : ((s₁.retry x).tally : ℤ) < (s₁.retry x).count)
    (update : String → ℕ → Event → M Unit) :
    ∃ s₂, restage t r p.idx s' = .ok () s₂ ∧
      Ledger wf (after (continueUpdate wf update t r event p) s') ∧
        Counts [p.idx] s (after (continueUpdate wf update t r event p) s') := by
  have hs' : s' = s₁.updateEntry p.idx fun e => { e with status := some retrying } := by
    rcases h.next with ⟨_, hsame, rfl⟩ | ⟨_, hs'⟩
    · have hst : e.status = some retrying :=
        status_of_statusOrUnset (h.old.symm.trans (hsame.symm.trans hnew)) (by decide)
      show s' = { s' with sequence := s'.sequence.modify p.idx _ }
      rw [Positions.modify_self h.entry]
      rw [← hst]
    · rw [hs', hnew]
  obtain ⟨e', he', hretry, _⟩ := h.status
  obtain ⟨s₂, hrun, hseq, htasks, hretries, hlast⟩ :=
    restage_run (t := t) (r := r) he' (hretry.trans hx)
  have hnot' : p.new ∉ completedStatuses := by
    rw [hnew]
    decide
  have hafter : Stands s₂ (after (continueUpdate wf update t r event p) s') := by
    unfold continueUpdate
    rw [if_pos hnew, if_neg hnot', after_bind_ok hrun]
    exact finishUpdate_stands p.spec t r p.idx p.old hnot' _ _ s₂
  refine ⟨s₂, hrun, restage_counts hledger hcalm h.entry hx hlt hnot (hseq.trans ?_)
    (htasks.trans ?_) (hretries.trans ?_) hlast hafter⟩
  · rw [hs']
    rfl
  · rw [hs']
    rfl
  · rw [hs']
    rfl

/-- The retry of a completed task, if it is due, is counted by an update for the command. -/
theorem due_counts {n : ℕ} {s₂ : Conductor} {ctx : EvalContext} {finish : M Unit} {new : Status}
    {idx : ℕ} (ih : ∀ (t : String) (r : ℕ) (event : Event) (s : Conductor), Ledger wf s →
      event.isForTask = true → movesOn t r event s = true →
        Ledger wf (after (updateTaskStateTo wf n t r event) s) ∧
          Counts (restagedTo wf n t r event s) s (after (updateTaskStateTo wf n t r event) s))
    (h : Ledger wf s) (hcalm : Calmly wf s s₂) (hidx : At t r idx s₂)
    (he : s₂.sequence[idx]? = some e) (hst : e.statusOrUnset = new)
    (hnew : new ∈ completedStatuses) (hcanceled : s.retryingAt idx = true → new = canceled)
    (hfinish : Moves (Calmly wf) finish) :
    let m := needsRetry wf idx ctx >>= fun due =>
      if due = true then updateTaskStateTo wf n t r (.operation .taskRetry) else finish
    Ledger wf (after m s₂) ∧ Counts (match needsRetry wf idx ctx s₂ with
      | .ok true s => restagedTo wf n t r (.operation .taskRetry) s
      | _ => []) s (after m s₂) := by
  intro m
  obtain ⟨h₂, hcalm₂⟩ := hcalm h
  cases hrun : needsRetry wf idx ctx s₂ with
  | error x s₃ =>
    obtain rfl : s₃ = s₂ := (needsRetry_due idx ctx s₂).of_error hrun
    rw [after_bind_error hrun]
    exact ⟨h₂, hcalm₂.counts⟩
  | ok due s₃ =>
    obtain ⟨rfl, hdue⟩ := (needsRetry_due idx ctx s₂).of_run hrun
    rw [after_bind_ok hrun]
    cases due with
    | false =>
      rw [if_neg Bool.false_ne_true]
      obtain ⟨h₃, hcalm₃⟩ := trans_of (Calmly wf) hcalm (hfinish s₃) h
      exact ⟨h₃, hcalm₃.counts⟩
    | true =>
      rw [if_pos rfl]
      obtain ⟨e', x, he', hx, hlt⟩ := hdue rfl
      rw [he, Option.some_inj] at he'
      subst he'
      have hne : e.status ≠ some retrying := by
        intro h
        rw [statusOrUnset_eq h] at hst
        rw [← hst] at hnew
        exact absurd hnew (by decide)
      have hmoves : movesOn t r (.operation .taskRetry) s₃ = true := by
        unfold movesOn
        rw [getTaskStateEntry_at hidx, he]
        dsimp only
        rw [hx]
        split
        · exact decide_eq_true hne
        · rename_i hsome _
          cases hsome
          rw [decide_eq_true hlt, Bool.or_true]
        · rfl
      have hres : isReserved t = false := by
        cases hres : isReserved t with
        | false => rfl
        | true =>
          obtain ⟨e', he', rfl, _⟩ := h₂.last t r idx hidx
          rw [he, Option.some_inj] at he'
          subst he'
          have hgiven := h₂.given e (List.mem_of_getElem? he)
          rw [getTaskRetrySpec_none hres, hx] at hgiven
          cases hgiven
      obtain ⟨h₃, hcounts⟩ := ih t r _ s₃ h₂ rfl hmoves
      refine ⟨h₃, hcounts.of_calm hcalm₂ fun i hi => ?_⟩
      change i ∈ restagedTo wf n t r (.operation .taskRetry) s₃ at hi
      rcases @restagedTo_command wf _ _ _ hres n _ _ hidx he with hnone | ⟨hone, hnot⟩
      · rw [hnone] at hi
        cases hi
      · rw [hone, List.mem_singleton] at hi
        subst hi
        rw [← Bool.not_eq_true]
        intro hret
        refine hnot (status_of_statusOrUnset (hst.trans (hcanceled hret)) (by decide))

/-- **The retries of an update are counted.** -/
theorem update_counts (n : ℕ) : ∀ (t : String) (r : ℕ) (event : Event) (s : Conductor),
    Ledger wf s → event.isForTask = true → movesOn t r event s = true →
      Ledger wf (after (updateTaskStateTo wf n t r event) s) ∧
        Counts (restagedTo wf n t r event s) s (after (updateTaskStateTo wf n t r event) s) := by
  induction n with
  | zero =>
    intro t r event s h _ _
    exact ⟨h, (refl_of (Calmly wf) s h).2.counts⟩
  | succ n ih =>
    intro t r event s h hfor hmoves
    have hcommand : ∀ c : String × ℕ, isReserved c.1 = true →
        Moves (Writes wf (fun _ _ => True) Reserved)
          (updateTaskStateTo wf n c.1 c.2 (commandEvent c)) := fun c hc =>
      updateTaskStateTo_writes (fun _ _ hres => ⟨trivial, hres⟩) n _ trivial hc
    rw [updateTaskStateTo_succ, restagedTo]
    cases hbegin : beginUpdate wf t r event s with
    | error x s' =>
      have hw : Writes wf (fun _ _ => True) Reserved s s' :=
        (beginUpdate_begun trivial event s).of_error hbegin
      rw [after_bind_error hbegin]
      obtain ⟨h', hcalm⟩ := hw.calmly h
      exact ⟨h', hcalm.counts⟩
    | ok p s' =>
      rw [after_bind_ok hbegin]
      dsimp only
      obtain ⟨s₀, s₁, e, hw, hbegun⟩ :=
        (beginUpdate_begun (K := fun _ _ => True) (J := Reserved) trivial event s).of_run hbegin
      obtain ⟨h₁, hcalm₁⟩ := hw.calmly h
      have hid : e.id = t ∧ e.route = r := by
        obtain ⟨e', he', hid⟩ := h₁.last t r p.idx hbegun.last
        rw [hbegun.entry, Option.some_inj] at he'
        rw [he']
        exact hid
      by_cases hnew : p.new = retrying
      · rw [if_pos hnew]
        cases hx : e.retry with
        | none =>
          -- an entry without a retry is not staged again
          obtain ⟨e', he', hretry, _⟩ := hbegun.status
          have hrun : restage t r p.idx s' = .error (.keyError "retry") s' := by
            unfold restage
            rw [run_get, he']
            dsimp only
            rw [hretry, hx]
            rfl
          have hs' : Calmly wf s₁ s' := by
            rcases hbegun.next with ⟨_, _, rfl⟩ | ⟨_, rfl⟩
            · exact refl_of (Calmly wf) s'
            · exact calmly_status hbegun.entry (Or.inl hx)
          rw [hrun, continueUpdate, if_pos hnew, after_bind_error hrun]
          obtain ⟨h', hcalm⟩ := trans_of (Calmly wf) hw.calmly hs' h
          exact ⟨h', hcalm.counts⟩
        | some x =>
          obtain ⟨hretry, hnot, hlt⟩ := hbegun.retry_left hfor hmoves hid hnew hx
          rw [← hcalm₁.retry (h.lt hretry)] at hlt
          obtain ⟨s₂, hrun, hcounts⟩ := continueUpdate_retrying h₁ hcalm₁ hbegun hx hnew hnot hlt
            (updateTaskStateTo wf n)
          rw [hrun]
          exact hcounts
      · rw [if_neg hnew, continueUpdate, if_neg hnew]
        have hs' : Calmly wf s s' := by
          refine trans_of (Calmly wf) hw.calmly ?_
          rcases hbegun.next with ⟨_, _, rfl⟩ | ⟨_, rfl⟩
          · exact refl_of (Calmly wf) s'
          · exact calmly_status hbegun.entry (Or.inr hnew)
        have hfinish : ∀ ctx, Moves (Calmly wf) (finishUpdate wf p.spec t r p.idx p.old p.new ctx
            fun c => updateTaskStateTo wf n c.1 c.2 (commandEvent c)) := fun ctx =>
          (finishUpdate_writes hcommand p.spec t r p.idx p.old p.new ctx).mono
            fun _ _ => Writes.calmly
        by_cases hcompleted : p.new ∈ completedStatuses
        · rw [if_pos hcompleted, if_pos hcompleted]
          have hcomplete := (@completeTask_writes wf (fun _ _ => True) Reserved p.spec t r p.idx
            p.new event).outcome s'
          cases hrun : completeTask p.spec t r p.idx p.new event s' with
          | error x s₂ =>
            rw [after_bind_error hrun]
            obtain ⟨h₂, hcalm⟩ := trans_of (Calmly wf) hs' (hcomplete.of_error hrun).calmly h
            exact ⟨h₂, hcalm.counts⟩
          | ok ctx s₂ =>
            rw [after_bind_ok hrun]
            dsimp only
            have hs₂ := trans_of (Calmly wf) hs' (hcomplete.of_run hrun).calmly
            have hseq := (completeTask_sequence p.spec t r p.idx p.new event s').of_run hrun
            have hidx : At t r p.idx s₂ := by
              refine (((completeTask_thins p.spec t r p.idx p.new event).outcome s').of_run
                hrun).at ?_
              rcases hbegun.next with ⟨_, _, rfl⟩ | ⟨_, rfl⟩
              · exact hbegun.last
              · exact hbegun.last
            obtain ⟨e₂, he₂, _, hst₂⟩ := hbegun.status
            rw [← hseq] at he₂
            exact due_counts ih h hs₂ hidx he₂ hst₂ hcompleted
              (fun hret => hbegun.ends_canceled hcompleted hret) (hfinish ctx)
        · rw [if_neg hcompleted, if_neg hcompleted]
          obtain ⟨h₂, hcalm⟩ := trans_of (Calmly wf) hs' (hfinish _ s') h
          exact ⟨h₂, hcalm.counts⟩

end Update

/-! ## Runs -/

/-- The events that the calls of a run give to tasks are events for tasks. -/
def Call.isForTask : Call → Bool
  | .updateTaskState _ _ event => event.isForTask
  | _ => true

/-- No event leaves a task retrying that it finds retrying, and none makes one retrying
that has no retry left. -/
def Call.movesOn (s : Conductor) : Call → Bool
  | .updateTaskState t r event => Orquesta.movesOn t r event s
  | _ => true

/-- The positions of the entries that the call stages again. -/
def restagings (wf : Workflow) (s : Conductor) : Call → List ℕ
  | .updateTaskState t r event => restagedTo wf recursionLimit t r event s
  | _ => []

theorem step_counts {s : Conductor} (h : Ledger wf s) (c : Call) (hfor : c.isForTask = true)
    (hmoves : c.movesOn s = true) :
    Ledger wf (step wf s c) ∧ Counts (restagings wf s c) s (step wf s c) := by
  cases c with
  | updateTaskState t r event => exact update_counts recursionLimit t r event s h hfor hmoves
  | requestWorkflowStatus st =>
    have hcalm := Writes.calmly (@requestWorkflowStatus_writes wf Reserved Reserved st s)
    exact ⟨(hcalm h).1, (hcalm h).2.counts⟩
  | getNextTasks =>
    have hcalm := Writes.calmly (@getNextTasks_writes wf Reserved Reserved s)
    exact ⟨(hcalm h).1, (hcalm h).2.counts⟩

theorem init_calm (wf : Workflow) : Ledger wf (.init wf) ∧ Calm .empty (.init wf) := by
  refine (init_writes (K := Reserved) wf).calmly ⟨rfl, ?_, ?_, ?_⟩
  · exact fun e he => absurd he List.not_mem_nil
  · rintro t r i ⟨⟩
  · exact fun x hx => absurd hx List.not_mem_nil

/-- How often the entry at the position has begun to be retried in the run. -/
def timesEntered (wf : Workflow) (i : ℕ) (calls : List Call) : ℕ :=
  Run.total (step wf) (fun s c => enters i s (step wf s c)) (.init wf) calls

/-- How often the task of the entry at the position was staged again in the run. -/
def timesRestaged (wf : Workflow) (i : ℕ) (calls : List Call) : ℕ :=
  Run.total (step wf) (fun s c => (restagings wf s c).count i) (.init wf) calls

/-- After the run the retries of every entry of a task with a retry are counted exactly:
the entry is counted and staged as often as it has begun to be retried, and no more often
than it may be; and whenever it began to be retried it was staged last. -/
def RetriesCounted (wf : Workflow) (calls : List Call) : Prop :=
  let s := calls.foldl (step wf) (.init wf)
  ∀ i e, s.sequence[i]? = some e → (wf.graph.getTaskRetrySpec e.id).isSome →
    ∃ x, e.retry = some x ∧ (s.retry x).tally = timesEntered wf i calls ∧
      ((s.retry x).tally : ℤ) ≤ max 0 (s.retry x).count ∧
      timesRestaged wf i calls = timesEntered wf i calls ∧
      Run.Along (step wf) (fun s c => 0 < enters i s (step wf s c) →
        ∃ y, (step wf s c).staged.getLast? = some y ∧ y.retry = some x) (.init wf) calls

/-- A step counts the entry that has the record `x`, if it is there, as often as the entry
begins to be retried. -/
theorem step_counts_entry {s : Conductor} (h : Ledger wf s) {c : Call}
    (hfor : c.isForTask = true) (hmoves : c.movesOn s = true) {i : ℕ} {x : Ref}
    (hlast : (step wf s c).sequence[i]? = none ∨ (step wf s c).retryAt i = some x) :
    (s.sequence[i]? = none ∨ s.retryAt i = some x) ∧
      (step wf s c).tallyAt i = s.tallyAt i + enters i s (step wf s c) ∧
      (restagings wf s c).count i = enters i s (step wf s c) ∧
      (0 < enters i s (step wf s c) →
        ∃ y, (step wf s c).staged.getLast? = some y ∧ y.retry = some x) := by
  obtain ⟨_, hcounts⟩ := step_counts h c hfor hmoves
  have hentered : (restagings wf s c).count i = enters i s (step wf s c) := by
    rcases hlast with hnone | hsome
    · -- an entry that is not there is not counted
      have htally := hcounts.tally i
      have hzero : (step wf s c).tallyAt i = 0 := by
        rw [Conductor.tallyAt, Conductor.retryAt, hnone]
        rfl
      have hnot : enters i s (step wf s c) = 0 := by
        rw [enters, if_neg]
        rintro ⟨_, hret⟩
        rw [Conductor.retryingAt, hnone] at hret
        cases hret
      omega
    · exact (hcounts.entered i (by rw [hsome]; rfl)).symm
  refine ⟨?_, by rw [hcounts.tally, hentered], hentered, fun hpos => ?_⟩
  · cases he : s.sequence[i]? with
    | none => exact Or.inl rfl
    | some e =>
      obtain ⟨e', he', hretry⟩ := hcounts.kept i e he
      rcases hlast with hnone | hsome
      · rw [hnone] at he'
        cases he'
      · rw [Conductor.retryAt_eq he', hretry] at hsome
        exact Or.inr ((Conductor.retryAt_eq he).trans hsome)
  · rw [← hentered] at hpos
    obtain ⟨y, hy, hretry⟩ := hcounts.staged i (List.count_pos_iff.mp hpos)
    refine ⟨y, hy, hretry.symm.trans ?_⟩
    rcases hlast with hnone | hsome
    · rw [hentered, enters] at hpos
      split at hpos
      · rename_i hrise
        rw [Conductor.retryingAt, Conductor.retryingAt, hnone] at hrise
        cases hrise.2
      · exact absurd hpos (lt_irrefl 0)
    · exact hsome

/-- **Retries are counted exactly** in a run whose events move retrying tasks on. -/
theorem retries_counted (wf : Workflow) (calls : List Call)
    (hfor : ∀ c ∈ calls, c.isForTask = true)
    (h : Run.Along (step wf) (fun s c => c.movesOn s = true) (.init wf) calls) :
    RetriesCounted wf calls := by
  obtain ⟨hledger, hinit⟩ := init_calm wf
  have halong := (Run.along_const.mpr hfor).and h
  have hkept : ∀ s c, Ledger wf s → (c.isForTask = true ∧ c.movesOn s = true) →
      Ledger wf (step wf s c) := fun s c hs hc => (step_counts hs c hc.1 hc.2).1
  have hlast := Run.invariant_of_along hkept hledger halong
  intro i e he hspec
  have hgiven := hlast.given e (List.mem_of_getElem? he)
  rw [hspec] at hgiven
  obtain ⟨x, hx⟩ := Option.isSome_iff_exists.mp hgiven
  have hretry : (calls.foldl (step wf) (.init wf)).retryAt i = some x :=
    (Conductor.retryAt_eq he).trans hx
  obtain ⟨_, hentry⟩ := Run.along_of_last
    (J := fun s => s.sequence[i]? = none ∨ s.retryAt i = some x)
    (fun s c hs hc => ⟨hkept s c hs hc, fun hJ => step_counts_entry hs hc.1 hc.2 hJ⟩)
    hledger halong (Or.inr hretry)
  have htally : Conductor.tallyAt _ i = Conductor.tallyAt _ i + timesEntered wf i calls :=
    Run.Along.total (f := fun s => s.tallyAt i) (hentry.mono fun _ _ h => h.1)
  rw [hinit.tally i, Conductor.tallyAt, hretry] at htally
  refine ⟨x, hx, ?_, ?_, ?_, hentry.mono fun _ _ h => h.2.2⟩
  · rw [Option.elim_some] at htally
    rw [htally]
    exact Nat.zero_add _
  · refine hlast.bound _ ?_
    unfold Conductor.retry
    rw [List.getElem?_eq_getElem (hlast.lt hretry), Option.getD_some]
    exact List.getElem_mem _
  · exact (hentry.mono fun _ _ h => h.2.1).total_congr

/-! ### A task that may be retried once -/

/-- A workflow of one task, which is retried once if it fails. -/
def retriedTask : Workflow where
  spec := ⟨[], [], [("task1",
    ⟨none, none, none, .str "core.noop", .dict [], some ⟨none, .int 1, none⟩, []⟩)]⟩
  graph := ⟨[("task1", ⟨none, some ⟨none, .int 1, none⟩⟩)], []⟩
  inputs := []
  parentCtx := []
  evaluator := fun s _ => .ok (.str s)
  composed := ⟨2, rfl⟩

/-- The task fails, it is retried, and it fails again. -/
def failsTwice : List Call :=
  [.requestWorkflowStatus (some running), .updateTaskState "task1" 0 (.action (some running) .null),
    .updateTaskState "task1" 0 (.action (some failed) .null), .getNextTasks,
    .updateTaskState "task1" 0 (.action (some running) .null),
    .updateTaskState "task1" 0 (.action (some failed) .null)]

theorem retries_counted_failsTwice : RetriesCounted retriedTask failsTwice :=
  retries_counted retriedTask failsTwice (by decide) (by decide +kernel)

/-- The task fails, and while it is to be retried its action is requested. -/
def requestedWhileRetrying : List Call :=
  [.requestWorkflowStatus (some running), .updateTaskState "task1" 0 (.action (some running) .null),
    .updateTaskState "task1" 0 (.action (some failed) .null),
    .updateTaskState "task1" 0 (.action (some requested) .null)]

theorem not_retries_counted_requestedWhileRetrying :
    (∀ c ∈ requestedWhileRetrying, c.isForTask = true) ∧
      ¬ RetriesCounted retriedTask requestedWhileRetrying := by
  refine ⟨by decide, fun h => ?_⟩
  have hid : ((requestedWhileRetrying.foldl (step retriedTask)
      (.init retriedTask)).sequence[0]?).map TaskStateOf.id = some "task1" := by decide +kernel
  obtain ⟨e, he, hid⟩ := Option.map_eq_some_iff.mp hid
  obtain ⟨x, hx, htally, _⟩ := h 0 e he (by rw [hid]; decide)
  have htwo : (requestedWhileRetrying.foldl (step retriedTask)
      (.init retriedTask)).tallyAt 0 = 2 := by decide +kernel
  have hone : timesEntered retriedTask 0 requestedWhileRetrying = 1 := by decide +kernel
  rw [Conductor.tallyAt, Conductor.retryAt_eq he, hx, Option.elim_some, htally, hone] at htwo
  cases htwo

end Orquesta
end IntegratedCLI
