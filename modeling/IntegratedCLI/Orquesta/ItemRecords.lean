import IntegratedCLI.Orquesta.Retrying

/-!
# The staged records of a task with items

A task with items stays staged while its items run, and the statuses of the items are in
its staged record.  A task and route may have several records (`records`); the first one
is the one that item events are recorded in, and a record that is not the first has items
that none was reported of (`Untouched`).

`Apart t r` relates two states between which nothing is recorded for the task `t` on the
route `r`: the items of its first record are the same, or are new, and its status is the
same unless the task was told of a request for the workflow.  Every write that is for
other tasks is `Apart`, and so are the parts of an update that follow its event
(`continueUpdate_apart`).
-/

namespace IntegratedCLI
namespace Orquesta

open Effect Status

namespace Conductor

variable (t : String) (r : ℕ) (s : Conductor)

/-- The staged records of the task on the route. -/
def records : List StagedTask := s.staged.filter fun x => x.id = t ∧ x.route = r

/-- The status of the task on the route, which is that of its last entry. -/
def statusOf : Option Status := (s.getTaskStateEntry t r).bind TaskStateOf.status

theorem getStagedTask_eq_head? : s.getStagedTask t r = (s.records t r).head? := by
  have hfind : s.getStagedTask t r = s.staged.find? fun x => x.id = t ∧ x.route = r :=
    List.find?_eq_bind_findIdx?_getElem?.symm
  rw [hfind, records, List.head?_filter]

end Conductor

/-- None of the items was reported of. -/
def StagedTaskOf.Untouched (x : StagedTask) : Prop :=
  ∀ items, x.items = some items → ∀ st ∈ items, st = some .unset

/-! ## Records -/

/-- The first record has the items that it had, or new ones. -/
def Restocked (xs xs' : List StagedTask) : Prop :=
  (∀ x ∈ xs.tail, x.Untouched) → (∀ x ∈ xs'.tail, x.Untouched) ∧
    ∀ x' ∈ xs'.head?, x'.Untouched ∨ ∃ x ∈ xs.head?, x'.items = x.items

namespace Restocked

variable {xs xs' xs'' : List StagedTask}

theorem refl (xs : List StagedTask) : Restocked xs xs :=
  fun h => ⟨h, fun x hx => Or.inr ⟨x, hx, rfl⟩⟩

theorem trans (h : Restocked xs xs') (h' : Restocked xs' xs'') : Restocked xs xs'' := by
  intro hxs
  obtain ⟨htail, hhead⟩ := h hxs
  obtain ⟨htail', hhead'⟩ := h' htail
  refine ⟨htail', fun x'' hx'' => ?_⟩
  rcases hhead' x'' hx'' with hnew | ⟨x', hx', heq⟩
  · exact Or.inl hnew
  · rcases hhead x' hx' with hnew | ⟨x, hx, heq'⟩
    · refine Or.inl fun items hitems => hnew items ?_
      rw [← heq]
      exact hitems
    · exact Or.inr ⟨x, hx, heq.trans heq'⟩

theorem tail (xs : List StagedTask) : Restocked xs xs.tail := by
  intro h
  refine ⟨fun x hx => h x (List.mem_of_mem_tail hx), fun x hx => Or.inl (h x ?_)⟩
  exact List.mem_of_mem_head? hx

theorem append {x : StagedTask} (xs : List StagedTask) (hx : x.Untouched) :
    Restocked xs (xs ++ [x]) := by
  intro h
  cases xs with
  | nil => exact ⟨h, fun x' hx' => Or.inl (Option.some.inj hx' ▸ hx)⟩
  | cons y ys =>
    refine ⟨fun x' hx' => ?_, fun x' hx' => Or.inr ⟨x', hx', rfl⟩⟩
    rcases List.mem_append.mp hx' with hx' | hx'
    · exact h x' hx'
    · exact List.mem_singleton.mp hx' ▸ hx

/-- A record is changed: its items are kept, or they are new. -/
theorem modify {f : StagedTask → StagedTask} (hf : ∀ x, (f x).items = x.items ∨ (f x).Untouched)
    (xs : List StagedTask) (j : ℕ) : Restocked xs (xs.modify j f) := by
  have hkeep : ∀ {x : StagedTask}, x.Untouched → (f x).Untouched := by
    intro x hx
    rcases hf x with h | h
    · intro items hitems
      rw [h] at hitems
      exact hx items hitems
    · exact h
  intro h
  cases xs with
  | nil =>
    rw [List.modify_nil]
    exact refl [] h
  | cons y ys =>
    cases j with
    | zero =>
      refine ⟨h, fun x' hx' => ?_⟩
      obtain rfl : f y = x' := Option.some.inj hx'
      exact (hf y).symm.imp_right fun heq => ⟨y, rfl, heq⟩
    | succ j =>
      refine ⟨fun x' hx' => ?_, fun x' hx' => Or.inr ⟨x', hx', rfl⟩⟩
      rcases Positions.mem_modify hx' with hx' | ⟨x, hx, rfl⟩
      · exact h x' hx'
      · exact hkeep (h x (List.mem_of_getElem? hx))

end Restocked

section

variable {s s' : Conductor} {t : String} {r : ℕ}

theorem records_of_staged (h : s'.staged = s.staged) : s'.records t r = s.records t r := by
  unfold Conductor.records
  rw [h]

/-- A change that leaves it open which task the record is of changes one record at most. -/
theorem records_updateStaged {f : StagedTask → StagedTask}
    (hf : ∀ x, (f x).id = x.id ∧ (f x).route = x.route) (i : ℕ) (s : Conductor) :
    ∃ j, (s.updateStaged i f).records t r = (s.records t r).modify j f := by
  refine Positions.filter_modify (fun x => ?_) i s.staged
  obtain ⟨hid, hroute⟩ := hf x
  rw [hid, hroute]

theorem removeStagedTask_restocked (t' : String) (r' : ℕ) (s : Conductor) :
    Restocked (s.records t r) ((s.removeStagedTask t' r').records t r) := by
  unfold Conductor.removeStagedTask
  split
  · exact .refl _
  · rename_i i hi
    split
    · exact .refl _
    · obtain ⟨x, hx, hid, hroute⟩ := stagedIdx_spec hi
      by_cases hkey : t' = t ∧ r' = r
      · obtain ⟨rfl, rfl⟩ := hkey
        have htail := Positions.filter_eraseIdx_findIdx? hi
        unfold Conductor.records
        dsimp only
        rw [htail]
        exact .tail _
      · have hsame := Positions.filter_eraseIdx (p := fun x => x.id = t ∧ x.route = r) hx
          (by rw [hid, hroute]; exact decide_eq_false hkey)
        unfold Conductor.records
        dsimp only
        rw [hsame]
        exact .refl _

end

/-! ## What is apart from the task -/

/-- What holds of a task without a retry in every state: its entries have none, and of its
records only the first one can have items that were reported of. -/
structure Orderly (t : String) (r : ℕ) (s : Conductor) : Prop where
  last : ∀ t' r' i, s.taskStateIdx t' r' = some i →
    ∃ e, s.sequence[i]? = some e ∧ e.id = t' ∧ e.route = r'
  noRetry : ∀ e ∈ s.sequence, e.id = t → e.retry = none
  behind : ∀ x ∈ (s.records t r).tail, x.Untouched

/-- The status is the same, or the task was told to pause or to cancel. -/
def Told (st st' : Option Status) : Prop :=
  st' = st ∨ st.all (· ∉ completedStatuses) = true ∧ st'.any (· ∈ pauseStatuses ++ cancelStatuses) = true

/-- Nothing is recorded for the task. -/
structure Apart (t : String) (r : ℕ) (s s' : Conductor) : Prop where
  restocked : Restocked (s.records t r) (s'.records t r)
  told : Orderly t r s → Told (s.statusOf t r) (s'.statusOf t r)
  orderly : Orderly t r s → Orderly t r s'

section

variable {s s' : Conductor} {t : String} {r : ℕ}

instance : IsPreorder Conductor (Apart t r) where
  refl s := ⟨.refl _, fun _ => Or.inl rfl, id⟩
  trans s₁ s₂ s₃ h h' := by
    refine ⟨h.restocked.trans h'.restocked, fun h₁ => ?_, fun h₁ => h'.orderly (h.orderly h₁)⟩
    rcases h'.told (h.orderly h₁) with heq | ⟨hold, hnew⟩
    · rw [heq]
      exact h.told h₁
    · rcases h.told h₁ with heq | ⟨hold', _⟩
      · exact Or.inr ⟨heq ▸ hold, hnew⟩
      · exact Or.inr ⟨hold', hnew⟩

theorem Apart.head (h : Apart t r s s') (hs : Orderly t r s) {x' : StagedTask}
    (hx' : s'.getStagedTask t r = some x') :
    x'.Untouched ∨ ∃ x, s.getStagedTask t r = some x ∧ x'.items = x.items := by
  rw [Conductor.getStagedTask_eq_head?] at hx' ⊢
  exact (h.restocked hs.behind).2 x' hx'

/-- The entries and the records of the task are not written. -/
theorem apart_of_entries (hrecords : Restocked (s.records t r) (s'.records t r))
    (hseq : s'.sequence = s.sequence) (htasks : s'.tasks = s.tasks) : Apart t r s s' := by
  have hidx : ∀ t' r', s'.taskStateIdx t' r' = s.taskStateIdx t' r' := by
    intro t' r'
    unfold Conductor.taskStateIdx
    rw [htasks]
  refine ⟨hrecords, fun _ => Or.inl ?_, fun h => ⟨?_, ?_, (hrecords h.behind).1⟩⟩
  · unfold Conductor.statusOf Conductor.getTaskStateEntry
    rw [hidx, hseq]
  · intro t' r' i hi
    rw [hidx] at hi
    rw [hseq]
    exact h.last t' r' i hi
  · rw [hseq]
    exact h.noRetry

theorem Orderly.updateEntry {f : TaskState → TaskState} (h : Orderly t r s)
    (hf : ∀ e, (f e).booking = e.booking) (i : ℕ) : Orderly t r (s.updateEntry i f) := by
  refine ⟨fun t' r' j hj => ?_, fun e he => ?_, h.behind⟩
  · obtain ⟨e, he, hid, hroute⟩ := h.last t' r' j hj
    show ∃ e, (s.sequence.modify i f)[j]? = some e ∧ _
    rw [Positions.getElem?_modify, he]
    have hb := hf e
    split
    · refine ⟨f e, rfl, ?_, ?_⟩
      · exact (congrArg Prod.fst hb).trans hid
      · exact (congrArg (fun b : String × ℕ × Option Ref => b.2.1) hb).trans hroute
    · exact ⟨e, rfl, hid, hroute⟩
  · rcases Positions.mem_modify he with he | ⟨e', he', rfl⟩
    · exact h.noRetry e he
    · have hb := hf e'
      intro hid
      rw [← h.noRetry e' (List.mem_of_getElem? he') ((congrArg Prod.fst hb).symm.trans hid)]
      exact congrArg (fun b : String × ℕ × Option Ref => b.2.2) hb

/-- An entry is written, but for what it is of. -/
theorem apart_updateEntry {f : TaskState → TaskState} (i : ℕ)
    (hf : ∀ e, (f e).booking = e.booking)
    (htold : Orderly t r s → s.taskStateIdx t r = some i → ∀ e, s.sequence[i]? = some e →
      Told e.status (f e).status) :
    Apart t r s (s.updateEntry i f) := by
  refine ⟨.refl _, fun h => ?_, fun h => h.updateEntry hf i⟩
  unfold Conductor.statusOf Conductor.getTaskStateEntry
  show Told _ (((s.taskStateIdx t r).bind fun j => (s.sequence.modify i f)[j]?).bind _)
  cases hj : s.taskStateIdx t r with
  | none => exact Or.inl rfl
  | some j =>
    rw [Option.bind_some, Option.bind_some, Positions.getElem?_modify]
    split
    · rename_i hij
      subst hij
      cases he : s.sequence[i]? with
      | none => exact Or.inl rfl
      | some e => exact htold h hj e he
    · exact Or.inl rfl

theorem taskStateIdx_pushEntry (e : TaskState) (s : Conductor) (t' : String) (r' : ℕ) :
    (pushEntry e s).taskStateIdx t' r' =
      if (⟨t', r'⟩ : TaskKey) = ⟨e.id, e.route⟩ then some s.sequence.length
      else s.taskStateIdx t' r' := Dict.lookup_put ..

theorem Orderly.pushEntry (h : Orderly t r s) {e : TaskState}
    (hretry : e.id = t → e.retry = none) : Orderly t r (pushEntry e s) := by
  refine ⟨fun t' r' i hi => ?_, fun e' he' => ?_, h.behind⟩
  · rw [taskStateIdx_pushEntry] at hi
    split at hi
    · rename_i heq
      cases heq
      cases hi
      exact ⟨e, List.getElem?_concat_length, rfl, rfl⟩
    · obtain ⟨e', he', hof⟩ := h.last t' r' i hi
      exact ⟨e', getElem?_pushEntry he', hof⟩
  · rcases List.mem_append.mp he' with he' | he'
    · exact h.noRetry e' he'
    · rw [List.mem_singleton.mp he']
      exact hretry

/-- An entry is started for another task, or for the task on another route. -/
theorem apart_pushEntry {e : TaskState} (hkey : ¬ (e.id = t ∧ e.route = r))
    (hretry : e.id = t → e.retry = none) : Apart t r s (pushEntry e s) := by
  refine ⟨.refl _, fun h => Or.inl ?_, fun h => h.pushEntry hretry⟩
  unfold Conductor.statusOf Conductor.getTaskStateEntry
  rw [taskStateIdx_pushEntry, if_neg]
  · cases hi : s.taskStateIdx t r with
    | none => rfl
    | some i =>
      obtain ⟨e', he', _⟩ := h.last t r i hi
      rw [Option.bind_some, Option.bind_some, getElem?_pushEntry he', he']
  · intro heq
    cases heq
    exact hkey ⟨rfl, rfl⟩

theorem apart_updateStaged {f : StagedTask → StagedTask}
    (hkey : ∀ x, (f x).id = x.id ∧ (f x).route = x.route)
    (hf : ∀ x, (f x).items = x.items ∨ (f x).Untouched) (i : ℕ) (s : Conductor) :
    Apart t r s (s.updateStaged i f) := by
  refine apart_of_entries ?_ rfl rfl
  obtain ⟨j, hj⟩ := records_updateStaged (t := t) (r := r) hkey i s
  rw [hj]
  exact Restocked.modify hf _ j

variable {wf : Workflow} {K J : String → ℕ → Prop}

/-- **A write** is apart from a task that it is not for. -/
theorem Write.apart (hretry : wf.graph.getTaskRetrySpec t = none) (hK : ¬ K t r) (hJ : ¬ J t r)
    (hw : Write wf K J s s') : Apart t r s s' := by
  cases hw with
  | rest hseq htasks hstaged _ =>
    refine apart_of_entries ?_ hseq htasks
    rw [records_of_staged hstaged]
    exact .refl _
  | note i f hf =>
    refine apart_updateEntry i (fun e => ?_) fun _ _ e _ => Or.inl ?_
    · rw [hf e]
      rfl
    · rw [hf e]
  | tell he hst =>
    obtain ⟨hold, hnew⟩ := nextStatus_workflow hst
    refine apart_updateEntry _ ?_ fun _ _ e' he' => Or.inr ⟨?_, decide_eq_true hnew⟩
    · exact fun _ => rfl
    · obtain rfl := Option.some.inj (he.symm.trans he')
      unfold TaskStateOf.statusOrUnset at hold
      revert hold
      cases TaskStateOf.status _ with
      | none => exact fun _ => rfl
      | some st => exact fun hold => decide_eq_true hold
  | unstage t' r' =>
    have hsame : (s.removeStagedTask t' r').sequence = s.sequence ∧
        (s.removeStagedTask t' r').tasks = s.tasks := by
      unfold Conductor.removeStagedTask
      split
      · exact ⟨rfl, rfl⟩
      · split <;> exact ⟨rfl, rfl⟩
    exact apart_of_entries (removeStagedTask_restocked t' r' s) hsame.1 hsame.2
  | mark i f hf =>
    refine apart_updateStaged (fun x => ?_) (fun x => Or.inl ?_) i s
    · rw [hf x]
      exact ⟨rfl, rfl⟩
    · rw [hf x]
  | clear i =>
    refine apart_updateStaged ?_ ?_ i s
    · exact fun _ => ⟨rfl, rfl⟩
    · exact fun _ => Or.inr fun _ h => nomatch h
  | offer hx hitems =>
    refine apart_updateStaged ?_ ?_ _ s
    · exact fun _ => ⟨rfl, rfl⟩
    · rintro x
      refine Or.inr fun items hnew st hst => ?_
      cases hnew
      exact List.eq_of_mem_replicate hst
  | stage x hitems =>
    refine apart_of_entries ?_ rfl rfl
    have hnew : x.Untouched := fun items h => by
      rw [hitems] at h
      cases h
    unfold Conductor.records
    rw [List.filter_append]
    by_cases hx : x.id = t ∧ x.route = r
    · rw [List.filter_cons, if_pos (decide_eq_true hx), List.filter_nil]
      exact .append _ hnew
    · rw [List.filter_cons, if_neg (by rwa [decide_eq_true_eq]), List.filter_nil, List.append_nil]
      exact .refl _
  | @item t' r' i k x items st hK' hi hx hitems hk =>
    obtain ⟨y, hy, rfl, rfl⟩ := stagedIdx_spec hi
    have hother : decide (y.id = t ∧ y.route = r) = false :=
      decide_eq_false fun ⟨hid, hroute⟩ => hK (hid ▸ hroute ▸ hK')
    refine apart_of_entries ?_ rfl rfl
    have hsame := Positions.filter_modify_of_not (p := fun x => x.id = t ∧ x.route = r)
      (f := fun x => { x with items := some (items.set k st) }) hy hother hother
    unfold Conductor.records Conductor.updateStaged
    rw [hsame]
    exact .refl _
  | @start e q hK' hst hretry' =>
    refine trans_of (Apart t r) (b := { s with retries := s.retries ++ q })
      (apart_of_entries (s := s) (.refl _) rfl rfl) (apart_pushEntry ?_ fun hid => ?_)
    · rintro ⟨rfl, rfl⟩
      exact hK hK'
    · rcases hretry' with ⟨_, hnone, _⟩ | ⟨⟨spec, hspec⟩, _⟩
      · exact hnone
      · rw [hid, hretry] at hspec
        cases hspec
  | advance hJ' hi he hst =>
    refine apart_updateEntry _ ?_ fun h hi' => ?_
    · exact fun _ => rfl
    · obtain ⟨e, he, rfl, rfl⟩ := h.last t r _ hi'
      obtain ⟨e', he', rfl, rfl⟩ := h.last _ _ _ hi
      cases he.symm.trans he'
      exact (hJ hJ').elim
  | count _ _ _ _ => exact apart_of_entries (.refl _) rfl rfl

theorem Writes.apart (hretry : wf.graph.getTaskRetrySpec t = none) (hK : ¬ K t r) (hJ : ¬ J t r)
    (h : Writes wf K J s s') : Apart t r s s' :=
  h.within fun _ _ => Write.apart hretry hK hJ

end

/-! ## Calls -/

section

variable {wf : Workflow} {t : String} {r : ℕ} {s : Conductor}

/-- A call for another task, or for the task on another route. -/
theorem updateTaskStateTo_apart (hres : isReserved t = false)
    (hretry : wf.graph.getTaskRetrySpec t = none) (n : ℕ) {t' : String} {r' : ℕ} (event : Event)
    (hother : ¬ (t' = t ∧ r' = r)) : Moves (Apart t r) (updateTaskStateTo wf n t' r' event) := by
  let K : String → ℕ → Prop := fun u q => u = t' ∧ q = r' ∨ isReserved u = true
  have hK : ¬ K t r := by
    rintro (⟨rfl, rfl⟩ | h)
    · exact hother ⟨rfl, rfl⟩
    · rw [hres] at h
      cases h
  have hmoves : Moves (Writes wf K K) (updateTaskStateTo wf n t' r' event) :=
    updateTaskStateTo_writes (fun _ _ h => ⟨Or.inr h, Or.inr h⟩) n event (Or.inl ⟨rfl, rfl⟩)
      (Or.inl ⟨rfl, rfl⟩)
  exact hmoves.mono fun _ _ => Writes.apart hretry hK hK

theorem moves_apart {α : Type} {m : M α} (hretry : wf.graph.getTaskRetrySpec t = none)
    (hm : Moves (Writes wf (fun _ _ => False) fun _ _ => False) m) : Moves (Apart t r) m :=
  hm.mono fun _ _ => Writes.apart hretry id id

/-- **What follows from the new status** of the task is apart from the task itself. -/
theorem continueUpdate_apart (hres : isReserved t = false)
    (hretry : wf.graph.getTaskRetrySpec t = none) (n : ℕ) (event : Event) (p : Progress)
    (hs : Orderly t r s) (hidx : At t r p.idx s) :
    Outcome (continueUpdate wf (updateTaskStateTo wf n) t r event p)
      (fun _ => Apart t r s) (fun _ => Apart t r s) s := by
  obtain ⟨e, he, hid, _⟩ := hs.last t r p.idx hidx
  have hnone := hs.noRetry e (List.mem_of_getElem? he) hid
  have hfinish : ∀ ctx, Moves (Apart t r) (finishUpdate wf p.spec t r p.idx p.old p.new ctx
      fun c => updateTaskStateTo wf n c.1 c.2 (commandEvent c)) := by
    intro ctx
    have hcommand : ∀ c : String × ℕ, isReserved c.1 = true →
        Moves (Writes wf Reserved Reserved) (updateTaskStateTo wf n c.1 c.2 (commandEvent c)) :=
      fun c hc => updateTaskStateTo_writes (fun _ _ h => ⟨h, h⟩) n _ hc hc
    have hnot : ¬ Reserved t r := by
      unfold Reserved
      rw [hres]
      exact Bool.false_ne_true
    exact (finishUpdate_writes hcommand p.spec t r p.idx p.old p.new ctx).mono
      fun _ _ => Writes.apart hretry hnot hnot
  unfold continueUpdate
  dsimp only
  split
  · -- there is no retry that could be counted
    rw [outcome_bind, restage, outcome_bind, outcome_get, he]
    dsimp only
    rw [hnone]
    exact refl_of (Apart t r) s
  · split
    · rw [outcome_bind]
      refine (((moves_apart hretry (completeTask_writes p.spec t r p.idx p.new event)).outcome
        s).and (completeTask_sequence p.spec t r p.idx p.new event s)).mono ?_ fun _ _ h => h.1
      rintro ctx s₁ ⟨h₁, hseq⟩
      rw [outcome_bind]
      have he₁ : s₁.sequence[p.idx]? = some e := hseq.symm ▸ he
      refine (((moves_apart (r := r) hretry (needsRetry_writes p.idx ctx)).outcome s₁).and
        (needsRetry_none he₁ hnone wf ctx)).mono ?_ fun _ _ h => h.2.elim
      rintro due s₂ ⟨h₂, rfl⟩
      rw [if_neg Bool.false_ne_true]
      exact (hfinish ctx).step (fun _ _ h => trans_of (Apart t r) (trans_of (Apart t r) h₁ h₂) h)
        fun _ _ h => trans_of (Apart t r) (trans_of (Apart t r) h₁ h₂) h
    · exact (hfinish _).outcome s

theorem Orderly.empty (t : String) (r : ℕ) : Orderly t r .empty :=
  ⟨fun _ _ _ h => (nomatch h), fun _ h => (nomatch h), fun _ h => (nomatch h)⟩

theorem init_apart (hretry : wf.graph.getTaskRetrySpec t = none) :
    Apart t r .empty (.init wf) :=
  Writes.apart (K := fun _ _ => False) (J := fun _ _ => False) hretry id id (init_writes wf)

end

end Orquesta
end IntegratedCLI
