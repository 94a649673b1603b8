import IntegratedCLI.Lib.Run
import IntegratedCLI.Mon.Monitor

/-!
# The elements agree with the state of the monitor

What every call leaves behind: if the monitor is closed its elements are closed, if it
is open they are open, and if it is enabled they are open or enabled, those being
enabled that belong to a group at the front of a queue.

The queues rotate backwards: `muxRotate` moves the last group of every queue to the
front.  It returns at a queue that has become empty, without bringing the elements in
line, so the runs that are considered do not rotate while there is such a queue.

## The argument

`Element.commit_uniform` and `Element.commitForCpu_spec` say what the changes do to the
generators of an element, all at once or CPU by CPU; either way `sync` leaves every
element as `listOf` has it, `sync_settles`.  What the queues and groups need for this
is `Queued`, which every call keeps.
-/

namespace IntegratedCLI
namespace Mon

/-! ## Elements -/

namespace Element

variable {e : Element} {s t u : State} {cpu : ℕ}

/-- All generators are in the state. -/
def Uniform (s : State) (e : Element) : Prop := ∀ g ∈ e.generators, g.state = s

theorem Uniform.isOpen (h : Uniform s e) : e.isOpen = decide (s ≠ .closed) := by
  rw [Element.isOpen, Generator.isOpen, h e.first List.mem_cons_self]

theorem Uniform.isEnabled (h : Uniform s e) : e.isEnabled = decide (s = .enabled) := by
  rw [Element.isEnabled, Generator.isEnabled, h e.first List.mem_cons_self]

theorem generators_forGenerators (f : Generator → Generator) :
    (e.forGenerators f).generators = e.generators.map f := rfl

theorem Uniform.forGenerators (h : Uniform s e) {f : Generator → Generator}
    (hf : ∀ g, g.state = s → (f g).state = t) : Uniform t (e.forGenerators f) := by
  intro g hg
  rw [generators_forGenerators] at hg
  obtain ⟨g', hg', rfl⟩ := List.mem_map.mp hg
  exact hf g' (h g' hg')

/-- The state after `disable`, where it is called if needed. -/
def disabled : State → State
  | .enabled => .open
  | s => s

/-- The state after `open`, where it is called if needed. -/
def opened : State → State
  | .closed => .open
  | s => s

theorem Uniform.tryDisable (h : Uniform s e) : Uniform (disabled s) e.tryDisable := by
  rw [Element.tryDisable, h.isEnabled]
  cases s with
  | closed => exact h
  | «open» => exact h
  | enabled =>
    refine h.forGenerators fun g hg => ?_
    rw [Generator.disable, Generator.isEnabled, hg]
    rfl

theorem Uniform.tryClose (h : Uniform s e) : Uniform .closed e.tryClose := by
  rw [Element.tryClose, h.isOpen]
  cases s with
  | closed => exact h
  | «open» => exact h.forGenerators fun _ _ => rfl
  | enabled => exact h.forGenerators fun _ _ => rfl

theorem Uniform.tryOpen (h : Uniform s e) : Uniform (opened s) e.tryOpen := by
  rw [Element.tryOpen, h.isOpen]
  cases s with
  | closed =>
    refine h.forGenerators fun g hg => ?_
    rw [Generator.open, Generator.isOpen, hg]
    rfl
  | «open» => exact h
  | enabled => exact h

theorem Uniform.tryEnable (h : Uniform s e) (hs : s ≠ .closed) : Uniform .enabled e.tryEnable := by
  rw [Element.tryEnable, h.isEnabled]
  cases s with
  | closed => exact absurd rfl hs
  | «open» =>
    refine h.forGenerators fun g hg => ?_
    rw [Generator.enable, Generator.isOpen, hg]
    rfl
  | enabled => exact h

/-- What is done to an element on the list for a state. -/
def commit (t : State) (e : Element) : Element :=
  match t with
  | .closed => e.tryDisable.tryClose
  | .open => e.tryDisable.tryOpen
  | .enabled => e.tryOpen.tryEnable

theorem commit_uniform (h : Uniform s e) (t : State) : Uniform t (commit t e) := by
  cases t with
  | closed => exact h.tryDisable.tryClose
  | «open» =>
    have ht := h.tryDisable.tryOpen
    cases s <;> exact ht
  | enabled =>
    refine h.tryOpen.tryEnable ?_
    cases s <;> exact fun hs => State.noConfusion hs

/-! ### On one CPU -/

/-- The generators of the CPU are in the state. -/
def UniformOn (cpu : ℕ) (s : State) (e : Element) : Prop :=
  ∀ g ∈ e.generators, g.cpu = cpu → g.state = s

/-- A generator in another state, if it is on the CPU. -/
def setOn (cpu : ℕ) (s : State) (g : Generator) : Generator :=
  if g.cpu = cpu then { g with state := s } else g

theorem onCpu_spec (h : UniformOn cpu s e) :
    (∃ g, e.onCpu cpu = some g ∧ g.state = s) ∨
      e.onCpu cpu = none ∧ ∀ g ∈ e.generators, g.cpu ≠ cpu := by
  cases hg : e.onCpu cpu with
  | some g =>
    obtain ⟨hmem, hcpu⟩ := List.mem_filter.mp (List.mem_of_getLast? hg)
    exact .inl ⟨g, rfl, h g hmem (of_decide_eq_true hcpu)⟩
  | none =>
    refine .inr ⟨rfl, fun g hmem hcpu => ?_⟩
    have hnil := List.getLast?_eq_none_iff.mp hg
    exact List.ne_nil_of_mem (List.mem_filter.mpr ⟨hmem, decide_eq_true hcpu⟩) hnil

/-- A change that is made unless the generators of the CPU already are as they should. -/
theorem generators_forCpu_or (h : UniformOn cpu s e) {flag : Generator → Bool} {b : Bool}
    {f : Generator → Generator}
    (hf : ∀ g, g.state = s → (if flag g = b then f g else g) = { g with state := t })
    (hflag : ∀ g g' : Generator, g.state = g'.state → flag g = flag g') :
    (if (e.onCpu cpu).elim false flag = b then e.forCpu cpu f else e).generators
      = e.generators.map (setOn cpu t) := by
  rcases onCpu_spec h with ⟨g, hg, hs⟩ | ⟨hnone, hne⟩
  · rw [hg]
    show (if flag g = b then e.forCpu cpu f else e).generators = _
    by_cases hb : flag g = b
    · rw [if_pos hb]
      show e.generators.map (fun g => if g.cpu = cpu then f g else g) = _
      refine List.map_congr_left fun g' hg' => ?_
      by_cases hcpu : g'.cpu = cpu
      · have hs' := h g' hg' hcpu
        have := hf g' hs'
        rw [if_pos ((hflag g' g (hs'.trans hs.symm)).trans hb)] at this
        rw [if_pos hcpu, setOn, if_pos hcpu, this]
      · rw [if_neg hcpu, setOn, if_neg hcpu]
    · rw [if_neg hb]
      refine (List.map_id' _).symm.trans (List.map_congr_left fun g' hg' => ?_)
      by_cases hcpu : g'.cpu = cpu
      · have hs' := h g' hg' hcpu
        have := hf g' hs'
        rw [if_neg fun hb' => hb ((hflag g g' (hs.trans hs'.symm)).trans hb')] at this
        rw [setOn, if_pos hcpu]
        exact this
      · rw [setOn, if_neg hcpu]
  · have hsame : ∀ f : Generator → Generator,
        e.generators.map (fun g => if g.cpu = cpu then f g else g) = e.generators := by
      intro f
      refine (List.map_congr_left fun g hg => ?_).trans (List.map_id' _)
      rw [if_neg (hne g hg)]
    have hset : e.generators.map (setOn cpu t) = e.generators := hsame fun g => { g with state := t }
    rw [hset]
    split_ifs
    · exact hsame f
    · rfl

theorem uniformOn_of_setOn {e' : Element} (h : e'.generators = e.generators.map (setOn cpu s)) :
    UniformOn cpu s e' := by
  intro g hg hcpu
  rw [h] at hg
  obtain ⟨g', -, rfl⟩ := List.mem_map.mp hg
  rw [setOn] at hcpu ⊢
  split_ifs at hcpu ⊢
  · rfl
  · contradiction

theorem map_setOn_setOn {l : List Generator} :
    (l.map (setOn cpu s)).map (setOn cpu t) = l.map (setOn cpu t) := by
  rw [List.map_map]
  refine List.map_congr_left fun g _ => ?_
  show setOn cpu t (setOn cpu s g) = setOn cpu t g
  by_cases h : g.cpu = cpu
  · have hs : setOn cpu s g = { g with state := s } := if_pos h
    rw [hs, setOn, setOn, if_pos h]
    exact (if_pos h).symm
  · rw [setOn, setOn, if_neg h, setOn, if_neg h]

theorem generators_tryDisableForCpu (h : UniformOn cpu s e) :
    (e.tryDisableForCpu cpu).generators = e.generators.map (setOn cpu (disabled s)) := by
  refine generators_forCpu_or h (fun ⟨c, s'⟩ hg => ?_) fun g g' hgg' => ?_
  · subst hg
    cases s' <;> rfl
  · rw [Generator.isEnabled, Generator.isEnabled, hgg']

theorem generators_tryCloseForCpu (h : UniformOn cpu s e) :
    (e.tryCloseForCpu cpu).generators = e.generators.map (setOn cpu .closed) := by
  refine generators_forCpu_or h (fun ⟨c, s'⟩ hg => ?_) fun g g' hgg' => ?_
  · subst hg
    cases s' <;> rfl
  · rw [Generator.isOpen, Generator.isOpen, hgg']

theorem ite_true_eq_ite_false {α : Type} (b : Bool) (x y : α) :
    (if b = true then x else y) = if b = false then y else x := by
  cases b <;> rfl

theorem generators_tryOpenForCpu (h : UniformOn cpu s e) :
    (e.tryOpenForCpu cpu).generators = e.generators.map (setOn cpu (opened s)) := by
  rw [tryOpenForCpu, ite_true_eq_ite_false]
  refine generators_forCpu_or h (fun ⟨c, s'⟩ hg => ?_) fun g g' hgg' => ?_
  · subst hg
    cases s' <;> rfl
  · rw [Generator.isOpen, Generator.isOpen, hgg']

theorem generators_tryEnableForCpu (h : UniformOn cpu s e) (hs : s ≠ .closed) :
    (e.tryEnableForCpu cpu).generators = e.generators.map (setOn cpu .enabled) := by
  rw [tryEnableForCpu, ite_true_eq_ite_false]
  refine generators_forCpu_or h (fun ⟨c, s'⟩ hg => ?_) fun g g' hgg' => ?_
  · subst hg
    cases s' with
    | closed => exact absurd rfl hs
    | «open» => rfl
    | enabled => rfl
  · rw [Generator.isEnabled, Generator.isEnabled, hgg']

/-- What is done on one CPU to an element on the list for a state. -/
def commitForCpu (t : State) (e : Element) (cpu : ℕ) : Element :=
  match t with
  | .closed => (e.tryDisableForCpu cpu).tryCloseForCpu cpu
  | .open => (e.tryDisableForCpu cpu).tryOpenForCpu cpu
  | .enabled => (e.tryOpenForCpu cpu).tryEnableForCpu cpu

theorem commitForCpu_spec (h : UniformOn cpu s e) (t : State) :
    (e.commitForCpu t cpu).generators = e.generators.map (setOn cpu t) := by
  have hd := generators_tryDisableForCpu h
  have ho := generators_tryOpenForCpu h
  cases t with
  | closed =>
    show ((e.tryDisableForCpu cpu).tryCloseForCpu cpu).generators = _
    rw [generators_tryCloseForCpu (uniformOn_of_setOn hd), hd, map_setOn_setOn]
  | «open» =>
    have hs : opened (disabled s) = .open := by cases s <;> rfl
    show ((e.tryDisableForCpu cpu).tryOpenForCpu cpu).generators = _
    rw [generators_tryOpenForCpu (uniformOn_of_setOn hd), hd, map_setOn_setOn, hs]
  | enabled =>
    have hs : opened s ≠ .closed := by
      cases s <;> exact fun hs => State.noConfusion hs
    show ((e.tryOpenForCpu cpu).tryEnableForCpu cpu).generators = _
    rw [generators_tryEnableForCpu (uniformOn_of_setOn ho) hs, ho, map_setOn_setOn]

/-- **CPU by CPU.**  The induction is on the CPUs; the generators of those that were
gone through are in the new state, the others in the old one. -/
theorem commitForCpus_uniform (h : Uniform s e) (t : State) {cpus : List ℕ}
    (hc : ∀ g ∈ e.generators, g.cpu ∈ cpus) : Uniform t (cpus.foldl (commitForCpu t) e) := by
  have hmixed : ∀ (cpus done : List ℕ) (e : Element),
      (∀ g ∈ e.generators, g.state = if g.cpu ∈ done then t else s) →
      (∀ g ∈ e.generators, g.cpu ∈ done ++ cpus) → Uniform t (cpus.foldl (commitForCpu t) e) := by
    intro cpus
    induction cpus with
    | nil =>
      intro done e hs hc g hg
      have hdone := hc g hg
      rw [List.append_nil] at hdone
      rw [hs g hg, if_pos hdone]
    | cons cpu cpus ih =>
      intro done e hs hc
      have hon : UniformOn cpu (if cpu ∈ done then t else s) e := by
        intro g hg hcpu
        rw [hs g hg, hcpu]
      have hgens := commitForCpu_spec hon t
      refine ih (done ++ [cpu]) _ ?_ ?_
      · intro g hg
        rw [hgens] at hg
        obtain ⟨g', hg', rfl⟩ := List.mem_map.mp hg
        rw [setOn]
        by_cases hcpu : g'.cpu = cpu
        · rw [if_pos hcpu]
          exact (if_pos (List.mem_append_right _ (List.mem_singleton.mpr hcpu))).symm
        · rw [if_neg hcpu, hs g' hg']
          refine if_congr ?_ rfl rfl
          rw [List.mem_append, List.mem_singleton, or_iff_left hcpu]
      · intro g hg
        rw [hgens] at hg
        obtain ⟨g', hg', rfl⟩ := List.mem_map.mp hg
        have hcpu : (setOn cpu t g').cpu = g'.cpu := by
          rw [setOn]
          split_ifs <;> rfl
        rw [hcpu, List.append_assoc, List.singleton_append]
        exact hc g' hg'
  refine hmixed cpus [] e (fun g hg => ?_) fun g hg => ?_
  · rw [if_neg List.not_mem_nil]
    exact h g hg
  · exact hc g hg

end Element

/-- The exceptions that are raised before anything is changed. -/
def Failure.OfArgument (failure : Failure) : Prop := failure = .alreadyThere ∨ failure = .pmuTypes

namespace Monitor

variable {PmuType MuxGroupId ElemId : Type}

/-! ## Containers -/

section Containers

variable {c : Container ElemId} {listOf : ElemId → State}

theorem passes_eq {f : State → Element → Element} :
    pass listOf .enabled (f .enabled) (pass listOf .open (f .open) (pass listOf .closed (f .closed) c))
      = c.map fun e => (e.1, f (listOf e.1) e.2) := by
  rw [pass, pass, pass, List.map_map, List.map_map]
  refine List.map_congr_left fun e _ => ?_
  cases h : listOf e.1 <;> simp [h]

theorem commitElemChange_eq :
    commitElemChange listOf c = c.map fun e => (e.1, e.2.commit (listOf e.1)) :=
  @passes_eq _ c listOf Element.commit

theorem commitElemChangeForCpu_eq (cpu : ℕ) :
    commitElemChangeForCpu listOf c cpu
      = c.map fun e => (e.1, e.2.commitForCpu (listOf e.1) cpu) :=
  @passes_eq _ c listOf fun s e => e.commitForCpu s cpu

theorem commitOnCpus_eq (cpus : List ℕ) :
    cpus.foldl (commitElemChangeForCpu listOf) c
      = c.map fun e => (e.1, cpus.foldl (Element.commitForCpu (listOf e.1)) e.2) := by
  induction cpus generalizing c with
  | nil => exact (List.map_id' c).symm
  | cons cpu cpus ih =>
    rw [List.foldl_cons, ih, commitElemChangeForCpu_eq, List.map_map]
    rfl

/-- Either way, every element is left in the state of its list. -/
theorem commit_spec (onLocalCpu : Bool) (h : ∀ e ∈ c, ∃ s, e.2.Uniform s) :
    ∃ f : ElemId × Element → Element,
      (if onLocalCpu then commitElemChangeOnLocalCpu listOf c else commitElemChange listOf c)
        = c.map (fun e => (e.1, f e)) ∧ ∀ e ∈ c, (f e).Uniform (listOf e.1) := by
  cases onLocalCpu with
  | false =>
    refine ⟨fun e => e.2.commit (listOf e.1), commitElemChange_eq, fun e he => ?_⟩
    obtain ⟨s, hs⟩ := h e he
    exact Element.commit_uniform hs _
  | true =>
    refine ⟨_, commitOnCpus_eq (cpusOf c), fun e he => ?_⟩
    obtain ⟨s, hs⟩ := h e he
    refine Element.commitForCpus_uniform hs _ fun g hg => ?_
    rw [cpusOf, List.mem_insertionSort, List.mem_dedup, List.mem_flatMap]
    exact ⟨e, he, List.mem_map_of_mem hg⟩

end Containers

/-! ## Queues and groups -/

variable {m m' : Monitor PmuType MuxGroupId ElemId}

/-- The element belongs to a group at the front of a queue. -/
def AtFront (m : Monitor PmuType MuxGroupId ElemId) (k : ElemId) : Prop :=
  ∃ g ∈ m.getEnabledMuxGroupId, ∃ ids, m.muxGroups g = some ids ∧ k ∈ ids

/-- The elements agree with the state of the monitor. -/
structure Agrees (m : Monitor PmuType MuxGroupId ElemId) : Prop where
  closed : m.state = .closed → ∀ kind, ∀ e ∈ m.elems kind, e.2.Uniform .closed
  «open» : m.state = .open → ∀ kind, ∀ e ∈ m.elems kind, e.2.Uniform .open
  front : m.state = .enabled → ∀ kind, ∀ e ∈ m.elems kind,
    m.AtFront e.1 → e.2.Uniform .enabled
  behind : m.state = .enabled → ∀ kind, ∀ e ∈ m.elems kind,
    ¬ m.AtFront e.1 → e.2.Uniform .open

/-- The queues are of groups that there are, every group is in a queue, and there is no
element before there is a queue. -/
structure Queued (m : Monitor PmuType MuxGroupId ElemId) : Prop where
  keys : (m.muxQueue.map Prod.fst).Nodup
  nodup : ∀ q ∈ m.muxQueue, q.2.Nodup
  groups : ∀ q ∈ m.muxQueue, ∀ g ∈ q.2, ∃ ids, m.muxGroups g = some ids
  queued : ∀ g ids, m.muxGroups g = some ids → ids ≠ [] ∧ ∃ q ∈ m.muxQueue, g ∈ q.2
  idle : m.muxQueue = [] → ∀ kind, m.elems kind = []

/-- Every element has its generators in one state. -/
def AllUniform (m : Monitor PmuType MuxGroupId ElemId) : Prop :=
  ∀ kind, ∀ e ∈ m.elems kind, ∃ s, e.2.Uniform s

theorem Agrees.allUniform (h : Agrees m) : m.AllUniform := by
  intro kind e he
  cases hs : m.state with
  | closed => exact ⟨_, h.closed hs kind e he⟩
  | «open» => exact ⟨_, h.open hs kind e he⟩
  | enabled =>
    by_cases hf : m.AtFront e.1
    · exact ⟨_, h.front hs kind e he hf⟩
    · exact ⟨_, h.behind hs kind e he hf⟩

theorem mem_getEnabledMuxGroupId {g : MuxGroupId} :
    g ∈ m.getEnabledMuxGroupId ↔ ∃ q ∈ m.muxQueue, q.2.head? = some g := List.mem_filterMap

/-- The ids that are looked up are those of the elements at the front. -/
theorem enabledElems_spec (h : Queued m) :
    ∃ ids, m.enabledElems = .ok ids ∧ ∀ k, k ∈ ids ↔ m.AtFront k := by
  have hat : ∀ gs : List MuxGroupId, (∀ g ∈ gs, ∃ ids, m.muxGroups g = some ids) →
      ∃ ids, gs.mapM m.muxGroupAt = .ok ids ∧
        ∀ k, k ∈ ids.flatten ↔ ∃ g ∈ gs, ∃ ids, m.muxGroups g = some ids ∧ k ∈ ids := by
    intro gs hgs
    induction gs with
    | nil => exact ⟨[], rfl, by simp⟩
    | cons g gs ih =>
      obtain ⟨ids, hids⟩ := hgs g List.mem_cons_self
      obtain ⟨rest, hrest, hmem⟩ := ih fun g hg => hgs g (List.mem_cons_of_mem _ hg)
      have hg : m.muxGroupAt g = .ok ids := by
        rw [muxGroupAt, hids]
        rfl
      refine ⟨ids :: rest, ?_, fun k => ?_⟩
      · rw [List.mapM_cons, hg, hrest]
        rfl
      · rw [List.flatten_cons, List.mem_append, hmem]
        constructor
        · rintro (hk | ⟨g', hg', hk⟩)
          · exact ⟨g, List.mem_cons_self, ids, hids, hk⟩
          · exact ⟨g', List.mem_cons_of_mem _ hg', hk⟩
        · rintro ⟨g', hg', ids', hids', hk⟩
          rcases List.mem_cons.mp hg' with rfl | hg'
          · rw [hids] at hids'
            exact .inl (Option.some.inj hids' ▸ hk)
          · exact .inr ⟨g', hg', ids', hids', hk⟩
  obtain ⟨ids, hids, hmem⟩ := hat m.getEnabledMuxGroupId fun g hg => by
    obtain ⟨q, hq, hhead⟩ := mem_getEnabledMuxGroupId.mp hg
    exact h.groups q hq g (List.mem_of_mem_head? hhead)
  refine ⟨ids.flatten, ?_, hmem⟩
  rw [enabledElems, hids]
  rfl

/-! ## `sync` -/

/-- The same state, queues and groups, and containers with the same ids. -/
structure SameMux (m m' : Monitor PmuType MuxGroupId ElemId) : Prop where
  state : m'.state = m.state
  muxGroups : m'.muxGroups = m.muxGroups
  muxQueue : m'.muxQueue = m.muxQueue
  perPmuType : m'.muxQueuePerPmuType = m.muxQueuePerPmuType
  ids : ∀ kind, (m'.elems kind).map Prod.fst = (m.elems kind).map Prod.fst

theorem SameMux.refl (m : Monitor PmuType MuxGroupId ElemId) : SameMux m m :=
  ⟨rfl, rfl, rfl, rfl, fun _ => rfl⟩

theorem SameMux.trans {m'' : Monitor PmuType MuxGroupId ElemId} (h : SameMux m m')
    (h' : SameMux m' m'') : SameMux m m'' :=
  ⟨h'.state.trans h.state, h'.muxGroups.trans h.muxGroups, h'.muxQueue.trans h.muxQueue,
    h'.perPmuType.trans h.perPmuType, fun kind => (h'.ids kind).trans (h.ids kind)⟩

theorem SameMux.queued (h : SameMux m m') (hq : Queued m) : Queued m' where
  keys := h.muxQueue ▸ hq.keys
  nodup := h.muxQueue ▸ hq.nodup
  groups := by
    rw [h.muxQueue, h.muxGroups]
    exact hq.groups
  queued := by
    rw [h.muxQueue, h.muxGroups]
    exact hq.queued
  idle := by
    intro hnil kind
    have hids := h.ids kind
    rw [hq.idle (h.muxQueue ▸ hnil) kind] at hids
    exact List.map_eq_nil_iff.mp hids

theorem SameMux.atFront (h : SameMux m m') (k : ElemId) : m'.AtFront k ↔ m.AtFront k := by
  rw [AtFront, AtFront, getEnabledMuxGroupId, getEnabledMuxGroupId, h.muxQueue, h.muxGroups]

/-- The elements of one kind are as they should be. -/
def Settled (m : Monitor PmuType MuxGroupId ElemId) (kind : Kind) : Prop :=
  ∀ e ∈ m.elems kind, ∃ s, e.2.Uniform s ∧ (m.state = .closed → s = .closed) ∧
    (m.state = .open → s = .open) ∧ (m.state = .enabled → m.AtFront e.1 → s = .enabled) ∧
    (m.state = .enabled → ¬ m.AtFront e.1 → s = .open)

theorem agrees_of_settled (h : ∀ kind, m.Settled kind) : Agrees m := by
  constructor
  · intro hs kind e he
    obtain ⟨s, hu, hc, -⟩ := h kind e he
    exact hc hs ▸ hu
  · intro hs kind e he
    obtain ⟨s, hu, -, ho, -⟩ := h kind e he
    exact ho hs ▸ hu
  · intro hs kind e he hf
    obtain ⟨s, hu, -, -, hfront, -⟩ := h kind e he
    exact hfront hs hf ▸ hu
  · intro hs kind e he hf
    obtain ⟨s, hu, -, -, -, hbehind⟩ := h kind e he
    exact hbehind hs hf ▸ hu

theorem SameMux.settled (h : SameMux m m') {kind : Kind} (he : m'.elems kind = m.elems kind)
    (hs : m.Settled kind) : m'.Settled kind := by
  intro e hmem
  rw [he] at hmem
  obtain ⟨s, hu, hc, ho, hfront, hbehind⟩ := hs e hmem
  rw [h.state]
  exact ⟨s, hu, hc, ho, fun hst hf => hfront hst ((h.atFront _).mp hf),
    fun hst hf => hbehind hst fun hf' => hf ((h.atFront _).mpr hf')⟩

section

variable [DecidableEq ElemId]

/-- One container is brought in line, and the others stay as they are. -/
theorem syncElems_spec (hq : Queued m) (hu : m.AllUniform) (kind : Kind) (onLocalCpu : Bool) :
    ∃ m', m.syncElems kind onLocalCpu = .ok m' ∧ SameMux m m' ∧ m'.AllUniform ∧
      m'.Settled kind ∧ ∀ kind', kind' ≠ kind → m'.elems kind' = m.elems kind' := by
  obtain ⟨ids, hids, hmem⟩ := enabledElems_spec hq
  obtain ⟨f, hf, hsettled⟩ :=
    @commit_spec _ (m.elems kind) (m.listOf ids) onLocalCpu (hu kind)
  have hself : Function.update m.elems kind ((m.elems kind).map fun e => (e.1, f e)) kind
      = (m.elems kind).map fun e => (e.1, f e) := Function.update_self kind _ _
  have hother : ∀ kind', kind' ≠ kind →
      Function.update m.elems kind ((m.elems kind).map fun e => (e.1, f e)) kind'
        = m.elems kind' := fun kind' hk => Function.update_of_ne hk _ _
  have hsame : SameMux m { m with
      elems := Function.update m.elems kind ((m.elems kind).map fun e => (e.1, f e)) } := by
    refine ⟨rfl, rfl, rfl, rfl, fun kind' => ?_⟩
    by_cases hk : kind' = kind
    · rw [hk]
      show (Function.update m.elems kind _ kind).map Prod.fst = _
      rw [hself, List.map_map]
      rfl
    · exact congrArg (List.map Prod.fst) (hother kind' hk)
  refine ⟨_, ?_, hsame, ?_, ?_, hother⟩
  · rw [syncElems, hids]
    exact congrArg (fun c => Except.ok { m with elems := Function.update m.elems kind c }) hf
  · intro kind' e he
    by_cases hk : kind' = kind
    · subst hk
      have he : e ∈ (m.elems kind').map fun e => (e.1, f e) := by
        rw [← hself]
        exact he
      obtain ⟨e', he', rfl⟩ := List.mem_map.mp he
      exact ⟨_, hsettled e' he'⟩
    · exact hu kind' e (hother kind' hk ▸ he)
  · intro e he
    have he : e ∈ (m.elems kind).map fun e => (e.1, f e) := by
      rw [← hself]
      exact he
    obtain ⟨e', he', rfl⟩ := List.mem_map.mp he
    refine ⟨m.listOf ids e'.1, hsettled e' he', ?_, ?_, ?_, ?_⟩
    · intro (hs : m.state = _)
      rw [listOf, hs]
    · intro (hs : m.state = _)
      rw [listOf, hs]
    · intro (hs : m.state = _) hfront
      rw [listOf, hs]
      exact if_pos ((hmem _).mpr ((hsame.atFront _).mp hfront))
    · intro (hs : m.state = _) hfront
      rw [listOf, hs]
      exact if_neg fun hk => hfront ((hsame.atFront _).mpr ((hmem _).mp hk))

/-- **`sync` brings all elements in line.** -/
theorem sync_spec (hq : Queued m) (hu : m.AllUniform) (uncoreLocal coreLocal : Bool) :
    ∃ m', m.sync uncoreLocal coreLocal = .ok m' ∧ SameMux m m' ∧ Queued m' ∧ Agrees m' := by
  rw [sync]
  split_ifs with hnil
  · have hnone := hq.idle (List.length_eq_zero_iff.mp hnil)
    refine ⟨m, rfl, SameMux.refl m, hq, agrees_of_settled fun kind e he => ?_⟩
    rw [hnone kind] at he
    exact absurd he List.not_mem_nil
  · obtain ⟨m₁, h₁, hs₁, hu₁, hset₁, -⟩ := syncElems_spec hq hu .traceMonitors false
    have hq₁ := hs₁.queued hq
    obtain ⟨m₂, h₂, hs₂, hu₂, hset₂, ho₂⟩ := syncElems_spec hq₁ hu₁ .cpuCountReaders coreLocal
    have hq₂ := hs₂.queued hq₁
    obtain ⟨m₃, h₃, hs₃, hu₃, hset₃, ho₃⟩ :=
      syncElems_spec hq₂ hu₂ .uncoreCountReaders uncoreLocal
    have hq₃ := hs₃.queued hq₂
    obtain ⟨m₄, h₄, hs₄, hu₄, hset₄, ho₄⟩ := syncElems_spec hq₃ hu₃ .iptMonitors false
    refine ⟨m₄, ?_, ((hs₁.trans hs₂).trans hs₃).trans hs₄, hs₄.queued hq₃,
      agrees_of_settled fun kind => ?_⟩
    · rw [h₁]
      show (m₁.syncElems .cpuCountReaders coreLocal >>= _) = _
      rw [h₂]
      show (m₂.syncElems .uncoreCountReaders uncoreLocal >>= _) = _
      rw [h₃]
      exact h₄
    · cases kind with
      | traceMonitors =>
        have hset := hs₂.settled (ho₂ .traceMonitors (by decide)) hset₁
        have hset := hs₃.settled (ho₃ .traceMonitors (by decide)) hset
        exact hs₄.settled (ho₄ .traceMonitors (by decide)) hset
      | cpuCountReaders =>
        have hset := hs₃.settled (ho₃ .cpuCountReaders (by decide)) hset₂
        exact hs₄.settled (ho₄ .cpuCountReaders (by decide)) hset
      | uncoreCountReaders => exact hs₄.settled (ho₄ .uncoreCountReaders (by decide)) hset₃
      | iptMonitors => exact hset₄

end

/-! ## The methods -/

/-- What every call finds and leaves behind. -/
structure Inv (m : Monitor PmuType MuxGroupId ElemId) : Prop where
  queued : Queued m
  agrees : Agrees m

/-- A call returns and leaves the elements in line, or refuses its arguments. -/
def Fine (r : Except Failure (Bool × Monitor PmuType MuxGroupId ElemId)) : Prop :=
  (∃ b m', r = .ok (b, m') ∧ Inv m') ∨ ∃ failure, r = .error failure ∧ failure.OfArgument

theorem queued_elems (h : Queued m) (hne : m.muxQueue ≠ []) (elems : Kind → Container ElemId) :
    Queued { m with elems := elems } where
  keys := h.keys
  nodup := h.nodup
  groups := h.groups
  queued := h.queued
  idle := fun hnil => absurd hnil hne

theorem inv_init (muxQueuePerPmuType : Bool) :
    Inv (init muxQueuePerPmuType : Monitor PmuType MuxGroupId ElemId) := by
  constructor
  · constructor
    · exact List.nodup_nil
    · exact fun _ hq => absurd hq List.not_mem_nil
    · exact fun _ hq => absurd hq List.not_mem_nil
    · exact fun _ _ hids => absurd hids (Option.some_ne_none _).symm
    · exact fun _ _ => rfl
  · exact agrees_of_settled fun _ _ he => absurd he List.not_mem_nil

/-! ### Rotating -/

/-- The queues, each with its last group moved to the front. -/
def rotated (queues : List (Option PmuType × List MuxGroupId)) :
    List (Option PmuType × List MuxGroupId) := queues.map fun q => (q.1, rotate q.2)

/-- No queue has become empty. -/
def NoneEmpty (m : Monitor PmuType MuxGroupId ElemId) : Prop := ∀ q ∈ m.muxQueue, q.2 ≠ []

instance (m : Monitor PmuType MuxGroupId ElemId) : Decidable m.NoneEmpty :=
  decidable_of_iff (∀ q ∈ m.muxQueue, q.2.isEmpty = false) <| by
    simp only [NoneEmpty, List.isEmpty_eq_false_iff]

theorem rotate_perm (queue : List MuxGroupId) : (rotate queue).Perm queue := by
  rw [rotate]
  cases h : queue.getLast? with
  | none =>
    rw [List.getLast?_eq_none_iff.mp h]
  | some g =>
    have hsplit := List.dropLast_append_getLast? g h
    exact (List.perm_append_singleton g queue.dropLast).symm.trans (by rw [hsplit])

theorem rotateQueues_eq {queues : List (Option PmuType × List MuxGroupId)}
    (h : ∀ q ∈ queues, q.2 ≠ []) : rotateQueues queues = (rotated queues, true) := by
  induction queues with
  | nil => rfl
  | cons q queues ih =>
    rw [rotateQueues, if_neg (h q List.mem_cons_self), ih fun q' hq' =>
      h q' (List.mem_cons_of_mem _ hq')]
    rfl

theorem queued_rotated (h : Queued m) : Queued { m with muxQueue := rotated m.muxQueue } where
  keys := by
    show ((m.muxQueue.map fun q => (q.1, rotate q.2)).map Prod.fst).Nodup
    rw [List.map_map]
    exact h.keys
  nodup := by
    intro q hq
    obtain ⟨q', hq', rfl⟩ := List.mem_map.mp hq
    exact (rotate_perm q'.2).nodup_iff.mpr (h.nodup q' hq')
  groups := by
    intro q hq g hg
    obtain ⟨q', hq', rfl⟩ := List.mem_map.mp hq
    exact h.groups q' hq' g ((rotate_perm q'.2).mem_iff.mp hg)
  queued := by
    intro g ids hids
    obtain ⟨hne, q, hq, hmem⟩ := h.queued g ids hids
    exact ⟨hne, _, List.mem_map_of_mem hq, (rotate_perm q.2).mem_iff.mpr hmem⟩
  idle := fun hnil => h.idle (List.map_eq_nil_iff.mp hnil)

section

variable [DecidableEq ElemId]

theorem muxRotate_spec (h : Inv m) (hne : m.NoneEmpty) (uncoreLocal coreLocal : Bool) :
    ∃ m', m.muxRotate uncoreLocal coreLocal = .ok m' ∧ Inv m' ∧
      m'.muxQueue = rotated m.muxQueue := by
  have hu : ({ m with muxQueue := rotated m.muxQueue }
      : Monitor PmuType MuxGroupId ElemId).AllUniform := h.agrees.allUniform
  obtain ⟨m', hm', hsame, hq', ha'⟩ :=
    sync_spec (queued_rotated h.queued) hu uncoreLocal coreLocal
  refine ⟨m', ?_, ⟨hq', ha'⟩, hsame.muxQueue⟩
  rw [muxRotate, rotateQueues_eq hne]
  exact hm'

theorem toState_spec (h : Inv m) (s : State) :
    ∃ b m', m.toState s = .ok (b, m') ∧ Inv m' := by
  rw [toState]
  split_ifs
  · exact ⟨false, m, rfl, h⟩
  · have hq : Queued { m with state := s } :=
      ⟨h.queued.keys, h.queued.nodup, h.queued.groups, h.queued.queued, h.queued.idle⟩
    have hu : ({ m with state := s } : Monitor PmuType MuxGroupId ElemId).AllUniform :=
      h.agrees.allUniform
    obtain ⟨m', hm', -, hq', ha'⟩ := sync_spec hq hu false false
    refine ⟨true, m', ?_, hq', ha'⟩
    rw [hm']
    rfl

end

/-! ### Adding and removing -/

theorem getPmuTypeOfMetric_error [DecidableEq PmuType] (pmuTypes : List PmuType) :
    ∀ failure, m.getPmuTypeOfMetric pmuTypes = .error failure → failure = .pmuTypes := by
  intro failure h
  unfold getPmuTypeOfMetric at h
  split_ifs at h
  · cases pmuTypes with
    | nil => exact (Except.error.inj h).symm
    | cons p ps =>
      dsimp only at h
      split_ifs at h
      · cases h
      · exact (Except.error.inj h).symm
  · cases h

variable [DecidableEq MuxGroupId]

theorem queued_insert (h : Queued m) {g : MuxGroupId} {ids ids' : List ElemId}
    (hg : m.muxGroups g = some ids) (hids : ids' ≠ []) :
    Queued { m with muxGroups := Function.update m.muxGroups g (some ids') } := by
  constructor
  · exact h.keys
  · exact h.nodup
  · intro q hq g' hg'
    by_cases heq : g' = g
    · exact ⟨ids', by rw [heq]; exact Function.update_self g _ _⟩
    · obtain ⟨ids'', hids''⟩ := h.groups q hq g' hg'
      exact ⟨ids'', (Function.update_of_ne heq _ _).trans hids''⟩
  · intro g' ids'' hids''
    by_cases heq : g' = g
    · subst heq
      have heq' : some ids' = some ids'' := (Function.update_self g' _ _).symm.trans hids''
      exact ⟨Option.some.inj heq' ▸ hids, (h.queued g' ids hg).2⟩
    · exact h.queued g' ids'' ((Function.update_of_ne heq _ _).symm.trans hids'')
  · exact h.idle

theorem queued_remove (h : Queued m) (g : MuxGroupId) :
    Queued { m with
      muxGroups := Function.update m.muxGroups g none
      muxQueue := m.muxQueue.map fun q => (q.1, q.2.erase g) } := by
  constructor
  · rw [List.map_map]
    exact h.keys
  · intro q hq
    obtain ⟨q', hq', rfl⟩ := List.mem_map.mp hq
    exact (h.nodup q' hq').erase g
  · intro q hq g' hg'
    obtain ⟨q', hq', rfl⟩ := List.mem_map.mp hq
    obtain ⟨hne, hmem⟩ := (h.nodup q' hq').mem_erase_iff.mp hg'
    obtain ⟨ids, hids⟩ := h.groups q' hq' g' hmem
    exact ⟨ids, (Function.update_of_ne hne _ _).trans hids⟩
  · intro g' ids hids
    by_cases heq : g' = g
    · subst heq
      exact absurd ((Function.update_self g' _ _).symm.trans hids) (Option.some_ne_none _).symm
    · obtain ⟨hne, q, hq, hmem⟩ := h.queued g' ids ((Function.update_of_ne heq _ _).symm.trans hids)
      exact ⟨hne, _, List.mem_map_of_mem hq, (List.mem_erase_of_ne heq).mpr hmem⟩
  · intro hnil
    exact h.idle (List.map_eq_nil_iff.mp hnil)

section

variable [DecidableEq ElemId]

/-- An element is removed from a group, if it is in it. -/
theorem removeMuxEntry_spec (h : Inv m) (g : MuxGroupId) (k : ElemId) :
    m.removeMuxEntry g k = .ok none ∨
      ∃ m', m.removeMuxEntry g k = .ok (some m') ∧ Inv m' ∧ m'.muxQueue ≠ [] ∧
        ∀ kind, (m'.elems kind).map Prod.fst = (m.elems kind).map Prod.fst := by
  rw [removeMuxEntry]
  cases hg : m.muxGroups g with
  | none => exact .inl rfl
  | some ids =>
    dsimp only
    by_cases hk : k ∉ ids
    · rw [if_pos hk]
      exact .inl rfl
    · rw [if_neg hk]
      right
      obtain ⟨-, q, hq, hmem⟩ := h.queued.queued g ids hg
      have hdone : ∀ m₁ : Monitor PmuType MuxGroupId ElemId, Queued m₁ → m₁.elems = m.elems →
          m₁.muxQueue ≠ [] → ∃ m', (m₁.sync false false >>= fun m => pure (some m)) = .ok (some m') ∧
            Inv m' ∧ m'.muxQueue ≠ [] ∧
            ∀ kind, (m'.elems kind).map Prod.fst = (m.elems kind).map Prod.fst := by
        intro m₁ hq he hne
        have hu : m₁.AllUniform := by
          rw [AllUniform, he]
          exact h.agrees.allUniform
        obtain ⟨m', hm', hsame, hq', ha'⟩ := sync_spec hq hu false false
        refine ⟨m', ?_, ⟨hq', ha'⟩, hsame.muxQueue ▸ hne, fun kind => ?_⟩
        · rw [hm']
          rfl
        · rw [hsame.ids, he]
      by_cases hlast : ids.erase k = []
      · have hin : ¬ (m.muxQueue.all fun q => decide (g ∉ q.2)) = true := by
          intro hall
          exact of_decide_eq_true (List.all_eq_true.mp hall q hq) hmem
        rw [if_pos hlast, if_neg hin]
        refine hdone _ (queued_remove h.queued g) rfl fun hnil => ?_
        exact List.ne_nil_of_mem hq (List.map_eq_nil_iff.mp hnil)
      · rw [if_neg hlast]
        exact hdone _ (queued_insert h.queued hg hlast) rfl (List.ne_nil_of_mem hq)

theorem erase_fine (h : Inv m) (kind : Kind) (g : MuxGroupId) (k : ElemId) :
    Fine (m.erase kind g k) := by
  rw [erase]
  split_ifs
  · exact .inl ⟨false, m, rfl, h⟩
  · rcases removeMuxEntry_spec h g k with hnone | ⟨m₁, hm₁, hinv, hne, -⟩
    · rw [hnone]
      exact .inl ⟨false, m, rfl, h⟩
    · have hu : ({ m₁ with elems := Function.update m₁.elems kind (Dict.drop (m₁.elems kind) k) }
          : Monitor PmuType MuxGroupId ElemId).AllUniform := by
        intro kind' e he
        by_cases hk : kind' = kind
        · subst hk
          have he : e ∈ Dict.drop (m₁.elems kind') k := by
            rw [← Function.update_self kind' (Dict.drop (m₁.elems kind') k) m₁.elems]
            exact he
          exact hinv.agrees.allUniform kind' e (List.mem_of_mem_filter he)
        · refine hinv.agrees.allUniform kind' e ?_
          rw [← Function.update_of_ne hk (Dict.drop (m₁.elems kind) k) m₁.elems]
          exact he
      obtain ⟨m', hm', -, hq', ha'⟩ := sync_spec (queued_elems hinv.queued hne _) hu false false
      refine .inl ⟨true, m', ?_, hq', ha'⟩
      rw [hm₁]
      show (sync _ false false >>= _) = _
      rw [hm']
      rfl

end

variable [DecidableEq PmuType]

theorem queued_pushGroup (h : Queued m) {g : MuxGroupId} (hg : m.muxGroups g = none)
    (p : Option PmuType) {ids : List ElemId} (hids : ids ≠ []) :
    Queued { m with
      muxQueue := m.pushGroup p g
      muxGroups := Function.update m.muxGroups g (some ids) } := by
  have hnew : ∀ q ∈ m.muxQueue, g ∉ q.2 := by
    intro q hq hmem
    obtain ⟨ids', hids'⟩ := h.groups q hq g hmem
    exact Option.some_ne_none _ (hids'.symm.trans hg)
  have hold : ∀ g' ∈ (Dict.get? m.muxQueue p).getD [], ∃ q ∈ m.muxQueue, q.1 = p ∧ g' ∈ q.2 := by
    intro g' hg'
    cases hl : Dict.get? m.muxQueue p with
    | none =>
      rw [hl] at hg'
      exact absurd hg' List.not_mem_nil
    | some queue =>
      rw [hl] at hg'
      exact ⟨(p, queue), Dict.mem_of_lookup hl, rfl, hg'⟩
  constructor
  · exact Dict.nodup_put h.keys
  · intro q hq
    rcases Dict.mem_put hq with rfl | hq
    · refine List.nodup_append.mpr ⟨?_, List.nodup_singleton g, ?_⟩
      · cases hl : Dict.get? m.muxQueue p with
        | none => exact List.nodup_nil
        | some queue => exact h.nodup _ (Dict.mem_of_lookup hl)
      · intro a ha b hb hab
        obtain ⟨q, hq, -, hmem⟩ := hold a ha
        rw [hab, List.mem_singleton.mp hb] at hmem
        exact hnew q hq hmem
    · exact h.nodup q hq
  · intro q hq g' hg'
    by_cases heq : g' = g
    · exact ⟨ids, by rw [heq]; exact Function.update_self g _ _⟩
    · have hqueued : ∃ q ∈ m.muxQueue, g' ∈ q.2 := by
        rcases Dict.mem_put hq with rfl | hq
        · rcases List.mem_append.mp hg' with hg' | hg'
          · obtain ⟨q, hq, -, hmem⟩ := hold g' hg'
            exact ⟨q, hq, hmem⟩
          · exact absurd (List.mem_singleton.mp hg') heq
        · exact ⟨q, hq, hg'⟩
      obtain ⟨q, hq, hmem⟩ := hqueued
      obtain ⟨ids', hids'⟩ := h.groups q hq g' hmem
      exact ⟨ids', (Function.update_of_ne heq _ _).trans hids'⟩
  · intro g' ids' hids'
    by_cases heq : g' = g
    · subst heq
      have hids' : some ids = some ids' := (Function.update_self g' _ _).symm.trans hids'
      refine ⟨Option.some.inj hids' ▸ hids, _, Dict.mem_put_self _ _ _, ?_⟩
      exact List.mem_append_right _ (List.mem_singleton.mpr rfl)
    · have hids' : m.muxGroups g' = some ids' :=
        (Function.update_of_ne heq _ _).symm.trans hids'
      obtain ⟨hne, q, hq, hmem⟩ := h.queued g' ids' hids'
      refine ⟨hne, ?_⟩
      by_cases hp : q.1 = p
      · have hl : Dict.get? m.muxQueue p = some q.2 := by
          rw [← hp]
          exact Dict.lookup_of_mem h.keys hq
        refine ⟨_, Dict.mem_put_self _ _ _, List.mem_append_left _ ?_⟩
        rw [hl]
        exact hmem
      · exact ⟨q, Dict.mem_put_of_ne hq hp, hmem⟩
  · intro hnil
    have hmem := Dict.mem_put_self m.muxQueue p ((Dict.get? m.muxQueue p).getD [] ++ [g])
    have hnil : m.pushGroup p g = [] := hnil
    rw [pushGroup] at hnil
    rw [hnil] at hmem
    exact absurd hmem List.not_mem_nil

variable [DecidableEq ElemId]

/-- An element is added to a group; the queue of a new group is not empty. -/
theorem addMuxEntry_spec (h : Inv m) (g : MuxGroupId) (k : ElemId) (p : Option PmuType) :
    ∃ m', m.addMuxEntry g k p = .ok m' ∧ Inv m' ∧ m'.muxQueue ≠ [] := by
  have hids : ∀ ids : List ElemId, (if k ∈ ids then ids else ids ++ [k]) ≠ [] := by
    intro ids
    split_ifs with hk
    · exact List.ne_nil_of_mem hk
    · exact List.append_ne_nil_of_right_ne_nil _ (List.cons_ne_nil k [])
  have hdone : ∀ m₁ : Monitor PmuType MuxGroupId ElemId, Queued m₁ → m₁.elems = m.elems →
      m₁.muxQueue ≠ [] → ∃ m', m₁.sync false false = .ok m' ∧ Inv m' ∧ m'.muxQueue ≠ [] := by
    intro m₁ hq he hne
    have hu : m₁.AllUniform := by
      rw [AllUniform, he]
      exact h.agrees.allUniform
    obtain ⟨m', hm', hsame, hq', ha'⟩ := sync_spec hq hu false false
    exact ⟨m', hm', ⟨hq', ha'⟩, hsame.muxQueue ▸ hne⟩
  rw [addMuxEntry]
  cases hg : m.muxGroups g with
  | none =>
    have hq := queued_pushGroup h.queued hg p (hids [])
    refine hdone _ hq rfl fun hnil => ?_
    exact List.ne_nil_of_mem (Dict.mem_put_self m.muxQueue p _) hnil
  | some ids =>
    obtain ⟨hne, q, hmem, -⟩ := h.queued.queued g ids hg
    have hq := queued_insert h.queued hg (hids ids)
    have hqueue : (if (some ids).getD [] = [] then m.pushGroup p g else m.muxQueue) = m.muxQueue :=
      if_neg hne
    rw [hqueue]
    exact hdone _ hq rfl (List.ne_nil_of_mem hmem)

theorem emplace_fine (h : Inv m) (kind : Kind) (g : MuxGroupId) (k : ElemId)
    {pmuType : Except Failure (Option PmuType)}
    (hp : ∀ failure, pmuType = .error failure → failure = .pmuTypes) (cpu : ℕ) (cpus : List ℕ) :
    Fine (m.emplace kind g k pmuType cpu cpus) := by
  rw [emplace]
  split_ifs
  · exact .inr ⟨_, rfl, .inl rfl⟩
  · cases pmuType with
    | error failure => exact .inr ⟨failure, rfl, .inr (hp failure rfl)⟩
    | ok p =>
      obtain ⟨m₁, hm₁, hinv, hne⟩ := addMuxEntry_spec h g k p
      let elem : Element := ⟨⟨cpu, .closed⟩, cpus.map fun cpu => ⟨cpu, .closed⟩⟩
      have hu : ({ m₁ with elems := Function.update m₁.elems kind (Dict.put (m₁.elems kind) k elem) }
          : Monitor PmuType MuxGroupId ElemId).AllUniform := by
        intro kind' e he
        by_cases hk : kind' = kind
        · subst hk
          have he : e ∈ Dict.put (m₁.elems kind') k elem := by
            rw [← Function.update_self kind' (Dict.put (m₁.elems kind') k elem) m₁.elems]
            exact he
          rcases Dict.mem_put he with rfl | he
          · refine ⟨.closed, fun g hg => ?_⟩
            rcases List.mem_cons.mp hg with rfl | hg
            · rfl
            · obtain ⟨cpu', -, rfl⟩ := List.mem_map.mp hg
              rfl
          · exact hinv.agrees.allUniform kind' e he
        · refine hinv.agrees.allUniform kind' e ?_
          rw [← Function.update_of_ne hk (Dict.put (m₁.elems kind) k elem) m₁.elems]
          exact he
      obtain ⟨m', hm', -, hq', ha'⟩ := sync_spec (queued_elems hinv.queued hne _) hu false false
      refine .inl ⟨true, m', ?_, hq', ha'⟩
      show (m.addMuxEntry g k p >>= _) = _
      rw [hm₁]
      show (sync _ false false >>= _) = _
      rw [hm']
      rfl

/-! ## Runs -/

/-- There is no empty queue where the queues are rotated. -/
def RotatesFull (m : Monitor PmuType MuxGroupId ElemId) : Call PmuType MuxGroupId ElemId → Prop
  | .muxRotate _ _ => m.NoneEmpty
  | _ => True

instance (m : Monitor PmuType MuxGroupId ElemId) :
    ∀ call : Call PmuType MuxGroupId ElemId, Decidable (m.RotatesFull call)
  | .muxRotate _ _ => inferInstanceAs (Decidable m.NoneEmpty)
  | .emplaceTraceMonitor .. | .emplaceCpuCountReader .. | .emplaceUncoreCountReader ..
  | .emplaceIptMonitor .. | .eraseCpuCountReader .. | .eraseUncoreCountReader .. | .open
  | .close | .enable | .disable | .sync .. => isTrue trivial

theorem perform_fine (h : Inv m) {call : Call PmuType MuxGroupId ElemId}
    (hc : m.RotatesFull call) : Fine (m.perform call) := by
  have hmoved : ∀ s, Fine (m.toState s) := fun s => by
    obtain ⟨b, m', hm', hinv⟩ := toState_spec h s
    exact .inl ⟨b, m', hm', hinv⟩
  have hnone : ∀ failure, (pure none : Except Failure (Option PmuType)) = .error failure →
      failure = .pmuTypes := fun _ hf => by cases hf
  cases call with
  | emplaceTraceMonitor g k cpu cpus => exact emplace_fine h _ g k hnone cpu cpus
  | emplaceCpuCountReader g k pmuTypes cpu cpus =>
    exact emplace_fine h _ g k (getPmuTypeOfMetric_error pmuTypes) cpu cpus
  | emplaceUncoreCountReader g k pmuTypes cpu cpus =>
    show Fine (m.emplaceUncoreCountReader g k pmuTypes cpu cpus)
    rw [emplaceUncoreCountReader]
    rcases emplace_fine h .uncoreCountReaders g k (getPmuTypeOfMetric_error pmuTypes) cpu cpus
      with ⟨b, m', hm', hinv⟩ | ⟨failure, hf, -⟩
    · rw [hm']
      exact .inl ⟨b, m', rfl, hinv⟩
    · rw [hf]
      exact .inl ⟨false, m, rfl, h⟩
  | emplaceIptMonitor g k cpu cpus => exact emplace_fine h _ g k hnone cpu cpus
  | eraseCpuCountReader g k => exact erase_fine h _ g k
  | eraseUncoreCountReader g k => exact erase_fine h _ g k
  | «open» => exact hmoved .open
  | close => exact hmoved .closed
  | enable => exact hmoved .enabled
  | disable => exact hmoved .open
  | muxRotate uncoreLocal coreLocal =>
    obtain ⟨m', hm', hinv, -⟩ := muxRotate_spec h hc uncoreLocal coreLocal
    refine .inl ⟨true, m', ?_, hinv⟩
    show (true, ·) <$> m.muxRotate uncoreLocal coreLocal = _
    rw [hm']
    rfl
  | sync uncoreLocal coreLocal =>
    obtain ⟨m', hm', -, hq', ha'⟩ :=
      sync_spec h.queued h.agrees.allUniform uncoreLocal coreLocal
    refine .inl ⟨true, m', ?_, hq', ha'⟩
    show (true, ·) <$> m.sync uncoreLocal coreLocal = _
    rw [hm']
    rfl

/-- The monitor after a call.  A call that refuses its arguments changes nothing. -/
def step (m : Monitor PmuType MuxGroupId ElemId) (call : Call PmuType MuxGroupId ElemId) :
    Monitor PmuType MuxGroupId ElemId :=
  match m.perform call with
  | .ok r => r.2
  | .error _ => m

/-- What is right about a call: it raises no exception but for its arguments, the
elements agree with the state after it, and a rotation moves the last group of every
queue to the front. -/
structure Right (m : Monitor PmuType MuxGroupId ElemId) (call : Call PmuType MuxGroupId ElemId) :
    Prop where
  returns : ∀ failure, m.perform call = .error failure → failure.OfArgument
  agrees : Agrees (m.step call)
  rotates : ∀ uncoreLocal coreLocal, call = .muxRotate uncoreLocal coreLocal →
    (m.step call).muxQueue = rotated m.muxQueue

theorem Inv.step (h : Inv m) {call : Call PmuType MuxGroupId ElemId} (hc : m.RotatesFull call) :
    Inv (m.step call) := by
  rw [Monitor.step]
  rcases perform_fine h hc with ⟨b, m', hm', hinv⟩ | ⟨failure, hf, -⟩
  · rw [hm']
    exact hinv
  · rw [hf]
    exact h

theorem Inv.right (h : Inv m) {call : Call PmuType MuxGroupId ElemId} (hc : m.RotatesFull call) :
    Right m call := by
  constructor
  · intro failure hf
    rcases perform_fine h hc with ⟨b, m', hm', -⟩ | ⟨failure', hf', harg⟩
    · cases hf.symm.trans hm'
    · rw [Except.error.inj (hf.symm.trans hf')]
      exact harg
  · exact (h.step hc).agrees
  · rintro uncoreLocal coreLocal rfl
    obtain ⟨m', hm', -, hqueue⟩ := muxRotate_spec h hc uncoreLocal coreLocal
    have hstep : m.step (.muxRotate uncoreLocal coreLocal) = m' := by
      rw [Monitor.step]
      show (match (true, ·) <$> m.muxRotate uncoreLocal coreLocal with
        | .ok r => r.2
        | .error _ => m) = m'
      rw [hm']
      rfl
    rw [hstep, hqueue]

/-- **The elements agree with the state of the monitor.**  In every sequence of calls
that rotates the queues only where none is empty, every call leaves the elements in line
with the state, and every rotation moves the last group of every queue to its front. -/
theorem all_right (muxQueuePerPmuType : Bool) (calls : List (Call PmuType MuxGroupId ElemId))
    (hc : Run.Along step RotatesFull (init muxQueuePerPmuType) calls) :
    Run.Along step Right (init muxQueuePerPmuType) calls := by
  have h : Inv (init muxQueuePerPmuType : Monitor PmuType MuxGroupId ElemId) := inv_init _
  generalize (init muxQueuePerPmuType : Monitor PmuType MuxGroupId ElemId) = m at h hc
  induction calls generalizing m with
  | nil => trivial
  | cons call calls ih => exact ⟨h.right hc.1, ih _ (h.step hc.1) hc.2⟩

/-- Three readers in groups of their own, with a fourth in the group of the first. -/
def threeGroups : List (Call ℕ ℕ ℕ) :=
  [.emplaceCpuCountReader 0 10 [] 0 [1], .emplaceCpuCountReader 1 11 [] 0 [1],
    .emplaceTraceMonitor 2 12 0 [], .emplaceUncoreCountReader 0 13 [] 2 [], .enable,
    .muxRotate true true]

theorem all_right_threeGroups :
    Run.Along step Right (init false)
      (threeGroups ++ [.eraseCpuCountReader 1 11, .muxRotate false false, .close]) :=
  all_right false _ (by decide +kernel)

/-- Two queues, the second of which has become empty. -/
def emptied : List (Call ℕ ℕ ℕ) :=
  [.emplaceCpuCountReader 0 10 [4] 0 [], .emplaceCpuCountReader 1 11 [4] 0 [],
    .emplaceCpuCountReader 2 12 [6] 0 [], .enable, .eraseCpuCountReader 2 12,
    .muxRotate false false]

/-- A queue of three groups does not rotate forwards, and where a queue is empty the
elements are not brought in line with the queues that did rotate. -/
theorem not_forwards_threeGroups :
    (¬ ∀ calls : List (Call ℕ ℕ ℕ), Run.Along step (fun m call => ∀ uncoreLocal coreLocal,
      call = .muxRotate uncoreLocal coreLocal →
        (m.step call).muxQueue = m.muxQueue.map fun q => (q.1, q.2.rotate 1))
      (init false) calls) ∧
    ¬ ∀ calls : List (Call ℕ ℕ ℕ), Run.Along step (fun m call => Agrees (m.step call))
      (init true) calls := by
  constructor
  · intro h
    have hrotates := (h threeGroups).2.2.2.2.2.1 true true rfl
    exact absurd hrotates (by decide)
  · intro h
    have hagrees := (h emptied).2.2.2.2.2.1
    have hfront : Element.Uniform .enabled ⟨⟨0, .open⟩, []⟩ :=
      hagrees.front rfl .cpuCountReaders (11, _) (by decide) ⟨1, by decide, [11], rfl, by decide⟩
    exact State.noConfusion (hfront ⟨0, .open⟩ List.mem_cons_self)

end Monitor

end Mon
end IntegratedCLI
