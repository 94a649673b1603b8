import IntegratedCLI.Orquesta.ContextLists

/-!
# The indices in the workflow state

`WellFormed` is what the workflow state promises of the indices in it: `tasks` has the
position of the last entry of a task and route, a back reference of an entry leads to
an earlier entry, and the lists of contexts have indices of contexts, the root context
once.

An entry takes its back references from the staged task that it was started from, and
both go on to share the dictionary.  A transition into a task that is still staged
writes its own position there.  The task may be staged although it was started: a task
with items is, and a task that is retried or run again.  If the entry that is left by
the transition is not older than one that shares the dictionary, then the entry has a
back reference that does not lead back.  `overtakes` says that a transition does this,
and in a run without one the state is well formed throughout (`wellFormed_run`).

`Sound` is the invariant of the proof.  It says the same of the skeleton of the state,
and also that references and routes exist, and that the back references of a staged
task lead to entries of the sequence.
-/

namespace IntegratedCLI
namespace Orquesta

open Effect Status

/-! ## Well-formed states -/

/-- The position is the one of the last entry of the task on the route. -/
def IsLast (cs : List Core) (t : String) (r i : ℕ) : Prop :=
  (∃ c, cs[i]? = some c ∧ c.id = t ∧ c.route = r) ∧
    ∀ j c, i < j → cs[j]? = some c → ¬ (c.id = t ∧ c.route = r)

structure WellFormed (s : Conductor) : Prop where
  last : ∀ t r i, s.taskStateIdx t r = some i ↔
    (∃ e, s.sequence[i]? = some e ∧ e.id = t ∧ e.route = r) ∧
      ∀ j e, i < j → s.sequence[j]? = some e → ¬ (e.id = t ∧ e.route = r)
  prev : ∀ i e, s.sequence[i]? = some e → ∀ b ∈ s.prev e.prev, b.2 < i
  ctxs : ∀ e ∈ s.sequence, CtxsOk s.contexts.length (s.list e.ctxsIn)
  stagedCtxs : ∀ x ∈ s.staged, CtxsOk s.contexts.length (s.list x.ctxsIn)

/-- What holds of the skeleton of the state. -/
structure Sound (s : Conductor) : Prop where
  last : ∀ t r i, s.taskStateIdx t r = some i ↔ IsLast s.started t r i
  prev : ∀ i c, s.started[i]? = some c → ∀ b ∈ s.prev c.prev, b.2 < i
  stagedPrev : ∀ c ∈ s.waiting, ∀ b ∈ s.prev c.prev, b.2 < s.started.length
  ctxs : ∀ c ∈ s.started ++ s.waiting, CtxsOk s.contexts.length (s.list c.ctxsIn)
  prevs : ∀ c ∈ s.started ++ s.waiting, c.prev < s.prevs.length
  routes : ∀ c ∈ s.started ++ s.waiting, c.route < s.routes.length

theorem Sound.wellFormed {s : Conductor} (h : Sound s) : WellFormed s where
  last t r i := by
    rw [h.last]
    unfold IsLast Conductor.started
    simp only [List.getElem?_map, Option.map_eq_some_iff]
    constructor
    · rintro ⟨⟨_, ⟨e, he, rfl⟩, hkey⟩, hlast⟩
      exact ⟨⟨e, he, hkey⟩, fun j e' hj he' => hlast j e'.core hj ⟨e', he', rfl⟩⟩
    · rintro ⟨⟨e, he, hkey⟩, hlast⟩
      refine ⟨⟨e.core, ⟨e, he, rfl⟩, hkey⟩, ?_⟩
      rintro j _ hj ⟨e', he', rfl⟩
      exact hlast j e' hj he'
  prev i e he := h.prev i e.core (Conductor.started_getElem? he)
  ctxs e he := h.ctxs e.core (List.mem_append_left _ (List.mem_map_of_mem he))
  stagedCtxs x hx := h.ctxs x.core (List.mem_append_right _ (Conductor.core_mem_waiting hx))

theorem Sound.listed {s : Conductor} (h : Sound s) : Listed s where
  last t r idx hidx := by
    obtain ⟨⟨c, hc, _⟩, _⟩ := (h.last t r idx).mp hidx
    exact (List.getElem?_eq_some_iff.mp hc).1
  ctxs := h.ctxs

theorem Sound.thins {s s' : Conductor} (h : Sound s) (hs : Thins s s') : Sound s' := by
  have hprev : s'.prev = s.prev := by
    funext p
    unfold Conductor.prev
    rw [hs.prevs]
  have hmem : ∀ c ∈ s'.started ++ s'.waiting, c ∈ s.started ++ s.waiting := by
    rw [hs.started]
    intro c hc
    rcases List.mem_append.mp hc with hc | hc
    · exact List.mem_append_left _ hc
    · exact List.mem_append_right _ (hs.waiting.subset hc)
  constructor
  · intro t r i
    unfold Conductor.taskStateIdx
    rw [hs.tasks, hs.started]
    exact h.last t r i
  · rw [hs.started, hprev]
    exact h.prev
  · rw [hs.started, hprev]
    exact fun c hc => h.stagedPrev c (hs.waiting.subset hc)
  · exact (h.listed.thins hs).ctxs
  · rw [hs.prevs]
    exact fun c hc => h.prevs c (hmem c hc)
  · rw [hs.routes]
    exact fun c hc => h.routes c (hmem c hc)

theorem prev_append {s s' : Conductor} {ps : List Prev} (h : s'.prevs = s.prevs ++ ps) {p : Ref}
    (hp : p < s.prevs.length) : s'.prev p = s.prev p := by
  unfold Conductor.prev
  rw [h, List.getElem?_append_left hp]

theorem Sound.allocs {s s' : Conductor} (h : Sound s) (hs : Allocs s s') : Sound s' := by
  have hlisted := h.listed.allocs hs
  obtain ⟨_, _, _, hprevs, _, hroutes, htasks, hstarted, hwaiting⟩ := hs
  have hprev : ∀ c ∈ s.started ++ s.waiting, s'.prev c.prev = s.prev c.prev := fun c hc =>
    prev_append hprevs (h.prevs c hc)
  constructor
  · intro t r i
    unfold Conductor.taskStateIdx
    rw [htasks, hstarted]
    exact h.last t r i
  · rw [hstarted]
    intro i c hc
    rw [hprev c (List.mem_append_left _ (List.mem_of_getElem? hc))]
    exact h.prev i c hc
  · rw [hstarted, hwaiting]
    intro c hc
    rw [hprev c (List.mem_append_right _ hc)]
    exact h.stagedPrev c hc
  · exact hlisted.ctxs
  · rw [hstarted, hwaiting, hprevs, List.length_append]
    exact fun c hc => (h.prevs c hc).trans_le (Nat.le_add_right _ _)
  · rw [hstarted, hwaiting, hroutes]
    exact h.routes

/-! ## Entries and staged tasks that are added -/

/-- What a new entry and a new staged task have to be like. -/
structure Fits (s : Conductor) (r : ℕ) (l p : Ref) : Prop where
  ctxs : CtxsOk s.contexts.length (s.list l)
  prev : ∀ b ∈ s.prev p, b.2 < s.started.length
  prevs : p < s.prevs.length
  routes : r < s.routes.length

theorem Fits.allocs {s s' : Conductor} {r : ℕ} {l p : Ref} (h : Fits s r l p) (hs : Allocs s s') :
    Fits s' r l p := by
  obtain ⟨ls, ps, hlists, hprevs, hcontexts, hroutes, _, hstarted, _⟩ := hs
  constructor
  · rw [hcontexts, list_append hlists h.ctxs.ne_nil]
    exact h.ctxs
  · rw [hstarted, prev_append hprevs h.prevs]
    exact h.prev
  · rw [hprevs, List.length_append]
    exact h.prevs.trans_le (Nat.le_add_right _ _)
  · rw [hroutes]
    exact h.routes

theorem Fits.thins {s s' : Conductor} {r : ℕ} {l p : Ref} (h : Fits s r l p) (hs : Thins s s') :
    Fits s' r l p := by
  constructor
  · unfold Conductor.list
    rw [hs.contexts, hs.lists]
    exact h.ctxs
  · unfold Conductor.prev
    rw [hs.started, hs.prevs]
    exact h.prev
  · rw [hs.prevs]
    exact h.prevs
  · rw [hs.routes]
    exact h.routes

theorem Sound.fits_waiting {s : Conductor} (h : Sound s) {c : Core} (hc : c ∈ s.waiting) :
    Fits s c.route c.ctxsIn c.prev where
  ctxs := h.ctxs c (List.mem_append_right _ hc)
  prev := h.stagedPrev c hc
  prevs := h.prevs c (List.mem_append_right _ hc)
  routes := h.routes c (List.mem_append_right _ hc)

theorem Sound.fits_started {s : Conductor} (h : Sound s) {i : ℕ} {c : Core}
    (hc : s.started[i]? = some c) : Fits s c.route c.ctxsIn c.prev where
  ctxs := h.ctxs c (List.mem_append_left _ (List.mem_of_getElem? hc))
  prev b hb := (h.prev i c hc b hb).trans (List.getElem?_eq_some_iff.mp hc).1
  prevs := h.prevs c (List.mem_append_left _ (List.mem_of_getElem? hc))
  routes := h.routes c (List.mem_append_left _ (List.mem_of_getElem? hc))

/-- The new entry is the last one of its task, and the others are what they were. -/
theorem isLast_append {cs : List Core} {c : Core} {t : String} {r i : ℕ} :
    IsLast (cs ++ [c]) t r i ↔
      if c.id = t ∧ c.route = r then i = cs.length else IsLast cs t r i := by
  have hnew : (cs ++ [c])[cs.length]? = some c := List.getElem?_concat_length
  have hold : ∀ {j : ℕ} {d : Core}, (cs ++ [c])[j]? = some d → j < cs.length ∧ cs[j]? = some d ∨
      j = cs.length ∧ d = c := by
    intro j d hj
    rcases Nat.lt_trichotomy j cs.length with hlt | rfl | hgt
    · rw [List.getElem?_append_left hlt] at hj
      exact Or.inl ⟨hlt, hj⟩
    · rw [hnew, Option.some_inj] at hj
      exact Or.inr ⟨rfl, hj.symm⟩
    · have := (List.getElem?_eq_some_iff.mp hj).1
      rw [List.length_append, List.length_singleton] at this
      omega
  have hkeep : ∀ {j : ℕ} {d : Core}, cs[j]? = some d → (cs ++ [c])[j]? = some d := by
    intro j d hj
    rw [List.getElem?_append_left (List.getElem?_eq_some_iff.mp hj).1]
    exact hj
  split
  · rename_i hkey
    constructor
    · rintro ⟨⟨d, hd, _⟩, hlast⟩
      rcases hold hd with ⟨hlt, _⟩ | ⟨rfl, _⟩
      · exact absurd hkey (hlast _ c hlt hnew)
      · rfl
    · rintro rfl
      refine ⟨⟨c, hnew, hkey⟩, fun j d hj hd => ?_⟩
      rcases hold hd with ⟨hlt, _⟩ | ⟨rfl, _⟩
      · omega
      · omega
  · rename_i hkey
    constructor
    · rintro ⟨⟨d, hd, hdkey⟩, hlast⟩
      rcases hold hd with ⟨_, hd'⟩ | ⟨_, rfl⟩
      · exact ⟨⟨d, hd', hdkey⟩, fun j d' hj hd' => hlast j d' hj (hkeep hd')⟩
      · exact absurd hdkey hkey
    · rintro ⟨⟨d, hd, hdkey⟩, hlast⟩
      refine ⟨⟨d, hkeep hd, hdkey⟩, fun j d' hj hd' => ?_⟩
      rcases hold hd' with ⟨_, hd''⟩ | ⟨_, rfl⟩
      · exact hlast j d' hj hd''
      · exact hkey

/-- **A new entry** with contexts, back references and a route that are there. -/
theorem Sound.pushEntry {s : Conductor} (h : Sound s) {e : TaskState}
    (he : Fits s e.route e.ctxsIn e.prev) : Sound (pushEntry e s) := by
  have hmem : ∀ c ∈ (s.started ++ [e.core]) ++ s.waiting, c ∈ s.started ++ s.waiting ∨
      c = e.core := by
    intro c hc
    simp only [List.mem_append, List.mem_singleton] at hc ⊢
    tauto
  constructor
  · intro t r i
    rw [started_pushEntry, isLast_append]
    show (Dict.put s.tasks ⟨e.core.id, e.core.route⟩ s.sequence.length).lookup ⟨t, r⟩ = some i ↔ _
    rw [Dict.lookup_put]
    by_cases hkey : e.core.id = t ∧ e.core.route = r
    · obtain ⟨rfl, rfl⟩ := hkey
      rw [if_pos rfl, if_pos ⟨rfl, rfl⟩, Option.some_inj, Conductor.length_started, eq_comm]
    · rw [if_neg hkey, if_neg fun heq => hkey (by cases heq; exact ⟨rfl, rfl⟩)]
      exact h.last t r i
  · rw [started_pushEntry]
    intro i c hc
    rcases Nat.lt_or_ge i s.started.length with hlt | hge
    · rw [List.getElem?_append_left hlt] at hc
      exact h.prev i c hc
    · have hi : i = s.started.length := by
        have := (List.getElem?_eq_some_iff.mp hc).1
        rw [List.length_append, List.length_singleton] at this
        omega
      rw [hi, List.getElem?_concat_length, Option.some_inj] at hc
      rw [hi, ← hc]
      exact he.prev
  · rw [started_pushEntry, List.length_append]
    exact fun c hc b hb => (h.stagedPrev c hc b hb).trans_le (Nat.le_add_right _ _)
  · exact (h.listed.pushEntry he.ctxs).ctxs
  · rw [started_pushEntry]
    intro c hc
    rcases hmem c hc with hc | rfl
    · exact h.prevs c hc
    · exact he.prevs
  · rw [started_pushEntry]
    intro c hc
    rcases hmem c hc with hc | rfl
    · exact h.routes c hc
    · exact he.routes

/-- **A new staged task** with contexts, back references and a route that are there. -/
theorem Sound.addStagedTask {s : Conductor} (h : Sound s) {r : ℕ} {l p : Ref}
    (hfits : Fits s r l p) (t : String) (ready : Bool) (retry : Option Ref) :
    Sound (s.addStagedTask t r l p ready retry) := by
  have hlisted := (h.listed.addStagedTask hfits.ctxs t r p ready retry).ctxs
  rw [addStagedTask_eq hfits.ctxs.ne_nil] at hlisted ⊢
  have hwaiting : Conductor.waiting
      { s with staged := s.staged ++ [⟨t, r, l, p, ready, none, false, false, retry⟩] } =
      s.waiting ++ [⟨t, r, l, p⟩] := List.map_append
  have hmem : ∀ c ∈ s.started ++ (s.waiting ++ [⟨t, r, l, p⟩]), c ∈ s.started ++ s.waiting ∨
      c = ⟨t, r, l, p⟩ := by
    intro c hc
    simp only [List.mem_append, List.mem_singleton] at hc ⊢
    tauto
  constructor
  · exact h.last
  · exact h.prev
  · rw [hwaiting]
    intro c hc
    rcases List.mem_append.mp hc with hc | hc
    · exact h.stagedPrev c hc
    · rw [List.mem_singleton.mp hc]
      exact hfits.prev
  · exact hlisted
  · rw [hwaiting]
    intro c hc
    rcases hmem c hc with hc | rfl
    · exact h.prevs c hc
    · exact hfits.prevs
  · rw [hwaiting]
    intro c hc
    rcases hmem c hc with hc | rfl
    · exact h.routes c hc
    · exact hfits.routes

/-! ## Starting an entry -/

theorem orEmpty_prev (s : Conductor) {p : Ref} (hp : p < s.prevs.length) :
    (s.orEmpty p).1 < (s.orEmpty p).2.prevs.length ∧
      (s.orEmpty p).2.prev (s.orEmpty p).1 = s.prev p := by
  unfold Conductor.orEmpty
  split
  · rename_i hnil
    rw [hnil]
    unfold Conductor.allocPrev Conductor.prev
    simp
  · exact ⟨hp, rfl⟩

/-- The back references of the new entry are the ones it is given. -/
theorem addTaskState_prev (wf : Workflow) (t : String) (r : ℕ) (ctxs : Ref) {prev : Ref}
    (s : Conductor) (hprev : prev < s.prevs.length) :
    Outcome (addTaskState wf t r ctxs prev)
      (fun _ s' => ∀ e, s'.sequence.getLast? = some e →
        e.prev < s'.prevs.length ∧ s'.prev e.prev = s.prev prev) (fun _ _ => True) s := by
  unfold addTaskState
  split
  · trivial
  · rw [outcome_bind, outcome_get]
    dsimp only
    rw [outcome_bind, outcome_set]
    have hroot : prev < (s.orRoot ctxs).2.prevs.length ∧
        (s.orRoot ctxs).2.prev prev = s.prev prev := by
      unfold Conductor.orRoot
      split
      · exact ⟨hprev, rfl⟩
      · exact ⟨hprev, rfl⟩
    have hempty := orEmpty_prev (s.orRoot ctxs).2 hroot.1
    rw [hroot.2] at hempty
    generalize ((s.orRoot ctxs).2.orEmpty prev) = p at hempty ⊢
    have hpush : ∀ (s' : Conductor) (retry : Option Ref), s'.prevs = p.2.prevs →
        ∀ e, (pushEntry ⟨t, r, (s.orRoot ctxs).1, none, p.1, [], none, retry, false⟩
          s').sequence.getLast? = some e → e.prev < s'.prevs.length ∧ s'.prev e.prev = s.prev prev := by
      intro s' retry hs' e he
      unfold pushEntry at he
      rw [List.getLast?_concat, Option.some_inj] at he
      rw [← he, hs']
      unfold Conductor.prev
      rw [hs']
      exact hempty
    split
    · exact hpush p.2 none rfl
    · rename_i spec _
      rw [outcome_bind]
      refine (setupRetry_moves wf spec _).step ?_ fun _ _ _ => trivial
      rintro x s₁ ⟨d, rfl⟩
      rw [outcome_bind, outcome_get]
      exact hpush _ _ rfl

/-- **A new entry** from objects that fit. -/
theorem addTaskState_sound {wf : Workflow} {t : String} {r : ℕ} {ctxs prev : Ref} {s : Conductor}
    (h : Sound s) (hfits : Fits s r ctxs prev) :
    Outcome (addTaskState wf t r ctxs prev) (fun _ s' => Sound s' ∧ Fits s' r ctxs prev)
      (fun _ => Sound) s := by
  refine ((addTaskState_outcome wf t r ctxs prev s).and
    (addTaskState_prev wf t r ctxs s hfits.prevs)).mono ?_ fun _ s' h' => h.allocs h'.1.allocs
  rintro _ s' ⟨⟨s₁, e, halloc, rfl, rfl, rfl, _, _, _, hctx, _, _⟩, hprev⟩
  have hlast : (pushEntry e s₁).sequence.getLast? = some e := List.getLast?_concat
  obtain ⟨hlt, heq⟩ := hprev e hlast
  have hfits₁ := hfits.allocs halloc.allocs
  have hstarted : s₁.started = s.started := by
    obtain ⟨_, _, _, _, _, rfl⟩ := halloc
    rfl
  have hentry : Fits s₁ e.route e.ctxsIn e.prev := by
    rw [hctx hfits.ctxs.ne_nil]
    refine ⟨hfits₁.ctxs, ?_, hlt, hfits₁.routes⟩
    have heq' : s₁.prev e.prev = s.prev prev := heq
    rw [heq', hstarted]
    exact hfits.prev
  refine ⟨(h.allocs halloc.allocs).pushEntry hentry, hfits₁.ctxs, ?_, hfits₁.prevs, hfits₁.routes⟩
  rw [started_pushEntry, List.length_append]
  exact fun b hb => (hfits₁.prev b hb).trans_le (Nat.le_add_right _ _)

/-! ## A task that is staged again -/

/-- The last entry of the task is in the sequence. -/
theorem Sound.entry {s : Conductor} (h : Sound s) {t : String} {r idx : ℕ}
    (hidx : s.taskStateIdx t r = some idx) :
    ∃ e, s.sequence[idx]? = some e ∧ e.id = t ∧ e.route = r := by
  obtain ⟨⟨c, hc, hid, hroute⟩, _⟩ := (h.last t r idx).mp hidx
  unfold Conductor.started at hc
  rw [List.getElem?_map, Option.map_eq_some_iff] at hc
  obtain ⟨e, he, rfl⟩ := hc
  exact ⟨e, he, hid, hroute⟩

theorem restage_sound {s : Conductor} (h : Sound s) {t : String} {r idx : ℕ}
    (hidx : s.taskStateIdx t r = some idx) :
    Outcome (restage t r idx) (fun _ => Sound) (fun _ => Sound) s := by
  obtain ⟨e, he, rfl, rfl⟩ := h.entry hidx
  have hfits : Fits s e.route e.ctxsIn e.prev := h.fits_started (Conductor.started_getElem? he)
  unfold restage
  rw [outcome_bind, outcome_get, he]
  dsimp only
  split
  · exact h
  · rename_i x hx
    simp only [outcome_bind, outcome_modify]
    have hthins : Thins s (Conductor.removeStagedTask e.id e.route { s with
        retries := s.retries.modify x fun retry => { retry with tally := retry.tally + 1 } }) :=
      trans_of Thins (thins_retries _ s) (thins_removeStagedTask e.id e.route _)
    exact (h.thins hthins).addStagedTask (hfits.thins hthins) e.id true (some x)

/-! ## The transitions of a task -/

/-- Whether the transition is satisfied and leads to a task that is staged, with back
references that an entry not later than the one that is left has too. -/
def overtakes (wf : Workflow) (spec : TaskSpec) (r idx : ℕ) (ctx : EvalContext) (s : Conductor)
    (edge : Edge) : Bool :=
  (match evaluateCriteria wf edge ctx with
    | .ok met => met
    | .error _ => false) &&
  (match spec.finalizeContext wf.evaluator edge.dst edge.ref ctx with
    | .ok (_, errors) => errors.isEmpty
    | .error _ => false) &&
  s.staged.any fun x => x.id = edge.dst &&
    (match result (evaluateRoute wf edge r) s with
      | .ok route => x.route = route
      | .error _ => false) &&
    (s.sequence.take (idx + 1)).any fun e => e.prev = x.prev

/-- No transition of the task overtakes an entry. -/
def staysBehind (wf : Workflow) (spec : TaskSpec) (t : String) (r idx : ℕ) (ctx : EvalContext)
    (s : Conductor) : Bool :=
  !(wf.graph.getNextTransitions t).any (overtakes wf spec r idx ctx s)

/-- What the loop over the transitions keeps: the entries are those of the state `s₀` it
began in, and a task that it staged does not share its back references with one. -/
structure Leaving (s₀ s : Conductor) : Prop where
  sound : Sound s
  started : s.started = s₀.started
  routes : s₀.routes <+: s.routes
  waiting : ∀ c ∈ s.waiting, c ∈ s₀.waiting ∨ ∀ d ∈ s.started, d.prev ≠ c.prev

theorem Leaving.thins {s₀ s s' : Conductor} (h : Leaving s₀ s) (hs : Thins s s') :
    Leaving s₀ s' where
  sound := h.sound.thins hs
  started := hs.started.trans h.started
  routes := hs.routes ▸ h.routes
  waiting c hc := by
    rw [hs.started]
    exact h.waiting c (hs.waiting.subset hc)

theorem Leaving.newContext {s₀ s : Conductor} (h : Leaving s₀ s) (c : Ref) (d : Dicts) :
    Leaving s₀ { s with contexts := s.contexts ++ [c], dicts := d } := by
  exact ⟨⟨h.sound.last, h.sound.prev, h.sound.stagedPrev, (h.sound.listed.newContext c d).ctxs,
    h.sound.prevs, h.sound.routes⟩, h.started, h.routes, h.waiting⟩

theorem Leaving.newRoute {s₀ s : Conductor} (h : Leaving s₀ s) (ids : List TransitionId) :
    Leaving s₀ { s with routes := s.routes ++ [ids] } := by
  refine ⟨⟨h.sound.last, h.sound.prev, h.sound.stagedPrev, h.sound.ctxs, h.sound.prevs,
    fun x hx => ?_⟩, h.started, h.routes.trans (List.prefix_append _ _), h.waiting⟩
  refine (h.sound.routes x hx).trans_le ?_
  rw [List.length_append]
  exact Nat.le_add_right _ _

theorem Leaving.listed {s₀ s : Conductor} (h : Leaving s₀ s) : ListedFrom s₀ s :=
  ⟨h.sound.listed, h.started⟩

theorem prev_extendObjects {l p : Ref} {more : List ℕ} {backref : TransitionId} {idx : ℕ}
    {s : Conductor} {p' : Ref} (h : p' < s.prevs.length) :
    (extendObjects l p more backref idx s).prev p' =
      if p = p' then Dict.put (s.prev p') backref idx else s.prev p' := by
  unfold extendObjects Conductor.prev
  rw [Positions.getElem?_modify, List.getElem?_eq_getElem h]
  split
  · rfl
  · rfl

/-- **Extending the objects of a staged task** is sound where the entries that share the
back references are later than the one that is left. -/
theorem Sound.extendObjects {s : Conductor} (h : Sound s) (x : Core) {ctxs : List ℕ}
    (hctxs : CtxsOk s.contexts.length ctxs) (backref : TransitionId) {idx : ℕ}
    (hidx : idx < s.started.length)
    (hlater : ∀ k c, s.started[k]? = some c → c.prev = x.prev → idx < k) :
    Sound (extendObjects x.ctxsIn x.prev (ctxs.erase 0) backref idx s) := by
  have hprev : ∀ (n : ℕ) (c : Core), c.prev < s.prevs.length → (∀ b ∈ s.prev c.prev, b.2 < n) →
      (c.prev = x.prev → idx < n) →
      ∀ b ∈ (IntegratedCLI.Orquesta.extendObjects x.ctxsIn x.prev (ctxs.erase 0) backref idx s).prev
        c.prev, b.2 < n := by
    intro n c hlt hold hnew b hb
    rw [prev_extendObjects hlt] at hb
    split at hb
    · rename_i heq
      rcases Dict.mem_put hb with rfl | hb
      · exact hnew heq.symm
      · exact hold b hb
    · exact hold b hb
  constructor
  · exact h.last
  · intro k c hc
    exact hprev k c (h.fits_started hc).prevs (h.prev k c hc) (hlater k c hc)
  · intro c hc
    exact hprev _ c (h.fits_waiting hc).prevs (h.stagedPrev c hc) fun _ => hidx
  · exact (h.listed.extendObjects x.ctxsIn x.prev hctxs backref idx).ctxs
  · intro c hc
    show c.prev < (s.prevs.modify _ _).length
    rw [List.length_modify]
    exact h.prevs c hc
  · exact h.routes

/-- The next task is staged on a route. -/
theorem stageNext_leaving {s₀ s : Conductor} (h : Leaving s₀ s) (t : String) (edge : Edge)
    {idx route : ℕ} (hidx : idx < s.started.length) (hroute : route < s.routes.length)
    {ctxs : List ℕ} (hctxs : CtxsOk s.contexts.length ctxs)
    (hlater : ∀ x ∈ s.staged, x.id = edge.dst → x.route = route → x.core ∈ s₀.waiting →
      ∀ k c, s.started[k]? = some c → c.prev = x.prev → idx < k) :
    Outcome (stageNext t edge idx route ctxs) (fun _ => Leaving s₀) (fun _ => Leaving s₀) s := by
  refine (stageNext_outcome t edge idx route ctxs s).mono ?_ ?_
  · rintro _ s' (⟨i, x, hi, hx, _, rfl⟩ | ⟨_, rfl⟩)
    · obtain ⟨y, hy, hid, hr⟩ := stagedIdx_spec hi
      rw [hx, Option.some_inj] at hy
      subst hy
      have hmem : x ∈ s.staged := List.mem_of_getElem? hx
      have hcore : x.core ∈ s.waiting := Conductor.core_mem_waiting hmem
      have hext : Leaving s₀ (extendObjects x.ctxsIn x.prev (ctxs.erase 0) ⟨t, edge.key⟩ idx s) := by
        refine ⟨h.sound.extendObjects x.core hctxs _ hidx ?_, h.started, h.routes, h.waiting⟩
        intro k c hc hshared
        rcases h.waiting x.core hcore with hold | hnew
        · exact hlater x hmem hid hr hold k c hc hshared
        · exact absurd hshared (hnew c (List.mem_of_getElem? hc))
      refine hext.thins (thins_updateStaged ?_ i _)
      exact fun _ => rfl
    · set s₁ : Conductor := { s with
        lists := s.lists ++ [ctxs]
        prevs := s.prevs ++ [[(⟨t, edge.key⟩, idx)]] } with hs₁
      have hallocs : Allocs s s₁ := ⟨_, _, rfl, rfl, rfl, rfl, rfl, rfl, rfl⟩
      have hlist : s₁.list s.lists.length = ctxs := by
        unfold Conductor.list
        rw [hs₁]
        simp
      have hprev : s₁.prev s.prevs.length = [(⟨t, edge.key⟩, idx)] := by
        unfold Conductor.prev
        rw [hs₁]
        simp
      have hfits : Fits s₁ route s.lists.length s.prevs.length := by
        refine ⟨?_, ?_, ?_, hroute⟩
        · rw [hlist]
          exact hctxs
        · rw [hprev]
          intro b hb
          rw [List.mem_singleton.mp hb]
          exact hidx
        · show _ < (s.prevs ++ _).length
          rw [List.length_append]
          exact Nat.lt_succ_self _
      have hadd := addStagedTask_eq hfits.ctxs.ne_nil edge.dst route s.prevs.length false none
      refine ⟨(h.sound.allocs hallocs).addStagedTask hfits edge.dst false none, ?_, ?_, ?_⟩
      · rw [hadd]
        exact h.started
      · rw [hadd]
        exact h.routes
      · rw [hadd]
        intro c hc
        have hc' : c ∈ s.waiting ++ [⟨edge.dst, route, s.lists.length, s.prevs.length⟩] := by
          unfold Conductor.waiting at hc
          rw [List.map_append] at hc
          exact hc
        rcases List.mem_append.mp hc' with hc' | hc'
        · exact h.waiting c hc'
        · rw [List.mem_singleton.mp hc']
          refine Or.inr fun d hd => ?_
          exact (h.sound.prevs d (List.mem_append_left _ hd)).ne
  · rintro _ s' rfl
    exact h

/-- A transition that does not overtake an entry. -/
theorem stageTaken_leaving {wf : Workflow} {spec : TaskSpec} {t : String} {r idx : ℕ}
    {ctx : EvalContext} {edge : Edge} {s₀ : Conductor} (h₀ : Sound s₀)
    (hidx : s₀.taskStateIdx t r = some idx)
    (hbehind : overtakes wf spec r idx ctx s₀ edge = false)
    (hmet : evaluateCriteria wf edge ctx = .ok true)
    (hvars : ∃ vars, spec.finalizeContext wf.evaluator edge.dst edge.ref ctx = .ok (vars, []))
    (out : Outgoing) {s : Conductor} (h : Leaving s₀ s) {ctxs : List ℕ}
    (hctxs : CtxsOk s.contexts.length ctxs) :
    Outcome (stageTaken wf t r idx out edge ctxs) (fun _ => Leaving s₀) (fun _ => Leaving s₀) s := by
  obtain ⟨e, he, -, rfl⟩ := h₀.entry hidx
  have hstarted : s₀.started[idx]? = some e.core := Conductor.started_getElem? he
  have hlt : idx < s.started.length := by
    rw [h.started]
    exact (List.getElem?_eq_some_iff.mp hstarted).1
  have hroute₀ : e.route < s₀.routes.length := (h₀.fits_started hstarted).routes
  have hsame : s₀.routes[e.route]? = s.routes[e.route]? := by
    obtain ⟨rs, hrs⟩ := h.routes
    rw [← hrs, List.getElem?_append_left hroute₀]
  have hnext : ∀ route s₁, Leaving s₀ s₁ → s₁.started = s.started →
      s₁.contexts.length = s.contexts.length → route < s₁.routes.length →
      (∀ x ∈ s₁.staged, x.id = edge.dst → x.route = route → x.core ∈ s₀.waiting →
        ∀ k c, s₁.started[k]? = some c → c.prev = x.prev → idx < k) →
      Outcome (do
        let i ← stageNext t edge idx route ctxs
        let s ← get
        let ready := decide (s.getInboundCriteriaStatus wf edge.dst e.route = .satisfied)
        modify (Conductor.updateStaged i fun x => { x with ready := ready })
        if isReserved edge.dst then
          return { out with
            commands := out.commands ++ [(edge.dst, route)]
            manualFail := out.manualFail || edge.dst = "fail" }
        else if ready then return { out with readyNext := out.readyNext ++ [i] }
        else return out) (fun _ => Leaving s₀) (fun _ => Leaving s₀) s₁ := by
    intro route s₁ hs₁ hst hlen hroute hlater
    rw [outcome_bind]
    refine (stageNext_leaving hs₁ t edge (hst ▸ hlt) hroute (hlen ▸ hctxs) hlater).mono
      (fun i s₂ hs₂ => ?_) fun _ _ h => h
    rw [outcome_bind, outcome_get]
    dsimp only
    rw [outcome_bind, outcome_modify]
    have hs₃ := hs₂.thins (thins_updateStaged
      (f := fun x => { x with
        ready := decide (s₂.getInboundCriteriaStatus wf edge.dst e.route = .satisfied) })
      (fun _ => rfl) i s₂)
    split
    · exact hs₃
    · split
      · exact hs₃
      · exact hs₃
  unfold stageTaken
  rw [outcome_bind]
  refine (evaluateRoute_outcome wf edge e.route s).mono ?_ ?_
  · rintro _ s₁ (⟨rfl, rfl, hresult⟩ | ⟨ids, rfl, rfl⟩)
    · refine hnext e.route s₁ h rfl rfl (hroute₀.trans_le h.routes.length_le) ?_
      intro x hx hid hr hold k c hc hshared
      by_contra hle
      -- the entry `k` shares the back references of a task that was staged before
      rw [Bool.eq_false_iff] at hbehind
      refine hbehind ?_
      obtain ⟨vars, hvars⟩ := hvars
      obtain ⟨x₀, hx₀, hcore⟩ := List.mem_map.mp hold
      rw [h.started] at hc
      unfold Conductor.started at hc
      rw [List.getElem?_map, Option.map_eq_some_iff] at hc
      obtain ⟨d, hd, rfl⟩ := hc
      unfold overtakes
      rw [hmet, hvars, hresult s₀ hsame, Bool.true_and, Bool.and_eq_true, List.any_eq_true]
      refine ⟨rfl, x₀, hx₀, ?_⟩
      have hid₀ : x₀.id = x.id := congrArg Core.id hcore
      have hr₀ : x₀.route = x.route := congrArg Core.route hcore
      have hp₀ : x₀.prev = x.prev := congrArg Core.prev hcore
      rw [hid₀, hr₀, hp₀, hid, hr, decide_eq_true rfl, Bool.true_and]
      dsimp only
      rw [decide_eq_true rfl, Bool.true_and, List.any_eq_true]
      refine ⟨d, ?_, decide_eq_true hshared⟩
      rw [List.mem_take_iff_getElem]
      obtain ⟨hk, hdk⟩ := List.getElem?_eq_some_iff.mp hd
      exact ⟨k, by omega, hdk⟩
    · refine hnext s.routes.length _ (h.newRoute ids) rfl rfl ?_ ?_
      · simp
      · intro x hx _ hr
        have := (h.sound.fits_waiting (Conductor.core_mem_waiting hx)).routes
        have hxr : x.core.route = s.routes.length := hr
        omega
  · rintro _ s₁ rfl
    exact h

theorem stageTransitions_sound {wf : Workflow} {spec : TaskSpec} {t : String} {r idx : ℕ}
    {ctx : EvalContext} {s : Conductor} (h : Sound s) (hidx : s.taskStateIdx t r = some idx)
    (hbehind : staysBehind wf spec t r idx ctx s = true) :
    Outcome (stageTransitions wf spec t r idx ctx) (fun _ => Sound) (fun _ => Sound) s := by
  have hstart : Leaving s s := ⟨h, rfl, List.prefix_refl _, fun c hc => Or.inl hc⟩
  obtain ⟨e, he, -, -⟩ := h.entry hidx
  have hround : ∀ edge ∈ wf.graph.getNextTransitions t, ∀ out s₁, Leaving s s₁ →
      Outcome (stageTransition wf spec t r idx ctx out edge) (fun _ => Leaving s)
        (fun _ => Leaving s) s₁ := by
    intro edge hedge out s₁ h₁
    have hfalse : overtakes wf spec r idx ctx s edge = false := by
      unfold staysBehind at hbehind
      rw [Bool.not_eq_true', List.any_eq_false] at hbehind
      exact Bool.eq_false_iff.mpr (hbehind edge hedge)
    refine stageTransition_rule (fun _ _ hs h => h.thins hs) (fun _ c d h => h.newContext c d) ?_
      out s₁ h₁
    intro hmet hvars out s₂ s₃ ctxs h₂ h₃ hctxs
    exact stageTaken_leaving h hidx hfalse hmet hvars out h₃
      (h₂.listed.ctxsOk (List.getElem?_eq_some_iff.mp (Conductor.started_getElem? he)).1 hctxs)
  have hloop := stageTransitions_rule (I := fun _ => Leaving s) (fun _ _ _ hs h => h.thins hs)
    hround hstart
  exact hloop.mono (fun _ _ ⟨_, _, h⟩ => h.sound) fun _ _ h => h.sound

theorem kept_sound (wf : Workflow) :
    Kept wf (fun _ _ _ => true) (staysBehind wf) Sound where
  thins _ _ hs h := h.thins hs
  start x s h hx := by
    refine (addTaskState_sound h ?_).mono (fun _ _ h => h.1) fun _ _ h => h
    exact h.fits_waiting (Conductor.core_mem_waiting hx)
  restage t r idx s h hidx _ := restage_sound h hidx
  leave spec t r idx ctx s h hidx hbehind := stageTransitions_sound h hidx hbehind

/-! ## Running a task again -/

/-- A new entry and a staged task, with copies of objects that fit. -/
theorem startAgain_sound (wf : Workflow) (t : String) {r : ℕ} {l p : Ref} {s : Conductor}
    (h : Sound s) (hfits : Fits s r l p) :
    Outcome (startAgain wf t r (s.list l) (s.prev p)) (fun _ => Sound) (fun _ => Sound) s := by
  unfold startAgain
  rw [outcome_bind, outcome_get]
  dsimp only
  rw [outcome_bind, outcome_set, outcome_bind]
  have hallocs : Allocs s ((s.allocList (s.list l)).2.allocPrev (s.prev p)).2 :=
    ⟨[s.list l], [s.prev p], rfl, rfl, rfl, rfl, rfl, rfl, rfl⟩
  have hnew : Fits ((s.allocList (s.list l)).2.allocPrev (s.prev p)).2 r
      (s.allocList (s.list l)).1 ((s.allocList (s.list l)).2.allocPrev (s.prev p)).1 := by
    refine ⟨?_, ?_, ?_, hfits.routes⟩
    · show CtxsOk s.contexts.length (((s.lists ++ [s.list l])[s.lists.length]?).getD [])
      rw [List.getElem?_concat_length, Option.getD_some]
      exact hfits.ctxs
    · show ∀ b ∈ ((s.prevs ++ [s.prev p])[s.prevs.length]?).getD [], b.2 < s.started.length
      rw [List.getElem?_concat_length, Option.getD_some]
      exact hfits.prev
    · show s.prevs.length < (s.prevs ++ [s.prev p]).length
      rw [List.length_append]
      exact Nat.lt_succ_self _
  refine (addTaskState_sound (h.allocs hallocs) hnew).mono ?_ fun _ _ h => h
  rintro _ s' ⟨hs', hfits'⟩
  exact hs'.addStagedTask hfits' t true none

theorem requestTaskRerun_sound (wf : Workflow) (t : String) (r : ℕ) (resetItems : Bool)
    {s : Conductor} (h : Sound s) :
    Outcome (requestTaskRerun wf t r resetItems) (fun _ => Sound) (fun _ => Sound) s := by
  unfold requestTaskRerun
  rw [outcome_bind, outcome_get]
  split
  · exact h
  · rename_i idx hidx
    obtain ⟨e, he, rfl, rfl⟩ := h.entry hidx
    rw [he]
    dsimp only
    rw [outcome_bind, outcome_lift]
    refine ⟨fun spec hspec => ?_, fun _ _ => h⟩
    rw [outcome_bind, outcome_modify, outcome_bind, outcome_modify, outcome_bind, outcome_modify]
    have hthins : Thins s { reopenStaged e.id e.route (s.popTerm idx) with
        errors := (reopenStaged e.id e.route (s.popTerm idx)).errors.filter
          fun entry => entry.taskId ≠ some e.id } :=
      trans_of Thins (popTerm_thins idx s)
        (trans_of Thins (reopenStaged_thins e.id e.route _) (thins_errors _ _))
    generalize ({ reopenStaged e.id e.route (s.popTerm idx) with
        errors := (reopenStaged e.id e.route (s.popTerm idx)).errors.filter
          fun entry => entry.taskId ≠ some e.id } : Conductor) = s₁ at hthins ⊢
    have hs₁ : Sound s₁ := h.thins hthins
    have hfits : Fits s₁ e.route e.ctxsIn e.prev :=
      (h.fits_started (Conductor.started_getElem? he)).thins hthins
    have hlist : s.list e.ctxsIn = s₁.list e.ctxsIn := by
      unfold Conductor.list
      rw [hthins.lists]
    have hprev : s.prev e.prev = s₁.prev e.prev := by
      unfold Conductor.prev
      rw [hthins.prevs]
    split
    · rw [outcome_bind]
      refine (resetStagedItems_thins e.id e.route resetItems).step (fun _ s₂ h₂ => ?_)
        fun _ s₂ h₂ => hs₁.thins h₂
      exact (hs₁.thins h₂).thins (foldl_popTerm_thins _ s₂)
    · rw [outcome_bind, hlist, hprev]
      refine (startAgain_sound wf e.id hs₁ hfits).mono (fun _ s₂ h₂ => ?_) fun _ _ h => h
      exact h₂.thins (foldl_popTerm_thins _ s₂)

theorem requestWorkflowRerun_sound (wf : Workflow) (requests : List RerunRequest) {s : Conductor}
    (h : Sound s) :
    Outcome (requestWorkflowRerun wf requests) (fun _ => Sound) (fun _ => Sound) s := by
  unfold requestWorkflowRerun
  rw [outcome_bind, outcome_get]
  split
  · exact h
  · dsimp only
    split
    · exact h
    · rw [outcome_bind]
      refine (outcome_forM (I := Sound)
        (fun k _ s₁ h₁ => requestTaskRerun_sound wf k.id k.route _ h₁) h).mono
        (fun _ s₁ h₁ => ?_) fun _ _ h => h
      rw [outcome_bind, outcome_modify, outcome_modify]
      have h₂ : Sound (s₁.continuableCandidates.foldl (fun s i => s.popTerm i) s₁) :=
        h₁.thins (foldl_popTerm_thins _ s₁)
      exact h₂.thins (OnlyStatus.thins rfl)

/-! ## A new workflow -/

theorem Fresh.sound {s : Conductor} (h : Fresh s) : Sound s := by
  have hmem : ∀ c ∈ s.started ++ s.waiting, False := by
    rw [h.started, h.waiting]
    exact fun c hc => List.not_mem_nil hc
  constructor
  · intro t r i
    unfold Conductor.taskStateIdx IsLast
    rw [h.tasks, h.started]
    simp
  · intro i c hc
    rw [h.started] at hc
    cases hc
  · exact fun c hc => (hmem c (List.mem_append_right _ hc)).elim
  · exact fun c hc => (hmem c hc).elim
  · exact fun c hc => (hmem c hc).elim
  · exact fun c hc => (hmem c hc).elim

theorem init_sound (wf : Workflow) : Sound (.init wf) := by
  unfold Conductor.init
  rw [← outcome_after (P := Sound)]
  refine makeWorkflowState_rule (I := Fresh) (fun _ _ hs h => h.thins hs) (fun _ h => h.sound) ?_
    ⟨rfl, rfl, rfl⟩
  intro s d h
  -- there is a context and a route from here on
  have hstart : Sound { s with contexts := s.contexts ++ [d], routes := s.routes ++ [[]] } :=
    Fresh.sound ⟨h.tasks, h.started, h.waiting⟩
  refine (outcome_forM (I := fun s => Sound s ∧ 0 < s.contexts.length ∧ 0 < s.routes.length)
    (E := fun _ => Sound) ?_ ⟨hstart, by simp, by simp⟩).mono (fun _ _ h => h.1) fun _ _ h => h
  rintro t _ s₁ ⟨h₁, hcontexts, hroutes⟩
  rw [outcome_bind, outcome_get]
  dsimp only
  rw [outcome_set]
  have hallocs : Allocs s₁ ((s₁.allocList [0]).2.allocPrev []).2 :=
    ⟨[[0]], [[]], rfl, rfl, rfl, rfl, rfl, rfl, rfl⟩
  have hfits : Fits ((s₁.allocList [0]).2.allocPrev []).2 0 (s₁.allocList [0]).1
      ((s₁.allocList [0]).2.allocPrev []).1 := by
    refine ⟨?_, ?_, ?_, hroutes⟩
    · show CtxsOk s₁.contexts.length (((s₁.lists ++ [[0]])[s₁.lists.length]?).getD [])
      rw [List.getElem?_concat_length, Option.getD_some]
      exact ⟨by simpa using hcontexts, rfl⟩
    · show ∀ b ∈ ((s₁.prevs ++ [[]])[s₁.prevs.length]?).getD [], b.2 < s₁.started.length
      rw [List.getElem?_concat_length, Option.getD_some]
      exact fun b hb => (List.not_mem_nil hb).elim
    · show s₁.prevs.length < (s₁.prevs ++ [[]]).length
      rw [List.length_append]
      exact Nat.lt_succ_self _
  refine ⟨(h₁.allocs hallocs).addStagedTask hfits t true none, ?_⟩
  unfold Conductor.addStagedTask Conductor.orRoot
  rw [if_neg hfits.ctxs.ne_nil]
  exact ⟨hcontexts, hroutes⟩

/-! ## Runs -/

/-- No transition that the call takes overtakes an entry. -/
def overtakesNone (wf : Workflow) (s : Conductor) : ClientCall → Bool
  | .call (.updateTaskState t r event) =>
    admits wf (fun _ _ _ => true) (staysBehind wf) recursionLimit t r event s
  | _ => true

theorem clientStep_sound (wf : Workflow) (s : Conductor) (c : ClientCall) (h : Sound s)
    (hc : overtakesNone wf s c = true) : Sound (clientStep wf s c) := by
  cases c with
  | call c =>
    cases c with
    | requestWorkflowStatus st => exact h.thins (requestWorkflowStatus_thins st s)
    | updateTaskState t r event =>
      show Sound (after (updateTaskState wf t r event) s)
      rw [← outcome_after (P := Sound)]
      refine (kept_sound wf).update ?_ _ t r event s h hc
      intro spec t r idx ctx s hnone
      unfold staysBehind
      rw [hnone]
      rfl
    | getNextTasks => exact h.thins (getNextTasks_thins wf s)
  | requestWorkflowRerun requests =>
    show Sound (after (requestWorkflowRerun wf requests) s)
    rw [← outcome_after (P := Sound)]
    exact requestWorkflowRerun_sound wf requests h

/-- **The workflow state is well formed** in a run in which no transition overtakes an
entry. -/
theorem wellFormed_run (wf : Workflow) (calls : List ClientCall)
    (h : Run.Along (clientStep wf) (fun s c => overtakesNone wf s c = true) (.init wf) calls) :
    Run.Throughout (clientStep wf) WellFormed (.init wf) calls :=
  (Run.throughout_of_along (fun s c hs hc => clientStep_sound wf s c hs hc) (init_sound wf) h).mono
    fun _ hs => hs.wellFormed

/-! ### A task with items that loops on itself -/

/-- The second task is started again when it fails. -/
def loopOnFailure : Workflow where
  spec := ⟨[], [],
    [("task1", ⟨none, none, none, .str "core.noop", .dict [], none, [⟨none, [], ["task2"]⟩]⟩),
      ("task2", ⟨none, none, some ⟨none, .str "<% ctx(hosts) %>", .null⟩, .str "core.noop",
        .dict [], none, [⟨some "<% failed() %>", [], ["task2"]⟩]⟩)]⟩
  graph := ⟨[("task1", ⟨none, none⟩), ("task2", ⟨none, none⟩)],
    [⟨"task1", "task2", 0, [], 0⟩, ⟨"task2", "task2", 0, ["<% failed() %>"], 0⟩]⟩
  inputs := []
  parentCtx := []
  evaluator := fun s _ =>
    if s = "<% ctx(hosts) %>" then .ok (.list [.str "host1"])
    else if s = "<% failed() %>" then .ok (.bool true)
    else .ok (.str s)
  composed := ⟨5, rfl⟩

/-- The first task is done, and the item of the second one is running. -/
def itemStarts : List ClientCall :=
  [.call (.requestWorkflowStatus (some running)),
    .call (.updateTaskState "task1" 0 (.action (some running) .null)),
    .call (.updateTaskState "task1" 0 (.action (some succeeded) .null)),
    .call .getNextTasks,
    .call (.updateTaskState "task2" 0 (.item 0 (some running) .null .null))]

theorem wellFormed_run_itemStarts :
    Run.Throughout (clientStep loopOnFailure) WellFormed (.init loopOnFailure) itemStarts :=
  wellFormed_run loopOnFailure itemStarts (by decide +kernel)

def itemFails : List ClientCall :=
  itemStarts ++ [.call (.updateTaskState "task2" 0 (.item 0 (some failed) .null .null))]

theorem not_wellFormed_run_itemFails :
    ¬ Run.Throughout (clientStep loopOnFailure) WellFormed (.init loopOnFailure) itemFails := by
  intro h
  -- the entry of the second task has a back reference to itself
  have hloop : ∃ e, (itemFails.foldl (clientStep loopOnFailure) (.init loopOnFailure)).sequence[1]? =
      some e ∧ (⟨"task2", 0⟩, 1) ∈
        (itemFails.foldl (clientStep loopOnFailure) (.init loopOnFailure)).prev e.prev := by
    refine ⟨⟨"task2", 0, 1, none, 2, [(⟨"task2", 0⟩, true)], some failed, none, false⟩, ?_, ?_⟩
    · rfl
    · decide +kernel
  obtain ⟨e, he, hmem⟩ := hloop
  exact absurd (h.last.prev 1 e he _ hmem) (by decide)

end Orquesta
end IntegratedCLI
