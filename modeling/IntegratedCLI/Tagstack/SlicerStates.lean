import Mathlib.Data.Nat.Basic
import Mathlib.Order.Basic
import IntegratedCLI.Lib.Shelves
import IntegratedCLI.Tagstack.Slicer

/-!
# The states of a slicer

Lemmas on the list of states: what setting the state at a pointer changes
(`state_setState_self`), which changes do not show in the timeline
(`SameTimes`), and how creating a state makes the list grow (`Created`).

`createStackState` makes the parents of a stack before the stack, by recursion on
the number of its tags.  Whatever it makes is appended, has never been active and
has an id of its own, so a pointer into the list stays valid and an old state is
returned only if looking the stack up would have found it.

The dormant lists and the active states are the shelves and slots of
`Lib.Shelves`, with the hooks the states carry (`Slicer.shelves`).
-/

namespace IntegratedCLI
namespace Tagstack
namespace Slicer

/-- What a step is shown to do, unless it links a state that is linked. -/
def Outcome (Q : Slicer → Prop) : Except Fault Slicer → Prop
  | .ok sl => Q sl
  | .error f => f = .alreadyLinked

theorem Outcome.mono {Q R : Slicer → Prop} {r : Except Fault Slicer} (h : Outcome Q r)
    (hQR : ∀ sl, Q sl → R sl) : Outcome R r := by
  cases r with
  | ok sl => exact hQR sl h
  | error f => exact h

/-! ## States -/

@[simp] theorem length_setState (sl : Slicer) (p : ℕ) (ss : TagStackState) :
    (sl.setState p ss).states.length = sl.states.length := by
  simp [setState]

theorem state_setState_self (sl : Slicer) {p : ℕ} (ss : TagStackState)
    (hp : p < sl.states.length) : (sl.setState p ss).state p = ss := by
  simp [setState, state, List.getD_eq_getElem?_getD, hp]

theorem state_setState_of_ne (sl : Slicer) {p q : ℕ} (ss : TagStackState) (h : q ≠ p) :
    (sl.setState p ss).state q = sl.state q := by
  simp [setState, state, List.getD_eq_getElem?_getD, List.getElem?_set_ne (Ne.symm h)]

theorem findState_eq_some {sl : Slicer} {s : Stack} {p : ℕ} (h : sl.findState s = some p) :
    p < sl.states.length ∧ (sl.state p).stats.stack.eqv s = true := by
  obtain ⟨hp, heq, -⟩ := List.findIdx?_eq_some_iff_getElem.mp h
  refine ⟨hp, ?_⟩
  simpa [state, List.getD_eq_getElem?_getD, hp] using heq

/-- A slicer that differs only where the timeline does not look. -/
structure SameTimes (sl sl' : Slicer) : Prop where
  numGroups : sl'.numGroups = sl.numGroups
  groupedSlices : sl'.groupedSlices = sl.groupedSlices
  activeStates : sl'.activeStates = sl.activeStates
  nextStackId : sl'.nextStackId = sl.nextStackId
  numResets : sl'.numResets = sl.numResets
  length : sl'.states.length = sl.states.length
  stats : ∀ p, (sl'.state p).stats = (sl.state p).stats
  lastSwin : ∀ p, (sl'.state p).lastSwin = (sl.state p).lastSwin
  dormant : ∀ t, ∀ p ∈ sl'.dormantStates t, p ∈ sl.dormantStates t ∨ p < sl.states.length

theorem SameTimes.refl (sl : Slicer) : SameTimes sl sl :=
  ⟨rfl, rfl, rfl, rfl, rfl, rfl, fun _ => rfl, fun _ => rfl, fun _ _ hp => Or.inl hp⟩

/-- What an event adds to the stats and the clock does not show. -/
theorem SameTimes.of_eq {sl sl' : Slicer} (hgroups : sl'.numGroups = sl.numGroups)
    (hslices : sl'.groupedSlices = sl.groupedSlices) (hactive : sl'.activeStates = sl.activeStates)
    (hdormant : sl'.dormantStates = sl.dormantStates) (hstates : sl'.states = sl.states)
    (hid : sl'.nextStackId = sl.nextStackId) (hresets : sl'.numResets = sl.numResets) :
    SameTimes sl sl' := by
  have hstate : ∀ p, sl'.state p = sl.state p := fun p => by rw [state, state, hstates]
  exact ⟨hgroups, hslices, hactive, hid, hresets, congrArg List.length hstates,
    fun p => by rw [hstate], fun p => by rw [hstate],
    fun t p hp => Or.inl (by rw [← hdormant]; exact hp)⟩

theorem sameTimes_handled (sl : Slicer) (ev : Event) : SameTimes sl (sl.handled ev) :=
  SameTimes.of_eq rfl rfl rfl rfl rfl rfl rfl

theorem SameTimes.trans {sl sl' sl'' : Slicer} (h : SameTimes sl sl') (h' : SameTimes sl' sl'') :
    SameTimes sl sl'' :=
  ⟨h'.numGroups.trans h.numGroups, h'.groupedSlices.trans h.groupedSlices,
    h'.activeStates.trans h.activeStates, h'.nextStackId.trans h.nextStackId,
    h'.numResets.trans h.numResets, h'.length.trans h.length,
    fun p => (h'.stats p).trans (h.stats p), fun p => (h'.lastSwin p).trans (h.lastSwin p),
    fun t p hp => (h'.dormant t p hp).elim (h.dormant t p) fun hlt => Or.inr (h.length ▸ hlt)⟩

/-- Changing the hook of a state changes nothing else. -/
theorem state_setHook (sl : Slicer) {p : ℕ} (hook : Option ℕ) (hp : p < sl.states.length)
    (q : ℕ) : (sl.setState p { sl.state p with hook := hook }).state q =
      { sl.state q with hook := if q = p then hook else (sl.state q).hook } := by
  by_cases hq : q = p
  · subst hq
    rw [state_setState_self sl _ hp, if_pos rfl]
  · rw [state_setState_of_ne sl _ hq, if_neg hq]

theorem sameTimes_setHook (sl : Slicer) {p : ℕ} (hook : Option ℕ) {dormant : ℕ → List ℕ}
    (hp : p < sl.states.length) (hdormant : ∀ t, ∀ q ∈ dormant t, q ∈ sl.dormantStates t ∨ q = p) :
    SameTimes sl { sl.setState p { sl.state p with hook := hook } with
      dormantStates := dormant } := by
  refine ⟨rfl, rfl, rfl, rfl, rfl, length_setState _ _ _, fun q => ?_, fun q => ?_,
    fun t q hq => (hdormant t q hq).imp id fun heq => by rw [heq]; exact hp⟩
  · change ((sl.setState p { sl.state p with hook := hook }).state q).stats = _
    rw [state_setHook sl hook hp q]
  · change ((sl.setState p { sl.state p with hook := hook }).state q).lastSwin = _
    rw [state_setHook sl hook hp q]

theorem sameTimes_unlink (sl : Slicer) {p : ℕ} (hp : p < sl.states.length) :
    SameTimes sl (sl.unlink p) := by
  unfold unlink
  split
  · exact SameTimes.refl sl
  · rename_i tag _
    refine sameTimes_setHook sl none hp fun t q hq => Or.inl ?_
    by_cases ht : t = tag
    · rw [ht, Function.update_self] at hq
      rw [ht]
      exact List.mem_of_mem_erase hq
    · rwa [Function.update_of_ne ht] at hq

theorem sameTimes_pushFront {sl sl' : Slicer} {tag p : ℕ} (hp : p < sl.states.length)
    (h : sl.pushFront tag p = .ok sl') : SameTimes sl sl' := by
  unfold pushFront at h
  split at h
  · exact absurd h (by simp)
  · rw [← Except.ok.inj h]
    refine sameTimes_setHook sl (some tag) hp fun t q hq => ?_
    by_cases ht : t = tag
    · rw [ht, Function.update_self] at hq
      rw [ht]
      exact (List.mem_cons.mp hq).symm
    · rw [Function.update_of_ne ht] at hq
      exact Or.inl hq

theorem pushFront_outcome {sl : Slicer} (tag : ℕ) {p : ℕ} (hp : p < sl.states.length) :
    Outcome (SameTimes sl) (sl.pushFront tag p) := by
  cases h : sl.pushFront tag p with
  | ok sl' => exact sameTimes_pushFront hp h
  | error f =>
    unfold pushFront at h
    split at h
    · exact (Except.error.inj h).symm
    · exact absurd h (by simp)

/-! ## Growth -/

/-- A slicer that has more states, none of which has ever been active. -/
structure Grown (sl sl' : Slicer) : Prop where
  numGroups : sl'.numGroups = sl.numGroups
  groupedSlices : sl'.groupedSlices = sl.groupedSlices
  activeStates : sl'.activeStates = sl.activeStates
  dormantStates : sl'.dormantStates = sl.dormantStates
  numActiveWriteErrors : sl'.numActiveWriteErrors = sl.numActiveWriteErrors
  numResets : sl'.numResets = sl.numResets
  nextStackId : sl.nextStackId ≤ sl'.nextStackId
  length : sl.states.length ≤ sl'.states.length
  old : ∀ p < sl.states.length, sl'.state p = sl.state p
  fresh : ∀ p < sl'.states.length, sl.states.length ≤ p → ∃ i parent s,
    sl'.state p = .mk' i parent s ∧ sl.nextStackId ≤ i ∧ i < sl'.nextStackId ∧
      s.tags.length = kMaxNumLevels
  inj : ∀ p < sl'.states.length, ∀ q < sl'.states.length, sl.states.length ≤ p →
    sl.states.length ≤ q → (sl'.state p).stats.stackId = (sl'.state q).stats.stackId → p = q

theorem Grown.refl (sl : Slicer) : Grown sl sl := by
  refine ⟨rfl, rfl, rfl, rfl, rfl, rfl, le_rfl, le_rfl, fun _ _ => rfl, ?_, ?_⟩
  · intro p hp hle
    exact absurd hp (Nat.not_lt.mpr hle)
  · intro p hp q _ hle
    exact absurd hp (Nat.not_lt.mpr hle)

theorem Grown.trans {sl sl' sl'' : Slicer} (h : Grown sl sl') (h' : Grown sl' sl'') :
    Grown sl sl'' := by
  have hfresh : ∀ p < sl''.states.length, sl.states.length ≤ p → ∃ i parent s,
      sl''.state p = .mk' i parent s ∧ sl.nextStackId ≤ i ∧ i < sl''.nextStackId ∧
        s.tags.length = kMaxNumLevels ∧ (p < sl'.states.length ↔ i < sl'.nextStackId) := by
    intro p hp hle
    by_cases hlt : p < sl'.states.length
    · obtain ⟨i, parent, s, heq, hi, hi', htags⟩ := h.fresh p hlt hle
      exact ⟨i, parent, s, (h'.old p hlt).trans heq, hi, hi'.trans_le h'.nextStackId, htags,
        iff_of_true hlt hi'⟩
    · obtain ⟨i, parent, s, heq, hi, hi', htags⟩ := h'.fresh p hp (Nat.le_of_not_lt hlt)
      exact ⟨i, parent, s, heq, h.nextStackId.trans hi, hi', htags,
        iff_of_false hlt (Nat.not_lt.mpr hi)⟩
  refine ⟨h'.numGroups.trans h.numGroups, h'.groupedSlices.trans h.groupedSlices,
    h'.activeStates.trans h.activeStates, h'.dormantStates.trans h.dormantStates,
    h'.numActiveWriteErrors.trans h.numActiveWriteErrors, h'.numResets.trans h.numResets,
    h.nextStackId.trans h'.nextStackId, h.length.trans h'.length, ?_, ?_, ?_⟩
  · intro p hp
    rw [h'.old p (hp.trans_le h.length), h.old p hp]
  · intro p hp hle
    obtain ⟨i, parent, s, heq, hi, hi', htags, -⟩ := hfresh p hp hle
    exact ⟨i, parent, s, heq, hi, hi', htags⟩
  · intro p hp q hq hlep hleq heq
    obtain ⟨i, _, _, hi, -, -, -, hplt⟩ := hfresh p hp hlep
    obtain ⟨j, _, _, hj, -, -, -, hqlt⟩ := hfresh q hq hleq
    have hij : i = j := by
      rw [hi, hj] at heq
      exact heq
    by_cases hlt : p < sl'.states.length
    · have hlt' : q < sl'.states.length := hqlt.mpr (hij ▸ hplt.mp hlt)
      rw [h'.old p hlt, h'.old q hlt'] at heq
      exact h.inj p hlt q hlt' hlep hleq heq
    · have hlt' : ¬ q < sl'.states.length := fun hq' => hlt (hplt.mpr (hij ▸ hqlt.mp hq'))
      exact h'.inj p hp q hq (Nat.le_of_not_lt hlt) (Nat.le_of_not_lt hlt') heq

/-- What creating the state of a stack gives: more states, and a pointer to the
state of the stack, which is an old one only if the stack was found. -/
structure Created (sl : Slicer) (s : Stack) (r : Slicer × ℕ) : Prop where
  grown : Grown sl r.1
  lt : r.2 < r.1.states.length
  eqv : (r.1.state r.2).stats.stack.eqv s = true
  found : r.2 < sl.states.length → sl.findState s = some r.2

theorem state_append_left {sl : Slicer} {p : ℕ} (hp : p < sl.states.length)
    (new : List TagStackState) (sl' : Slicer) (h : sl'.states = sl.states ++ new) :
    sl'.state p = sl.state p := by
  rw [state, state, h, List.getD_eq_getElem?_getD, List.getD_eq_getElem?_getD,
    List.getElem?_append_left hp]

theorem emplaceState_created (sl : Slicer) (parentSid : ℕ) (s : Stack)
    (hs : s.tags.length = kMaxNumLevels) : Created sl s (sl.emplaceState parentSid s) := by
  unfold emplaceState
  cases hfind : sl.findState s with
  | some p =>
    obtain ⟨hp, heqv⟩ := findState_eq_some hfind
    refine ⟨⟨rfl, rfl, rfl, rfl, rfl, rfl, Nat.le_succ _, le_rfl, fun _ _ => rfl, ?_, ?_⟩, hp,
      heqv, fun _ => hfind⟩
    · intro q hq hle
      exact absurd hq (Nat.not_lt.mpr hle)
    · intro q hq _ _ hle
      exact absurd hq (Nat.not_lt.mpr hle)
  | none =>
    have hlast : ∀ sl' : Slicer, sl'.states = sl.states ++ [.mk' sl.nextStackId parentSid s] →
        ∀ q < sl'.states.length, sl.states.length ≤ q →
          q = sl.states.length ∧ sl'.state q = .mk' sl.nextStackId parentSid s := by
      intro sl' hstates q hq hle
      rw [hstates, List.length_append, List.length_singleton] at hq
      have heq : q = sl.states.length := le_antisymm (Nat.le_of_lt_succ hq) hle
      refine ⟨heq, ?_⟩
      rw [heq, state, hstates, List.getD_eq_getElem?_getD]
      simp
    refine ⟨⟨rfl, rfl, rfl, rfl, rfl, rfl, Nat.le_succ _, by simp, ?_, ?_, ?_⟩, by simp, ?_, ?_⟩
    · intro q hq
      exact state_append_left hq _ _ rfl
    · intro q hq hle
      exact ⟨sl.nextStackId, parentSid, s, (hlast _ rfl q hq hle).2, le_rfl, Nat.lt_succ_self _, hs⟩
    · intro q hq q' hq' hle hle' _
      rw [(hlast _ rfl q hq hle).1, (hlast _ rfl q' hq' hle').1]
    · rw [(hlast _ rfl sl.states.length (by simp) le_rfl).2]
      exact Stack.eqv_refl s
    · intro h
      exact absurd h (lt_irrefl _)

/-- Looking a stack up after other states were put in gives an old state only if
it was there before. -/
theorem Grown.findState_of_lt {sl sl' : Slicer} (h : Grown sl sl') {s : Stack} {p : ℕ}
    (hfind : sl'.findState s = some p) (hp : p < sl.states.length) : sl.findState s = some p := by
  have hget : ∀ q (hq : q < sl.states.length) (hq' : q < sl'.states.length),
      sl'.states[q] = sl.states[q] := by
    intro q hq hq'
    have hold := h.old q hq
    simpa [state, List.getD_eq_getElem?_getD, hq, hq'] using hold
  obtain ⟨hp', heq, hmin⟩ := List.findIdx?_eq_some_iff_getElem.mp hfind
  refine List.findIdx?_eq_some_iff_getElem.mpr ⟨hp, ?_, fun q hq => ?_⟩
  · rw [← hget p hp hp']
    exact heq
  · rw [← hget q (hq.trans hp) (hq.trans hp')]
    exact hmin q hq

theorem copyTruncated_length {s : Stack} {n : ℕ} {known : Bool} {junk : Tags}
    (hs : s.tags.length = kMaxNumLevels) (hjunk : junk.length = kMaxNumLevels) :
    (s.copyTruncated n known junk).tags.length = kMaxNumLevels := by
  simp only [Stack.copyTruncated, List.length_append, List.length_take, List.length_drop, hs,
    hjunk]
  omega

/-- Creating a state, by induction on the number of its tags: the parents that
are missing are created first. -/
theorem createStackState_created {junk : ℕ → Tags}
    (hjunk : ∀ n, (junk n).length = kMaxNumLevels) (sl : Slicer) (n : ℕ) (s : Stack)
    (hs : s.tags.length = kMaxNumLevels) : Created sl s (sl.createStackState junk n s) := by
  induction n generalizing s with
  | zero => exact emplaceState_created sl _ s hs
  | succ n ih =>
    rw [createStackState]
    cases hfind : sl.findState (s.copyTruncated n s.knownNumLevels (junk n)) with
    | some p => exact emplaceState_created sl _ s hs
    | none =>
      have hparent := ih (s.copyTruncated n s.knownNumLevels (junk n))
        (copyTruncated_length hs (hjunk n))
      have hself := emplaceState_created
        (sl.createStackState junk n (s.copyTruncated n s.knownNumLevels (junk n))).1
        ((sl.createStackState junk n (s.copyTruncated n s.knownNumLevels (junk n))).1.state
          (sl.createStackState junk n (s.copyTruncated n s.knownNumLevels (junk n))).2).stats.stackId
        s hs
      refine ⟨hparent.grown.trans hself.grown, hself.lt, hself.eqv, fun hlt => ?_⟩
      exact hparent.grown.findState_of_lt (hself.found (hlt.trans_le hparent.grown.length)) hlt

/-! ## Shelves -/

/-- The dormant lists as shelves and the active states as slots. -/
def shelves (sl : Slicer) : Shelves ℕ ℕ ℕ :=
  ⟨fun p => (sl.state p).hook, sl.dormantStates, sl.activeStates⟩

theorem state_of_le {sl : Slicer} {p : ℕ} (hp : sl.states.length ≤ p) : sl.state p = default := by
  simp [state, List.getD_eq_getElem?_getD, hp]

/-- A slicer whose hooks, lists and active states are the same. -/
theorem shelves_congr {sl sl' : Slicer} (hhook : ∀ p, (sl'.state p).hook = (sl.state p).hook)
    (hdormant : sl'.dormantStates = sl.dormantStates)
    (hactive : sl'.activeStates = sl.activeStates) : sl'.shelves = sl.shelves := by
  rw [shelves, shelves, hdormant, hactive, funext hhook]

theorem Grown.shelves {sl sl' : Slicer} (h : Grown sl sl') : sl'.shelves = sl.shelves := by
  refine shelves_congr (fun p => ?_) h.dormantStates h.activeStates
  by_cases hlt : p < sl.states.length
  · rw [h.old p hlt]
  · rw [state_of_le (Nat.le_of_not_lt hlt)]
    by_cases hlt' : p < sl'.states.length
    · obtain ⟨i, parent, s, heq, -⟩ := h.fresh p hlt' (Nat.le_of_not_lt hlt)
      rw [heq]
      rfl
    · rw [state_of_le (Nat.le_of_not_lt hlt')]

/-- Setting the hook of a state sets the hook on the shelves. -/
theorem hook_setHook (sl : Slicer) {p : ℕ} (hook : Option ℕ) (hp : p < sl.states.length) :
    (fun q => ((sl.setState p { sl.state p with hook := hook }).state q).hook) =
      Function.update sl.shelves.hook p hook := by
  funext q
  rw [state_setHook sl hook hp]
  by_cases hq : q = p
  · rw [hq, Function.update_self, if_pos rfl]
  · rw [Function.update_of_ne hq, if_neg hq]
    rfl

theorem shelves_unlink (sl : Slicer) {p : ℕ} (hp : p < sl.states.length) :
    (sl.unlink p).shelves = sl.shelves.remove p := by
  cases h : (sl.state p).hook with
  | none =>
    have hhook : sl.shelves.hook p = none := h
    simp only [unlink, h, Shelves.remove_of_hook_none hhook]
  | some tag =>
    have hhook : sl.shelves.hook p = some tag := h
    simp only [unlink, h, Shelves.remove, hhook]
    exact congrArg (Shelves.mk · _ _) (hook_setHook sl none hp)

/-- A state that is not linked can be linked. -/
theorem pushFront_eq {sl : Slicer} {p : ℕ} (tag : ℕ) (hp : p < sl.states.length)
    (hfree : (sl.state p).hook = none) : ∃ sl', sl.pushFront tag p = .ok sl' ∧
      SameTimes sl sl' ∧ sl'.shelves = sl.shelves.push tag p ∧
      sl'.numActiveWriteErrors = sl.numActiveWriteErrors := by
  have hunlinked : ¬ (sl.state p).isLinked = true := by
    rw [TagStackState.isLinked, hfree]
    simp
  have heq : sl.pushFront tag p = .ok _ := if_neg hunlinked
  exact ⟨_, heq, sameTimes_pushFront hp heq, congrArg (Shelves.mk · _ _) (hook_setHook sl _ hp), rfl⟩

end Slicer
end Tagstack
end IntegratedCLI
