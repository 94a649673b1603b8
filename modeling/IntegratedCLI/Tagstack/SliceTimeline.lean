import IntegratedCLI.Lib.Timeline
import IntegratedCLI.Tagstack.SlicerStates

/-!
# The timeline the slicer writes

Every group is a lane of a timeline, and the owner of a span is a stack id: the
slices that were written are the spans that are over, and an active state with
its last switch in is the span that is open (`Slicer.timeline`).

Handling an event moves this timeline by one of its steps (`processEvent_spec`),
so what `Lib.Timeline` says of every timeline holds of the slices.  What links
the two is `Slicer.Inv`: a state is switched in on a group exactly when it is the
active state of the group, and not later than the last event.

The same invariant shows that the checks made along the way hold.  The one fault
that is left is linking a state that is already linked; `Outcome` sets it apart.
-/

namespace IntegratedCLI
namespace Tagstack
namespace Slicer

/-! ## The invariant -/

def sliceSpan (s : Slice) : Span ℕ := ⟨s.tstamp, s.tstampEnd, s.stackId⟩

/-- The span a group has open: its active state, since it was switched in. -/
def openSpan (sl : Slicer) (g : ℕ) : Option (ℕ × ℕ) :=
  (sl.activeStates g).map fun p =>
    (((sl.state p).lastSwin g).tstamp, (sl.state p).stats.stackId)

/-- The slicer as a timeline of stack ids. -/
def timeline (sl : Slicer) : Timeline ℕ ℕ :=
  ⟨fun g => (sl.groupedSlices g).map sliceSpan, sl.openSpan⟩

def groups (sl : Slicer) : Finset ℕ := Finset.range sl.numGroups

/-- What links the active states, the last switch ins and the slices. -/
structure Inv (now : ℕ) (sl : Slicer) : Prop where
  now_lt : now < kInvalidTimeStamp
  group_lt : ∀ g p, sl.activeStates g = some p → g < sl.numGroups
  active_lt : ∀ g p, sl.activeStates g = some p → p < sl.states.length
  swin_iff : ∀ p < sl.states.length, ∀ g,
    ((sl.state p).lastSwin g).tstamp ≠ kInvalidTimeStamp ↔ sl.activeStates g = some p
  swin_le : ∀ g p, sl.activeStates g = some p → ((sl.state p).lastSwin g).tstamp ≤ now
  id_lt : ∀ p < sl.states.length, (sl.state p).stats.stackId < sl.nextStackId
  id_inj : ∀ p < sl.states.length, ∀ q < sl.states.length,
    (sl.state p).stats.stackId = (sl.state q).stats.stackId → p = q
  owner_lt : ∀ g, ∀ s ∈ sl.groupedSlices g, s.stackId < sl.nextStackId
  cum : ∀ p < sl.states.length, (sl.state p).stats.cumActiveTime =
    sl.timeline.time sl.groups (sl.state p).stats.stackId % 2 ^ 64
  tags_length : ∀ p < sl.states.length, (sl.state p).stats.stack.tags.length = kMaxNumLevels
  dormant_lt : ∀ t, ∀ p ∈ sl.dormantStates t, p < sl.states.length

theorem SameTimes.timeline {sl sl' : Slicer} (h : SameTimes sl sl') :
    sl'.timeline = sl.timeline := by
  have hopen : sl'.openSpan = sl.openSpan := by
    funext g
    rw [openSpan, openSpan, h.activeStates]
    simp only [h.stats, h.lastSwin]
  rw [Slicer.timeline, Slicer.timeline, hopen, h.groupedSlices]

theorem Inv.congr {now : ℕ} {sl sl' : Slicer} (h : Inv now sl) (hs : SameTimes sl sl') :
    Inv now sl' where
  now_lt := h.now_lt
  group_lt := by simpa only [hs.activeStates, hs.numGroups] using h.group_lt
  active_lt := by simpa only [hs.activeStates, hs.length] using h.active_lt
  swin_iff := by simpa only [hs.activeStates, hs.length, hs.lastSwin] using h.swin_iff
  swin_le := by simpa only [hs.activeStates, hs.lastSwin] using h.swin_le
  id_lt := by simpa only [hs.length, hs.stats, hs.nextStackId] using h.id_lt
  id_inj := by simpa only [hs.length, hs.stats] using h.id_inj
  owner_lt := by simpa only [hs.groupedSlices, hs.nextStackId] using h.owner_lt
  cum := by simpa only [hs.length, hs.stats, groups, hs.numGroups, hs.timeline] using h.cum
  tags_length := by simpa only [hs.length, hs.stats] using h.tags_length
  dormant_lt t p hp := by
    rw [hs.length]
    exact (hs.dormant t p hp).elim (h.dormant_lt t p) id

theorem Inv.mono {now now' : ℕ} {sl : Slicer} (h : Inv now sl) (hle : now ≤ now')
    (hlt : now' < kInvalidTimeStamp) : Inv now' sl :=
  { h with now_lt := hlt, swin_le := fun g p hp => (h.swin_le g p hp).trans hle }

theorem Grown.timeline {now : ℕ} {sl sl' : Slicer} (h : Grown sl sl') (hinv : Inv now sl) :
    sl'.timeline = sl.timeline := by
  have hopen : sl'.openSpan = sl.openSpan := by
    funext g
    rw [openSpan, openSpan, h.activeStates]
    cases hp : sl.activeStates g with
    | none => rfl
    | some p => rw [Option.map_some, Option.map_some, h.old p (hinv.active_lt g p hp)]
  rw [Slicer.timeline, Slicer.timeline, hopen, h.groupedSlices]

theorem Inv.grown {now : ℕ} {sl sl' : Slicer} (h : Inv now sl) (hg : Grown sl sl') :
    Inv now sl' where
  now_lt := h.now_lt
  group_lt := by simpa only [hg.activeStates, hg.numGroups] using h.group_lt
  active_lt g p hp := by
    rw [hg.activeStates] at hp
    exact (h.active_lt g p hp).trans_le hg.length
  swin_iff p hp g := by
    rw [hg.activeStates]
    by_cases hlt : p < sl.states.length
    · rw [hg.old p hlt]
      exact h.swin_iff p hlt g
    · obtain ⟨i, parent, s, heq, -⟩ := hg.fresh p hp (Nat.le_of_not_lt hlt)
      rw [heq]
      refine iff_of_false (fun hne => hne rfl) fun hactive => ?_
      exact hlt (h.active_lt g p hactive)
  swin_le g p hp := by
    rw [hg.activeStates] at hp
    rw [hg.old p (h.active_lt g p hp)]
    exact h.swin_le g p hp
  id_lt p hp := by
    by_cases hlt : p < sl.states.length
    · rw [hg.old p hlt]
      exact (h.id_lt p hlt).trans_le hg.nextStackId
    · obtain ⟨i, parent, s, heq, -, hi, -⟩ := hg.fresh p hp (Nat.le_of_not_lt hlt)
      rw [heq]
      exact hi
  id_inj p hp q hq heq := by
    -- an old state has an id that was given out, and a new one does not
    have hsplit : ∀ {p}, p < sl'.states.length →
        ((sl'.state p).stats.stackId < sl.nextStackId ↔ p < sl.states.length) := by
      intro p hp
      by_cases hlt : p < sl.states.length
      · rw [hg.old p hlt]
        exact iff_of_true (h.id_lt p hlt) hlt
      · obtain ⟨i, parent, s, hi, hle, -⟩ := hg.fresh p hp (Nat.le_of_not_lt hlt)
        rw [hi]
        exact iff_of_false (Nat.not_lt.mpr hle) hlt
    by_cases hlt : p < sl.states.length
    · have hlt' : q < sl.states.length := (hsplit hq).mp (heq ▸ (hsplit hp).mpr hlt)
      rw [hg.old p hlt, hg.old q hlt'] at heq
      exact h.id_inj p hlt q hlt' heq
    · have hlt' : ¬ q < sl.states.length :=
        fun hq' => hlt ((hsplit hp).mp (heq ▸ (hsplit hq).mpr hq'))
      exact hg.inj p hp q hq (Nat.le_of_not_lt hlt) (Nat.le_of_not_lt hlt') heq
  owner_lt g s hs := by
    rw [hg.groupedSlices] at hs
    exact (h.owner_lt g s hs).trans_le hg.nextStackId
  cum p hp := by
    rw [hg.timeline h, groups, hg.numGroups]
    by_cases hlt : p < sl.states.length
    · rw [hg.old p hlt]
      exact h.cum p hlt
    · obtain ⟨i, parent, s, heq, hi, -⟩ := hg.fresh p hp (Nat.le_of_not_lt hlt)
      have hzero : sl.timeline.time (Finset.range sl.numGroups) i = 0 := by
        refine Timeline.time_eq_zero fun g span hspan howner => ?_
        obtain ⟨slice, hslice, rfl⟩ := List.mem_map.mp hspan
        have hlt' : i < sl.nextStackId := howner ▸ h.owner_lt g slice hslice
        exact absurd hi (Nat.not_le.mpr hlt')
      rw [heq]
      change 0 = sl.timeline.time _ i % 2 ^ 64
      rw [hzero, Nat.zero_mod]
  tags_length p hp := by
    by_cases hlt : p < sl.states.length
    · rw [hg.old p hlt]
      exact h.tags_length p hlt
    · obtain ⟨i, parent, s, heq, -, -, htags⟩ := hg.fresh p hp (Nat.le_of_not_lt hlt)
      rw [heq]
      exact htags
  dormant_lt t p hp := by
    rw [hg.dormantStates] at hp
    exact (h.dormant_lt t p hp).trans_le hg.length

/-! ## Activation and completion -/

theorem state_congr {sl sl' : Slicer} (h : sl'.states = sl.states) (p : ℕ) :
    sl'.state p = sl.state p := by
  rw [state, state, h]

/-- The state of a stack after it was switched in on a group. -/
def switchedIn (ss : TagStackState) (g now : ℕ) (ty : TransitionType) : TagStackState :=
  { ss with
    lastSwin := Function.update ss.lastSwin g ⟨now, ty⟩
    stats := { ss.stats with numSwins := ss.stats.numSwins + 1 } }

/-- The slicer after a state was activated on a group. -/
def activated (sl : Slicer) (g p now : ℕ) (ty : TransitionType) : Slicer :=
  { sl.setState p (switchedIn (sl.state p) g now ty) with
    activeStates := Function.update sl.activeStates g (some p) }

variable {now : ℕ} {sl : Slicer} {g p : ℕ} {ty : TransitionType}

theorem activateStackState_eq (h : Inv now sl) (hg : sl.activeStates g = none)
    (hp : p < sl.states.length) (ts : ℕ) :
    sl.activateStackState g p ts ty = .ok (sl.activated g p ts ty) := by
  have hswin : ((sl.state p).lastSwin g).tstamp = kInvalidTimeStamp := by
    by_contra hne
    rw [(h.swin_iff p hp g).mp hne] at hg
    exact absurd hg (by simp)
  unfold activateStackState TagStackState.markSwitchIn
  rw [hg, if_neg (fun hne => hne hswin)]
  rfl

theorem state_activated (hp : p < sl.states.length) (q : ℕ) :
    (sl.activated g p now ty).state q =
      if q = p then switchedIn (sl.state p) g now ty else sl.state q := by
  change (sl.setState p _).state q = _
  by_cases hq : q = p
  · subst hq
    rw [state_setState_self sl _ hp, if_pos rfl]
  · rw [state_setState_of_ne sl _ hq, if_neg hq]

theorem stats_activated (hp : p < sl.states.length) (q : ℕ) :
    ((sl.activated g p now ty).state q).stats.stackId = (sl.state q).stats.stackId ∧
      ((sl.activated g p now ty).state q).stats.cumActiveTime =
        (sl.state q).stats.cumActiveTime ∧
      ((sl.activated g p now ty).state q).stats.stack = (sl.state q).stats.stack := by
  rw [state_activated hp]
  split
  · rename_i hq
    rw [hq]
    exact ⟨rfl, rfl, rfl⟩
  · exact ⟨rfl, rfl, rfl⟩

theorem lastSwin_activated (hp : p < sl.states.length) (q k : ℕ) :
    ((sl.activated g p now ty).state q).lastSwin k =
      if q = p ∧ k = g then ⟨now, ty⟩ else (sl.state q).lastSwin k := by
  rw [state_activated hp]
  by_cases hq : q = p
  · subst hq
    rw [if_pos rfl]
    by_cases hk : k = g
    · rw [if_pos ⟨rfl, hk⟩, hk]
      exact Function.update_self _ _ _
    · rw [if_neg (fun h => hk h.2)]
      exact Function.update_of_ne hk _ _
  · rw [if_neg hq, if_neg (fun h => hq h.1)]

theorem timeline_activated (hp : p < sl.states.length) :
    (sl.activated g p now ty).timeline =
      sl.timeline.begin g now (sl.state p).stats.stackId := by
  have hopen : (sl.activated g p now ty).openSpan =
      Function.update sl.openSpan g (some (now, (sl.state p).stats.stackId)) := by
    funext k
    by_cases hk : k = g
    · subst hk
      have hactive : (sl.activated k p now ty).activeStates k = some p :=
        Function.update_self _ _ _
      rw [Function.update_self, openSpan, hactive, Option.map_some, lastSwin_activated hp,
        if_pos ⟨rfl, rfl⟩, (stats_activated hp p).1]
    · have hactive : (sl.activated g p now ty).activeStates k = sl.activeStates k :=
        Function.update_of_ne hk _ _
      rw [Function.update_of_ne hk, openSpan, openSpan, hactive]
      cases hq : sl.activeStates k with
      | none => rfl
      | some q =>
        rw [Option.map_some, Option.map_some, lastSwin_activated hp, if_neg (fun h => hk h.2),
          (stats_activated hp q).1]
  rw [timeline, hopen]
  rfl

theorem Inv.activated (h : Inv now sl) (hg : sl.activeStates g = none)
    (hp : p < sl.states.length) (hlt : g < sl.numGroups) : Inv now (sl.activated g p now ty) := by
  have hlen : (sl.activated g p now ty).states.length = sl.states.length :=
    length_setState _ _ _
  have hself : (sl.activated g p now ty).activeStates g = some p := Function.update_self _ _ _
  have hother : ∀ {k}, k ≠ g → (sl.activated g p now ty).activeStates k = sl.activeStates k :=
    fun hk => Function.update_of_ne hk _ _
  refine ⟨h.now_lt, fun k q hq => ?_, fun k q hq => ?_, fun q hq k => ?_, fun k q hq => ?_,
    fun q hq => ?_, fun q hq q' hq' heq => ?_, h.owner_lt, fun q hq => ?_,
    fun q hq => ?_, fun t q hq => hlen ▸ h.dormant_lt t q hq⟩
  · by_cases hk : k = g
    · rw [hk]
      exact hlt
    · rw [hother hk] at hq
      exact h.group_lt k q hq
  · rw [hlen]
    by_cases hk : k = g
    · rw [hk, hself] at hq
      rw [← Option.some.inj hq]
      exact hp
    · rw [hother hk] at hq
      exact h.active_lt k q hq
  · rw [hlen] at hq
    rw [lastSwin_activated hp]
    by_cases hk : k = g
    · rw [hk, hself]
      by_cases hqp : q = p
      · rw [if_pos ⟨hqp, rfl⟩, hqp]
        exact iff_of_true (Nat.ne_of_lt h.now_lt) rfl
      · rw [if_neg (fun hc => hqp hc.1), h.swin_iff q hq g, hg]
        exact iff_of_false (by simp) (fun heq => hqp (Option.some.inj heq).symm)
    · rw [if_neg (fun hc => hk hc.2), hother hk]
      exact h.swin_iff q hq k
  · rw [lastSwin_activated hp]
    by_cases hk : k = g
    · rw [hk, hself] at hq
      rw [if_pos ⟨(Option.some.inj hq).symm, hk⟩]
    · rw [hother hk] at hq
      rw [if_neg (fun hc => hk hc.2)]
      exact h.swin_le k q hq
  · rw [hlen] at hq
    rw [(stats_activated hp q).1]
    exact h.id_lt q hq
  · rw [hlen] at hq hq'
    rw [(stats_activated hp q).1, (stats_activated hp q').1] at heq
    exact h.id_inj q hq q' hq' heq
  · rw [hlen] at hq
    rw [(stats_activated hp q).1, (stats_activated hp q).2.1, timeline_activated hp]
    exact h.cum q hq
  · rw [hlen] at hq
    rw [(stats_activated hp q).2.2]
    exact h.tags_length q hq

/-- The state of a stack after it was switched out of a group. -/
def switchedOut (ss : TagStackState) (g now : ℕ) : TagStackState :=
  { ss with
    lastSwin := Function.update ss.lastSwin g SwitchIn.none
    stats := { ss.stats with
      cumActiveTime := (ss.stats.cumActiveTime + (now - (ss.lastSwin g).tstamp)) % 2 ^ 64
      numSwouts := ss.stats.numSwouts + 1 } }

/-- The slices of a group after its active state `ss` was switched out. -/
def slicesOut (slices : List Slice) (ss : TagStackState) (g now : ℕ) (ty : TransitionType) :
    List Slice :=
  if 0 < now - (ss.lastSwin g).tstamp then
    slices ++ [⟨(ss.lastSwin g).tstamp, now - (ss.lastSwin g).tstamp, ss.stats.stackId,
      (ss.lastSwin g).type, ty⟩]
  else slices

/-- The slicer after the active state `p` of a group was switched out and the
group was left with none. -/
def deactivated (sl : Slicer) (g p now : ℕ) (ty : TransitionType) : Slicer :=
  { sl.setState p (switchedOut (sl.state p) g now) with
    groupedSlices := Function.update sl.groupedSlices g
      (slicesOut (sl.groupedSlices g) (sl.state p) g now ty)
    stats := { sl.stats with numSlicesCompleted := sl.stats.numSlicesCompleted + 1 }
    activeStates := Function.update sl.activeStates g none }

/-- Completing the slice of an active state and leaving the group without one. -/
theorem completeSlice_eq (ty : TransitionType) (h : Inv now sl) (hg : sl.activeStates g = some p) :
    ∃ sl', sl.completeSlice g now ty = .ok sl' ∧
      { sl' with activeStates := Function.update sl'.activeStates g none } =
        sl.deactivated g p now ty := by
  have hp : p < sl.states.length := h.active_lt g p hg
  have hne : ¬ now = kInvalidTimeStamp := Nat.ne_of_lt h.now_lt
  have hstates : ¬ sl.states = [] := List.ne_nil_of_length_pos (Nat.zero_lt_of_lt hp)
  have hswin : ¬ ((sl.state p).lastSwin g).tstamp = kInvalidTimeStamp :=
    (h.swin_iff p hp g).mpr hg
  have hle : ¬ now < ((sl.state p).lastSwin g).tstamp := Nat.not_lt.mpr (h.swin_le g p hg)
  refine ⟨{ sl.deactivated g p now ty with activeStates := sl.activeStates }, ?_, rfl⟩
  unfold completeSlice
  rw [if_neg hne, if_neg hstates, hg]
  simp only
  rw [if_neg hswin, if_neg hle, TagStackState.markSwitchOut, if_neg hle]
  rfl

theorem state_deactivated (hp : p < sl.states.length) (q : ℕ) :
    (sl.deactivated g p now ty).state q =
      if q = p then switchedOut (sl.state p) g now else sl.state q := by
  change (sl.setState p _).state q = _
  by_cases hq : q = p
  · subst hq
    rw [state_setState_self sl _ hp, if_pos rfl]
  · rw [state_setState_of_ne sl _ hq, if_neg hq]

theorem stats_deactivated (hp : p < sl.states.length) (q : ℕ) :
    ((sl.deactivated g p now ty).state q).stats.stackId = (sl.state q).stats.stackId ∧
      ((sl.deactivated g p now ty).state q).stats.stack = (sl.state q).stats.stack := by
  rw [state_deactivated hp]
  split
  · rename_i hq
    rw [hq]
    exact ⟨rfl, rfl⟩
  · exact ⟨rfl, rfl⟩

theorem lastSwin_deactivated (hp : p < sl.states.length) (q k : ℕ) :
    ((sl.deactivated g p now ty).state q).lastSwin k =
      if q = p ∧ k = g then SwitchIn.none else (sl.state q).lastSwin k := by
  rw [state_deactivated hp]
  by_cases hq : q = p
  · subst hq
    rw [if_pos rfl]
    by_cases hk : k = g
    · rw [if_pos ⟨rfl, hk⟩, hk]
      exact Function.update_self _ _ _
    · rw [if_neg (fun h => hk h.2)]
      exact Function.update_of_ne hk _ _
  · rw [if_neg hq, if_neg (fun h => hq h.1)]

theorem map_slicesOut (h : Inv now sl) (hg : sl.activeStates g = some p) :
    (slicesOut (sl.groupedSlices g) (sl.state p) g now ty).map sliceSpan =
      Timeline.finish ((sl.groupedSlices g).map sliceSpan) now (sl.openSpan g) := by
  have hle : ((sl.state p).lastSwin g).tstamp ≤ now := h.swin_le g p hg
  have hopen : sl.openSpan g =
      some (((sl.state p).lastSwin g).tstamp, (sl.state p).stats.stackId) := by
    rw [openSpan, hg, Option.map_some]
  rw [hopen]
  by_cases hlt : ((sl.state p).lastSwin g).tstamp < now
  · rw [Timeline.finish_of_lt _ _ hlt, slicesOut, if_pos (Nat.sub_pos_of_lt hlt)]
    have hend : ((sl.state p).lastSwin g).tstamp + (now - ((sl.state p).lastSwin g).tstamp) = now :=
      Nat.add_sub_of_le hle
    simp [sliceSpan, Slice.tstampEnd, hend]
  · rw [Timeline.finish_of_not_lt _ _ hlt, slicesOut,
      if_neg (fun hpos => hlt (Nat.lt_of_sub_pos hpos))]

theorem timeline_deactivated (h : Inv now sl) (hg : sl.activeStates g = some p) :
    (sl.deactivated g p now ty).timeline = sl.timeline.close g now := by
  have hp : p < sl.states.length := h.active_lt g p hg
  have hclosed : (sl.deactivated g p now ty).timeline.closed =
      Function.update sl.timeline.closed g
        (Timeline.finish (sl.timeline.closed g) now (sl.openSpan g)) := by
    funext k
    by_cases hk : k = g
    · subst hk
      rw [Function.update_self]
      have hself : (sl.deactivated k p now ty).groupedSlices k =
          slicesOut (sl.groupedSlices k) (sl.state p) k now ty := Function.update_self _ _ _
      change ((sl.deactivated k p now ty).groupedSlices k).map sliceSpan = _
      rw [hself]
      exact map_slicesOut h hg
    · rw [Function.update_of_ne hk]
      have hother : (sl.deactivated g p now ty).groupedSlices k = sl.groupedSlices k :=
        Function.update_of_ne hk _ _
      change ((sl.deactivated g p now ty).groupedSlices k).map sliceSpan = _
      rw [hother]
      rfl
  have hopened : (sl.deactivated g p now ty).timeline.opened =
      Function.update sl.openSpan g none := by
    funext k
    change (sl.deactivated g p now ty).openSpan k = _
    by_cases hk : k = g
    · subst hk
      have hself : (sl.deactivated k p now ty).activeStates k = none :=
        Function.update_self _ _ _
      rw [Function.update_self, openSpan, hself, Option.map_none]
    · have hother : (sl.deactivated g p now ty).activeStates k = sl.activeStates k :=
        Function.update_of_ne hk _ _
      rw [Function.update_of_ne hk, openSpan, openSpan, hother]
      cases hq : sl.activeStates k with
      | none => rfl
      | some q =>
        rw [Option.map_some, Option.map_some, lastSwin_deactivated hp, if_neg (fun h => hk h.2),
          (stats_deactivated hp q).1]
  have heta : (sl.deactivated g p now ty).timeline =
      ⟨(sl.deactivated g p now ty).timeline.closed,
        (sl.deactivated g p now ty).timeline.opened⟩ := rfl
  rw [heta, hclosed, hopened]
  rfl

theorem cum_deactivated (h : Inv now sl) (hg : sl.activeStates g = some p) {q : ℕ}
    (hq : q < sl.states.length) :
    ((sl.deactivated g p now ty).state q).stats.cumActiveTime =
      (sl.timeline.close g now).time sl.groups (sl.state q).stats.stackId % 2 ^ 64 := by
  have hp : p < sl.states.length := h.active_lt g p hg
  have hmem : g ∈ sl.groups := Finset.mem_range.mpr (h.group_lt g p hg)
  have hopen : sl.timeline.opened g =
      some (((sl.state p).lastSwin g).tstamp, (sl.state p).stats.stackId) := by
    change sl.openSpan g = _
    rw [openSpan, hg, Option.map_some]
  rw [Timeline.time_close sl.timeline hmem, hopen, Timeline.openTime, state_deactivated hp,
    Nat.add_mod, ← h.cum q hq]
  by_cases hqp : q = p
  · subst hqp
    rw [if_pos rfl, if_pos rfl]
    change ((sl.state q).stats.cumActiveTime + _) % 2 ^ 64 = _
    rw [h.cum q hq, ← Nat.add_mod, Nat.mod_add_mod]
  · have hid : ¬ (sl.state p).stats.stackId = (sl.state q).stats.stackId :=
      fun heq => hqp (h.id_inj p hp q hq heq).symm
    rw [if_neg hqp, if_neg hid, Nat.zero_mod, Nat.add_zero, h.cum q hq, Nat.mod_mod]

theorem Inv.deactivated (h : Inv now sl) (hg : sl.activeStates g = some p) :
    Inv now (sl.deactivated g p now ty) := by
  have hp : p < sl.states.length := h.active_lt g p hg
  have hlen : (sl.deactivated g p now ty).states.length = sl.states.length :=
    length_setState _ _ _
  have hself : (sl.deactivated g p now ty).activeStates g = none := Function.update_self _ _ _
  have hother : ∀ {k}, k ≠ g → (sl.deactivated g p now ty).activeStates k = sl.activeStates k :=
    fun hk => Function.update_of_ne hk _ _
  have hactive : ∀ {k q}, (sl.deactivated g p now ty).activeStates k = some q →
      k ≠ g ∧ sl.activeStates k = some q := by
    intro k q hq
    by_cases hk : k = g
    · rw [hk, hself] at hq
      exact absurd hq (by simp)
    · rw [hother hk] at hq
      exact ⟨hk, hq⟩
  refine ⟨h.now_lt, fun k q hq => h.group_lt k q (hactive hq).2, fun k q hq => ?_,
    fun q hq k => ?_, fun k q hq => ?_, fun q hq => ?_, fun q hq q' hq' heq => ?_,
    fun k s hs => ?_, fun q hq => ?_, fun q hq => ?_, fun t q hq => hlen ▸ h.dormant_lt t q hq⟩
  · rw [hlen]
    exact h.active_lt k q (hactive hq).2
  · rw [hlen] at hq
    rw [lastSwin_deactivated hp]
    by_cases hk : k = g
    · rw [hk, hself]
      by_cases hqp : q = p
      · rw [if_pos ⟨hqp, rfl⟩]
        exact iff_of_false (fun hne => hne rfl) (by simp)
      · rw [if_neg (fun hc => hqp hc.1), h.swin_iff q hq g, hg]
        exact iff_of_false (fun heq => hqp (Option.some.inj heq).symm) (by simp)
    · rw [if_neg (fun hc => hk hc.2), hother hk]
      exact h.swin_iff q hq k
  · rw [lastSwin_deactivated hp, if_neg (fun hc => (hactive hq).1 hc.2)]
    exact h.swin_le k q (hactive hq).2
  · rw [hlen] at hq
    rw [(stats_deactivated hp q).1]
    exact h.id_lt q hq
  · rw [hlen] at hq hq'
    rw [(stats_deactivated hp q).1, (stats_deactivated hp q').1] at heq
    exact h.id_inj q hq q' hq' heq
  · by_cases hk : k = g
    · subst hk
      have hslices : (sl.deactivated k p now ty).groupedSlices k =
          slicesOut (sl.groupedSlices k) (sl.state p) k now ty := Function.update_self _ _ _
      rw [hslices, slicesOut] at hs
      split at hs
      · rcases List.mem_append.mp hs with hs | hs
        · exact h.owner_lt k s hs
        · rw [List.mem_singleton.mp hs]
          exact h.id_lt p hp
      · exact h.owner_lt k s hs
    · have hslices : (sl.deactivated g p now ty).groupedSlices k = sl.groupedSlices k :=
        Function.update_of_ne hk _ _
      rw [hslices] at hs
      exact h.owner_lt k s hs
  · rw [hlen] at hq
    rw [(stats_deactivated hp q).1, timeline_deactivated h hg]
    exact cum_deactivated h hg hq
  · rw [hlen] at hq
    rw [(stats_deactivated hp q).2]
    exact h.tags_length q hq

/-! ## Resets -/

theorem state_resetState (sl : Slicer) {q : ℕ} (hq : q < sl.states.length) :
    sl.resetState.state q = { (sl.state q).restart with hook := none } := by
  simp [resetState, state, List.getD_eq_getElem?_getD, hq]

theorem Inv.resetState (h : Inv now sl) : Inv now sl.resetState := by
  have hlen : sl.resetState.states.length = sl.states.length := List.length_map _
  refine ⟨h.now_lt, by simp [Slicer.resetState], by simp [Slicer.resetState], fun q hq k => ?_,
    by simp [Slicer.resetState], fun q hq => ?_, fun q hq q' hq' heq => ?_, h.owner_lt,
    fun q hq => ?_, fun q hq => ?_, by simp [Slicer.resetState]⟩
  all_goals rw [hlen] at hq
  · rw [state_resetState sl hq]
    exact iff_of_false (fun hne => hne rfl) (by simp [Slicer.resetState])
  · rw [state_resetState sl hq]
    exact h.id_lt q hq
  · rw [hlen] at hq'
    rw [state_resetState sl hq, state_resetState sl hq'] at heq
    exact h.id_inj q hq q' hq' heq
  · rw [state_resetState sl hq]
    exact h.cum q hq
  · rw [state_resetState sl hq]
    exact h.tags_length q hq

/-! ## What an event does -/

/-- What an event does to the timeline, and that it keeps the invariant.  A step
that drops the open spans is a reset. -/
structure Moved (now : ℕ) (sl sl' : Slicer) : Prop where
  inv : Inv now sl'
  numGroups : sl'.numGroups = sl.numGroups
  step : ∃ cut : Bool, Timeline.Step now cut sl.timeline sl'.timeline ∧
    sl'.numResets = sl.numResets + cut.toNat

theorem Moved.idle {sl' : Slicer} (h : Inv now sl) (hs : SameTimes sl sl') : Moved now sl sl' := by
  refine ⟨h.congr hs, hs.numGroups, false, ?_, hs.numResets⟩
  rw [hs.timeline]
  exact Timeline.Step.idle _

theorem Moved.congr {sl' sl'' : Slicer} (h : Moved now sl sl') (hs : SameTimes sl' sl'') :
    Moved now sl sl'' := by
  obtain ⟨cut, hstep, hresets⟩ := h.step
  refine ⟨h.inv.congr hs, hs.numGroups.trans h.numGroups, cut, ?_, hs.numResets.trans hresets⟩
  rw [hs.timeline]
  exact hstep

/-- What completing the last state of a group does. -/
structure Completed (now g : ℕ) (sl sl' : Slicer) : Prop where
  inv : Inv now sl'
  inactive : sl'.activeStates g = none
  timeline : sl'.timeline = sl.timeline.close g now
  numGroups : sl'.numGroups = sl.numGroups
  numResets : sl'.numResets = sl.numResets

theorem completed_deactivated (ty : TransitionType) (h : Inv now sl) (hg : sl.activeStates g = some p) :
    Completed now g sl (sl.deactivated g p now ty) :=
  ⟨h.deactivated hg, Function.update_self _ _ _, timeline_deactivated h hg, rfl, rfl⟩

/-- The list a state goes to when it stops being active: none, if it is aliased. -/
def pushLast (sl : Slicer) (kHandleTID0 : Bool) (p : ℕ) : Except Fault Slicer :=
  if isAliased kHandleTID0 (sl.state p).stats.stack then .ok sl
  else sl.pushFront ((sl.state p).stats.stack.tagAt 0) p

/-- Once the last state has been linked or not, its slice is completed. -/
theorem handleLastState_of_pushLast {kHandleTID0 : Bool} {ev : Event} {sl' : Slicer}
    (h : Inv ev.tstamp sl) (hg : sl.activeStates ev.compUnitId = some p)
    (hpush : sl.pushLast kHandleTID0 p = .ok sl') (hsame : SameTimes sl sl') :
    sl.handleLastState kHandleTID0 ev =
      .ok (sl'.deactivated ev.compUnitId p ev.tstamp (eventToTransitionType ev)) := by
  obtain ⟨sl'', hcomplete, hdeactivated⟩ := completeSlice_eq (eventToTransitionType ev)
    (h.congr hsame) (by rw [hsame.activeStates, hg])
  unfold pushLast at hpush
  unfold handleLastState
  rw [hg]
  simp only
  rw [hpush]
  simp only
  rw [hcomplete]
  exact congrArg Except.ok hdeactivated

theorem handleLastState_outcome (kHandleTID0 : Bool) {ev : Event} (h : Inv ev.tstamp sl) :
    Outcome (Completed ev.tstamp ev.compUnitId sl) (sl.handleLastState kHandleTID0 ev) := by
  cases hg : sl.activeStates ev.compUnitId with
  | none =>
    have hopen : sl.timeline.opened ev.compUnitId = none := by
      change sl.openSpan ev.compUnitId = none
      rw [openSpan, hg, Option.map_none]
    unfold handleLastState
    rw [hg]
    exact ⟨h, hg, (Timeline.close_of_opened_none _ hopen).symm, rfl, rfl⟩
  | some p =>
    have hpushed : Outcome (SameTimes sl) (sl.pushLast kHandleTID0 p) := by
      unfold pushLast
      split
      · exact SameTimes.refl sl
      · exact pushFront_outcome _ (h.active_lt _ p hg)
    cases hpush : sl.pushLast kHandleTID0 p with
    | error f =>
      rw [hpush] at hpushed
      unfold pushLast at hpush
      unfold handleLastState
      rw [hg]
      simp only
      rw [hpush]
      exact hpushed
    | ok sl' =>
      rw [hpush] at hpushed
      have hsame : SameTimes sl sl' := hpushed
      have hg' : sl'.activeStates ev.compUnitId = some p := by rw [hsame.activeStates, hg]
      have hcompleted := completed_deactivated (eventToTransitionType ev) (h.congr hsame) hg'
      rw [handleLastState_of_pushLast h hg hpush hsame]
      exact ⟨hcompleted.inv, hcompleted.inactive, hsame.timeline ▸ hcompleted.timeline,
        hcompleted.numGroups.trans hsame.numGroups, hcompleted.numResets.trans hsame.numResets⟩

/-- What activating a state on a group without one does. -/
structure Activated (now g : ℕ) (sl sl' : Slicer) : Prop where
  inv : Inv now sl'
  timeline : ∃ i, sl'.timeline = sl.timeline.begin g now i
  numGroups : sl'.numGroups = sl.numGroups
  numResets : sl'.numResets = sl.numResets

/-- What a slicer is when the state `p` to be activated has been found or made:
`p` is on no shelf any more. -/
structure Picked (now : ℕ) (sl sl' : Slicer) (p : ℕ) : Prop where
  inv : Inv now sl'
  lt : p < sl'.states.length
  timeline : sl'.timeline = sl.timeline
  shelves : sl'.shelves = sl.shelves.remove p
  activeStates : sl'.activeStates = sl.activeStates
  stack : ∀ q < sl.states.length, (sl'.state q).stats.stack = (sl.state q).stats.stack
  numGroups : sl'.numGroups = sl.numGroups
  numResets : sl'.numResets = sl.numResets
  numActiveWriteErrors : sl'.numActiveWriteErrors = sl.numActiveWriteErrors

theorem picked_unlink (h : Inv now sl) (hp : p < sl.states.length) :
    Picked now sl (sl.unlink p) p := by
  have hsame := sameTimes_unlink sl hp
  refine ⟨h.congr hsame, by rw [hsame.length]; exact hp, hsame.timeline, shelves_unlink sl hp,
    hsame.activeStates, fun q _ => by rw [hsame.stats], hsame.numGroups, hsame.numResets, ?_⟩
  unfold unlink
  split <;> rfl

theorem picked_created {r : Slicer × ℕ} {s : Stack} (h : Inv now sl)
    (hfind : sl.findState s = none) (hc : Created sl s r) : Picked now sl r.1 r.2 := by
  have hg := hc.grown
  have hnew : ¬ r.2 < sl.states.length := by
    intro hlt
    rw [hc.found hlt] at hfind
    exact absurd hfind (by simp)
  have hhook : sl.shelves.hook r.2 = none := by
    change (sl.state r.2).hook = none
    rw [state_of_le (Nat.le_of_not_lt hnew)]
    rfl
  exact ⟨h.grown hg, hc.lt, hg.timeline h, by rw [Shelves.remove_of_hook_none hhook, hg.shelves],
    hg.activeStates, fun q hq => by rw [hg.old q hq], hg.numGroups, hg.numResets,
    hg.numActiveWriteErrors⟩

theorem Picked.activated {sl' : Slicer} (h : Picked now sl sl' p) (ty : TransitionType)
    (hg : sl.activeStates g = none)
    (hlt : g < sl.numGroups) : Activated now g sl (sl'.activated g p now ty) := by
  have hg' : sl'.activeStates g = none := by rw [h.activeStates, hg]
  exact ⟨h.inv.activated hg' h.lt (by rw [h.numGroups]; exact hlt),
    ⟨_, by rw [timeline_activated h.lt, h.timeline]⟩, h.numGroups, h.numResets⟩

/-- Whether the state of one stack may be activated for another: they have the
same tag at the bottom, if any. -/
def SameBottom (s t : Stack) : Prop :=
  t.numSetTags ≠ 0 → s.numSetTags ≠ 0 ∧ t.tagAt 0 = s.tagAt 0

theorem tagAt_zero_of_take {s t : Tags} {n : ℕ} (hn : n ≠ 0) (h : s.take n = t.take n) :
    s.getD 0 kNA = t.getD 0 kNA := by
  have hget := congrArg (fun l => l[0]?) h
  simp only [List.getElem?_take_of_lt (Nat.pos_of_ne_zero hn)] at hget
  rw [List.getD_eq_getElem?_getD, List.getD_eq_getElem?_getD, hget]

theorem sameBottom_of_eqv {s t : Stack} (h : t.eqv s = true) : SameBottom s t := by
  intro hset
  obtain ⟨-, hnum, htake⟩ := Stack.eqv_iff.mp h
  exact ⟨hnum ▸ hset, tagAt_zero_of_take hset htake⟩

theorem sameBottom_of_contains {s t : Stack} {n : ℕ} (hn : n ≠ 0) (hs : s.numSetTags ≠ 0)
    (h : t.contains s n = true) : SameBottom s t := by
  intro _
  unfold Stack.contains at h
  split at h
  · exact absurd h (by simp)
  · split at h
    · exact absurd h (by simp)
    · exact ⟨hs, (tagAt_zero_of_take hn (by simpa using h)).symm⟩

/-- What activating a state for the stack `s` comes to: some state with the same
bottom tag is picked and switched in. -/
def Activates (now g : ℕ) (ty : TransitionType) (sl : Slicer) (s : Stack)
    (r : Except Fault Slicer) : Prop :=
  ∃ sl' p, Picked now sl sl' p ∧ SameBottom s (sl'.state p).stats.stack ∧
    r = .ok (sl'.activated g p now ty)

variable {junk : ℕ → Tags}

theorem activateStackStateExactMatch_activates (h : Inv now sl) (hg : sl.activeStates g = none)
    (hjunk : ∀ n, (junk n).length = kMaxNumLevels) {s : Stack}
    (hs : s.tags.length = kMaxNumLevels) :
    Activates now g ty sl s (sl.activateStackStateExactMatch junk g s now ty) := by
  unfold activateStackStateExactMatch
  cases hfind : sl.findState s with
  | none =>
    have hcreated := createStackState_created hjunk sl s.numSetTags s hs
    have hpicked := picked_created h hfind hcreated
    refine ⟨_, _, hpicked, sameBottom_of_eqv hcreated.eqv, ?_⟩
    exact activateStackState_eq hpicked.inv (by rw [hpicked.activeStates]; exact hg) hpicked.lt now
  | some p =>
    obtain ⟨hp, heqv⟩ := findState_eq_some hfind
    have hpicked := picked_unlink h hp
    refine ⟨_, p, hpicked, ?_, ?_⟩
    · rw [hpicked.stack p hp]
      exact sameBottom_of_eqv heqv
    · exact activateStackState_eq hpicked.inv (by rw [hpicked.activeStates]; exact hg) hpicked.lt
        now

theorem activateStackStateThatContains_activates (h : Inv now sl) {kHandleTID0 : Bool}
    (hg : sl.activeStates g = none) (hjunk : ∀ n, (junk n).length = kMaxNumLevels) {s : Stack}
    (hs : s.tags.length = kMaxNumLevels) (haliased : isAliased kHandleTID0 s = false)
    (hset : s.numSetTags ≠ 0) {numLevels : ℕ} (hlevels : numLevels ≠ 0) :
    Activates now g ty sl s
      (sl.activateStackStateThatContains kHandleTID0 junk g s numLevels now ty) := by
  unfold activateStackStateThatContains
  rw [if_neg (by rw [haliased]; simp), if_neg hset]
  split
  · rename_i p hfind
    have hp : p < sl.states.length := h.dormant_lt _ p (List.mem_of_find?_eq_some hfind)
    have hpicked := picked_unlink h hp
    refine ⟨_, p, hpicked, ?_, ?_⟩
    · rw [hpicked.stack p hp]
      have hcontains := List.find?_some hfind
      exact sameBottom_of_contains hlevels hset hcontains
    · exact activateStackState_eq hpicked.inv (by rw [hpicked.activeStates]; exact hg) hpicked.lt
        now
  · exact activateStackStateExactMatch_activates h hg hjunk (s := ⟨s.tags, s.numSetTags, false⟩) hs

theorem lastStack_length (h : Inv now sl) (ev : Event) :
    (sl.lastStack ev).tags.length = kMaxNumLevels := by
  unfold lastStack
  split
  · rename_i p hp
    exact h.tags_length p (h.active_lt _ p hp)
  · rfl

theorem copyFillUpTo_length {s : Stack} {idx tag : ℕ} {known : Bool} {junk : Tags}
    (hs : s.tags.length = kMaxNumLevels) (hjunk : junk.length = kMaxNumLevels)
    (hidx : idx < kMaxNumLevels) :
    (s.copyFillUpTo idx tag known junk).tags.length = kMaxNumLevels := by
  simp only [Stack.copyFillUpTo, List.length_append, List.length_take, List.length_cons,
    List.length_drop, hs, hjunk]
  omega

/-- The stack an event asks for: what is left of the last one, or the last one
with the event's tag on top. -/
def nextStack (lastStack : Stack) (ev : Event) (junk : ℕ → Tags) : Stack :=
  if ev.isOut then lastStack.copyTruncated ev.level true (junk ev.level)
  else lastStack.copyFillUpTo ev.level ev.tag (lastStack.knownNumLevels || ev.isPhase)
    (junk (ev.level + 1))

theorem activateNext_activates (kHandleTID0 : Bool) {a : Arrival} {lastStack : Stack}
    (h : Inv a.ev.tstamp sl) (hg : sl.activeStates a.ev.compUnitId = none)
    (ha : a.InRange sl.numGroups) (hlast : lastStack.tags.length = kMaxNumLevels) :
    Activates a.ev.tstamp a.ev.compUnitId (eventToTransitionType a.ev) sl
      (nextStack lastStack a.ev a.junk) (sl.activateNext kHandleTID0 a.ev a.junk lastStack) := by
  have hlevel : a.ev.level < kMaxNumLevels := Nat.lt_of_succ_lt ha.level_lt
  have hfill : (lastStack.copyFillUpTo a.ev.level a.ev.tag
      (lastStack.knownNumLevels || a.ev.isPhase) (a.junk (a.ev.level + 1))).tags.length =
        kMaxNumLevels := copyFillUpTo_length hlast (a.junk_length _) hlevel
  unfold activateNext nextStack
  split
  · exact activateStackStateExactMatch_activates h hg a.junk_length
      (copyTruncated_length hlast (a.junk_length _))
  · simp only
    split
    · exact activateStackStateExactMatch_activates h hg a.junk_length hfill
    · rename_i hcond
      have haliased := (Bool.or_eq_false_iff.mp (Bool.eq_false_iff.mpr hcond)).1
      exact activateStackStateThatContains_activates h hg a.junk_length hfill haliased
        (Nat.succ_ne_zero _) (Nat.succ_ne_zero _)

theorem handleTransition_outcome {kHandleTID0 : Bool} {a : Arrival} (h : Inv a.ev.tstamp sl)
    (ha : a.InRange sl.numGroups) :
    Outcome (fun sl' => Moved a.ev.tstamp sl sl' ∧ sl'.lastTs = a.ev.tstamp)
      (sl.handleTransition kHandleTID0 a.ev a.junk) := by
  have hcompleted := handleLastState_outcome kHandleTID0 h
  unfold handleTransition
  cases hlast : sl.handleLastState kHandleTID0 a.ev with
  | error f =>
    rw [hlast] at hcompleted
    exact hcompleted
  | ok sl' =>
    rw [hlast] at hcompleted
    have hc : Completed a.ev.tstamp a.ev.compUnitId sl sl' := hcompleted
    -- both errors drop what is open after the slice of the group was completed
    have hdropped : Moved a.ev.tstamp sl (sl'.handled a.ev).resetState := by
      refine ⟨(hc.inv.congr (sameTimes_handled _ _)).resetState, hc.numGroups, true, ?_, ?_⟩
      · have htimeline : (sl'.handled a.ev).resetState.timeline =
            (sl.timeline.close a.ev.compUnitId a.ev.tstamp).reset := by
          rw [← hc.timeline]
          rfl
        rw [htimeline]
        exact Timeline.Step.drop _ _
      · exact congrArg (· + 1) hc.numResets
    simp only
    split
    · exact ⟨hdropped.congr (SameTimes.of_eq rfl rfl rfl rfl rfl rfl rfl), rfl⟩
    · split
      · exact ⟨hdropped, rfl⟩
      · obtain ⟨sl'', p, hpicked, -, hnext⟩ := activateNext_activates kHandleTID0
          hc.inv hc.inactive (by rw [hc.numGroups]; exact ha) (lastStack_length h a.ev)
        have hact := hpicked.activated (eventToTransitionType a.ev) hc.inactive
          (by rw [hc.numGroups]; exact ha.compUnitId_lt)
        rw [hnext]
        obtain ⟨i, hi⟩ := hact.timeline
        refine ⟨⟨hact.inv.congr (sameTimes_handled _ _), hact.numGroups.trans hc.numGroups, false,
          ?_, hact.numResets.trans hc.numResets⟩, rfl⟩
        rw [hc.timeline] at hi
        rw [(sameTimes_handled _ _).timeline, hi]
        exact Timeline.Step.switch _ _ _

theorem handleWriteErrors_moved {ev : Event} {sl' : Slicer} (h : Inv ev.tstamp sl)
    (heq : sl.handleWriteErrors ev = some sl') :
    Moved ev.tstamp sl sl' ∧ sl'.lastTs = ev.tstamp := by
  unfold handleWriteErrors at heq
  split at heq
  · rw [← Option.some.inj heq]
    exact ⟨Moved.idle h (SameTimes.of_eq rfl rfl rfl rfl rfl rfl rfl), rfl⟩
  · split at heq
    · rw [← Option.some.inj heq]
      have hreset : Moved ev.tstamp sl (sl.handled ev).resetState :=
        ⟨(h.congr (sameTimes_handled sl ev)).resetState, rfl, true, Timeline.Step.reset _, rfl⟩
      exact ⟨hreset.congr (SameTimes.of_eq rfl rfl rfl rfl rfl rfl rfl), rfl⟩
    · split at heq
      · rw [← Option.some.inj heq]
        exact ⟨Moved.idle h (SameTimes.of_eq rfl rfl rfl rfl rfl rfl rfl), rfl⟩
      · exact absurd heq (by simp)

theorem handleThreadLifetime_outcome {a : Arrival} {r : Except Fault Slicer}
    (h : Inv a.ev.tstamp sl) (heq : sl.handleThreadLifetime a.ev a.junk = some r) :
    Outcome (fun sl' => Moved a.ev.tstamp sl sl' ∧ sl'.lastTs = a.ev.tstamp) r := by
  unfold handleThreadLifetime at heq
  split at heq
  · split at heq
    · rw [← Option.some.inj heq]
      exact ⟨Moved.idle h (SameTimes.of_eq rfl rfl rfl rfl rfl rfl rfl), rfl⟩
    · split at heq
      · have hcreated := createStackState_created a.junk_length sl
          (Stack.ofThread a.ev.tag).numSetTags (Stack.ofThread a.ev.tag) rfl
        have hgrown : Moved a.ev.tstamp sl _ := ⟨h.grown hcreated.grown, hcreated.grown.numGroups,
          false, by rw [hcreated.grown.timeline h]; exact Timeline.Step.idle _,
          hcreated.grown.numResets⟩
        have hpushed := pushFront_outcome ((Stack.ofThread a.ev.tag).tagAt 0) hcreated.lt
        simp only at heq
        split at heq
        · rename_i f hf
          rw [← Option.some.inj heq]
          rw [hf] at hpushed
          exact hpushed
        · rename_i sl' hsl'
          rw [← Option.some.inj heq]
          have hsame := sameTimes_pushFront hcreated.lt hsl'
          exact ⟨(hgrown.congr hsame).congr (sameTimes_handled _ _), rfl⟩
      · rw [← Option.some.inj heq]
        exact ⟨Moved.idle h (sameTimes_handled _ _), rfl⟩
  · exact absurd heq (by simp)

/-- What handling one event does.  The timeline makes one step, unless the event
lies before the last one and everything open is dropped first. -/
structure Processed (ev : Event) (sl sl' : Slicer) : Prop where
  inv : Inv sl'.lastTs sl'
  lastTs : sl'.lastTs = ev.tstamp
  numGroups : sl'.numGroups = sl.numGroups
  step : sl.lastTs ≤ ev.tstamp → Moved ev.tstamp sl sl'

theorem handleOutOfOrder_inv {a : Arrival} (h : Inv sl.lastTs sl)
    (ha : a.ev.tstamp < kInvalidTimeStamp) : Inv a.ev.tstamp (sl.handleOutOfOrder a.ev) := by
  unfold handleOutOfOrder
  split
  · have hreset := h.resetState
    have hreset' : Inv a.ev.tstamp sl.resetState :=
      { hreset with now_lt := ha, swin_le := by simp [resetState] }
    exact hreset'.congr (SameTimes.of_eq rfl rfl rfl rfl rfl rfl rfl)
  · rename_i hle
    exact h.mono (Nat.le_of_not_lt hle) ha

/-- **What one event does.** -/
theorem processEvent_outcome (kHandleTID0 : Bool) {a : Arrival} (h : Inv sl.lastTs sl)
    (ha : a.InRange sl.numGroups) :
    Outcome (Processed a.ev sl) (sl.processEvent kHandleTID0 a) := by
  have hinv := handleOutOfOrder_inv h ha.tstamp_lt
  have hgroups : (sl.handleOutOfOrder a.ev).numGroups = sl.numGroups := by
    unfold handleOutOfOrder
    split <;> rfl
  have hfinal : ∀ sl', Moved a.ev.tstamp (sl.handleOutOfOrder a.ev) sl' ∧
      sl'.lastTs = a.ev.tstamp → Processed a.ev sl sl' := by
    rintro sl' ⟨hmoved, hts⟩
    refine ⟨by rw [hts]; exact hmoved.inv, hts, hmoved.numGroups.trans hgroups, fun hle => ?_⟩
    have hsame : sl.handleOutOfOrder a.ev = sl := if_neg (Nat.not_lt.mpr hle)
    rw [hsame] at hmoved
    exact hmoved
  unfold processEvent
  rw [if_neg (Nat.not_le.mpr ha.compUnitId_lt)]
  simp only
  split
  · rename_i sl' hwrite
    exact hfinal sl' (handleWriteErrors_moved hinv hwrite)
  · split
    · rename_i r hlifetime
      exact (handleThreadLifetime_outcome hinv hlifetime).mono hfinal
    · exact (handleTransition_outcome hinv (by rw [hgroups]; exact ha)).mono hfinal

/-! ## Runs -/

variable {kHandleTID0 : Bool} {n : ℕ}

theorem inv_init (n : ℕ) : Inv (init n).lastTs (init n) := by
  refine ⟨by change (0 : ℕ) < kInvalidTimeStamp; decide, by simp [init], by simp [init], ?_,
    by simp [init], ?_, ?_, by simp [init], ?_, ?_, by simp [init]⟩
  all_goals
    intro p hp
    exact absurd hp (Nat.not_lt_zero p)

/-- The invariant holds throughout a run. -/
theorem processEvents_inv {as : List Arrival} {sl : Slicer} (h : Inv sl.lastTs sl)
    (has : ∀ a ∈ as, a.InRange sl.numGroups) :
    Outcome (fun sl' => Inv sl'.lastTs sl' ∧ sl'.numGroups = sl.numGroups ∧
        sl'.lastTs ∈ sl.lastTs :: as.map (·.ev.tstamp))
      (processEvents kHandleTID0 sl as) := by
  induction as generalizing sl with
  | nil => exact ⟨h, rfl, by simp⟩
  | cons a as ih =>
    have hev := processEvent_outcome kHandleTID0 h (has a (by simp))
    rw [processEvents]
    cases heq : sl.processEvent kHandleTID0 a with
    | error f =>
      rw [heq] at hev
      exact hev
    | ok sl' =>
      rw [heq] at hev
      have hp : Processed a.ev sl sl' := hev
      have has' : ∀ b ∈ as, b.InRange sl'.numGroups := fun b hb => by
        rw [hp.numGroups]
        exact has b (by simp [hb])
      refine (ih hp.inv has').mono fun sl'' h'' => ⟨h''.1, h''.2.1.trans hp.numGroups, ?_⟩
      have hmem := h''.2.2
      rw [hp.lastTs] at hmem
      exact List.mem_cons_of_mem _ hmem

/-- A run of events in order moves the timeline step by step: it stays sound, and
where it was not reset it leaves no gap. -/
theorem processEvents_sound (base : ℕ → ℕ) {as : List Arrival} {sl sl' : Slicer}
    (h : Inv sl.lastTs sl) (has : ∀ a ∈ as, a.InRange sl.numGroups)
    (hsorted : (sl.lastTs :: as.map (·.ev.tstamp)).Pairwise (· ≤ ·))
    (hsound : sl.timeline.Sound sl.lastTs) (hrun : processEvents kHandleTID0 sl as = .ok sl') :
    sl'.timeline.Sound sl'.lastTs ∧ sl.numResets ≤ sl'.numResets ∧
      (sl'.numResets = sl.numResets → sl.timeline.Since base → sl'.timeline.Since base) := by
  induction as generalizing sl with
  | nil =>
    rw [← Except.ok.inj hrun]
    exact ⟨hsound, le_rfl, fun _ hs => hs⟩
  | cons a as ih =>
    have hev := processEvent_outcome kHandleTID0 h (has a (by simp))
    rw [processEvents] at hrun
    cases heq : sl.processEvent kHandleTID0 a with
    | error f =>
      rw [heq] at hrun
      exact absurd hrun (by simp)
    | ok mid =>
      rw [heq] at hev hrun
      have hp : Processed a.ev sl mid := hev
      have hle : sl.lastTs ≤ a.ev.tstamp := (List.pairwise_cons.mp hsorted).1 _ (by simp)
      obtain ⟨cut, hstep, hresets⟩ := (hp.step hle).step
      have hsound' : sl.timeline.Sound a.ev.tstamp := hsound.mono hle
      have hmid : mid.timeline.Sound mid.lastTs := by
        rw [hp.lastTs]
        exact hsound'.step hstep
      have hsorted' : (mid.lastTs :: as.map (·.ev.tstamp)).Pairwise (· ≤ ·) := by
        rw [hp.lastTs]
        exact (List.pairwise_cons.mp hsorted).2
      have has' : ∀ b ∈ as, b.InRange mid.numGroups := fun b hb => by
        rw [hp.numGroups]
        exact has b (by simp [hb])
      obtain ⟨hfinal, hmono, hsince⟩ := ih hp.inv has' hsorted' hmid hrun
      refine ⟨hfinal, by omega, fun hsame hs => ?_⟩
      -- no reset in the whole run, so none at this event and none after it
      have hcut : cut = false := by
        cases cut with
        | false => rfl
        | true => simp at hresets; omega
      subst hcut
      exact hsince (by simp at hresets; omega) (hs.step hsound' hstep)

/-- The time the slices of a stack id took, over all groups. -/
def sliceTime (sl : Slicer) (i : ℕ) : ℕ :=
  ∑ g ∈ sl.groups, (((sl.groupedSlices g).filter fun s => s.stackId = i).map (·.duration)).sum

theorem time_timeline (sl : Slicer) (i : ℕ) : sl.timeline.time sl.groups i = sl.sliceTime i := by
  refine Finset.sum_congr rfl fun g _ => ?_
  change Timeline.laneTime ((sl.groupedSlices g).map sliceSpan) i = _
  rw [Timeline.laneTime, List.filter_map, List.map_map]
  have hdur : ((fun s : Span ℕ => s.stop - s.start) ∘ sliceSpan) = fun s : Slice => s.duration := by
    funext s
    exact Nat.add_sub_cancel_left ..
  rw [hdur]
  rfl

/-- What the slices and the stats of a slicer are to be. -/
structure ValidTimeline (sl : Slicer) : Prop where
  positive : ∀ g, ∀ s ∈ sl.groupedSlices g, 0 < s.duration
  ordered : ∀ g, (sl.groupedSlices g).Pairwise fun a b => a.tstampEnd ≤ b.tstamp
  total : ∀ p < sl.states.length,
    (sl.state p).stats.cumActiveTime = sl.sliceTime (sl.state p).stats.stackId % 2 ^ 64

theorem validTimeline_of_sound (h : Inv now sl) (hsound : sl.timeline.Sound now) :
    ValidTimeline sl := by
  refine ⟨fun g s hs => ?_, fun g => ?_, fun p hp => ?_⟩
  · have hpos := (hsound g).positive (sliceSpan s) (List.mem_map_of_mem hs)
    exact Nat.pos_of_lt_add_right hpos
  · exact List.pairwise_map.mp (hsound g).sorted
  · rw [← time_timeline]
    exact h.cum p hp

theorem sound_init (n : ℕ) : (init n).timeline.Sound (init n).lastTs := by
  intro g
  exact ⟨by simp [timeline, init], by simp [timeline, init], by simp [timeline, init], le_rfl⟩

/-- **The slicer writes a timeline.**  Whatever the calls of `processNext` are,
they handle some number of the events in order.  After any number of them, unless
a linked state was linked again, no check has failed and every group has slices
of positive duration, in order and apart; between resets the slices of a group
leave no gap; and the slices of a stack add up to its active time, as a 64 bit
time. -/
theorem processCalls_validTimeline (kHandleTID0 : Bool) (n : ℕ) (as : List Arrival)
    (has : ∀ a ∈ as, a.InRange n) (hsorted : (as.map (·.ev.tstamp)).Pairwise (· ≤ ·)) :
    (∀ calls, ∃ k, processCalls kHandleTID0 (as, init n) calls =
      (processEvents kHandleTID0 (init n) (as.take k)).map fun sl => (as.drop k, sl)) ∧
    ∀ k, Outcome (fun sl => ValidTimeline sl ∧
        ∀ j ≤ k, ∀ sl₀, processEvents kHandleTID0 (init n) (as.take j) = .ok sl₀ →
          sl.numResets = sl₀.numResets → ∀ g,
            ((sl.groupedSlices g).drop (sl₀.groupedSlices g).length).IsChain
              fun a b => a.tstampEnd = b.tstamp)
      (processEvents kHandleTID0 (init n) (as.take k)) := by
  refine ⟨fun calls => processCalls_eq kHandleTID0 calls as (init n), fun k => ?_⟩
  have hinv : ∀ j, Outcome (fun sl => Inv sl.lastTs sl ∧ sl.numGroups = n ∧
        sl.lastTs ∈ (0 : ℕ) :: (as.take j).map (·.ev.tstamp))
      (processEvents kHandleTID0 (init n) (as.take j)) := fun j =>
    processEvents_inv (inv_init n) fun a ha => has a (List.mem_of_mem_take ha)
  have hsort : ∀ j, ((0 : ℕ) :: (as.take j).map (·.ev.tstamp)).Pairwise (· ≤ ·) := by
    intro j
    refine List.pairwise_cons.mpr ⟨fun t _ => Nat.zero_le t, ?_⟩
    rw [List.map_take]
    exact hsorted.sublist (List.take_sublist _ _)
  have hsound : ∀ j sl, processEvents kHandleTID0 (init n) (as.take j) = .ok sl →
      sl.timeline.Sound sl.lastTs := fun j sl heq =>
    (processEvents_sound (fun _ => 0) (inv_init n)
      (fun a ha => has a (List.mem_of_mem_take ha)) (hsort j) (sound_init n) heq).1
  have hrun := hinv k
  cases heq : processEvents kHandleTID0 (init n) (as.take k) with
  | error f =>
    rw [heq] at hrun
    exact hrun
  | ok sl =>
    rw [heq] at hrun
    refine ⟨validTimeline_of_sound hrun.1 (hsound k sl heq), fun j hj sl₀ heq₀ hsame g => ?_⟩
    have hrun₀ := hinv j
    rw [heq₀] at hrun₀
    have hsplit : as.take k = as.take j ++ (as.drop j).take (k - j) := by
      rw [← List.take_add, Nat.add_sub_cancel' hj]
    have hrest : processEvents kHandleTID0 sl₀ ((as.drop j).take (k - j)) = .ok sl := by
      rw [hsplit, processEvents_append, heq₀] at heq
      exact heq
    -- the rest of the events come after the last one that `sl₀` has seen
    have hsorted' : (sl₀.lastTs :: ((as.drop j).take (k - j)).map (·.ev.tstamp)).Pairwise
        (· ≤ ·) := by
      have hpair := hsort k
      rw [hsplit, List.map_append, ← List.cons_append] at hpair
      obtain ⟨-, hpair, hcross⟩ := List.pairwise_append.mp hpair
      exact List.pairwise_cons.mpr ⟨fun t ht => hcross _ hrun₀.2.2 t ht, hpair⟩
    have has' : ∀ a ∈ (as.drop j).take (k - j), a.InRange sl₀.numGroups := fun a ha => by
      rw [hrun₀.2.1]
      exact has a (List.mem_of_mem_drop (List.mem_of_mem_take ha))
    have hsince := (processEvents_sound _ hrun₀.1 has' hsorted' (hsound j sl₀ heq₀) hrest).2.2 hsame
      (Timeline.since_self sl₀.timeline) g
    have hchain := hsince.chain
    change (((sl.groupedSlices g).map sliceSpan).drop
      ((sl₀.groupedSlices g).map sliceSpan).length).IsChain _ at hchain
    rw [List.length_map, ← List.map_drop] at hchain
    exact (List.isChain_map sliceSpan).mp hchain

/-- Two groups, a thread that comes in on each and a group that runs empty. -/
def sampleEvents : List Arrival :=
  [Arrival.clean ⟨0, .switchIn, 0, 0, 7⟩, Arrival.clean ⟨10, .switchOutYield, 0, 0, 0⟩,
    Arrival.clean ⟨10, .switchIn, 0, 1, 7⟩, Arrival.clean ⟨25, .switchOutPreempt, 0, 1, 0⟩]

theorem processCalls_validTimeline_sample :
    Outcome ValidTimeline (processEvents true (init 2) (sampleEvents.take 4)) :=
  Outcome.mono ((processCalls_validTimeline true 2 sampleEvents (by decide) (by decide)).2 4)
    fun _ h => h.1

example : (processEvents true (init 2) sampleEvents).map (fun sl =>
    (sl.groupedSlices 0, sl.groupedSlices 1, (sl.state 1).stats.cumActiveTime)) =
    .ok ([⟨0, 10, 1, .threadYield, .threadYield⟩], [⟨10, 15, 1, .threadYield, .threadPreempted⟩],
      25) := by rfl

/-- Both groups run empty for half of the range of a time stamp. -/
def longIdleEvents : List Arrival :=
  [Arrival.clean ⟨0, .switchOutYield, 0, 0, 0⟩, Arrival.clean ⟨0, .switchOutYield, 0, 1, 0⟩,
    Arrival.clean ⟨2 ^ 63, .switchIn, 0, 0, 1⟩, Arrival.clean ⟨2 ^ 63, .switchIn, 0, 1, 2⟩]

/-- **The sum of the slices is more than a time stamp holds.**  The empty stack is
active in two groups at once, its slices add up to `2 ^ 64`, and its active time
is back at zero.  And a thread that is created twice is linked twice. -/
theorem cumActiveTime_wraps :
    ((∀ a ∈ longIdleEvents, a.InRange 2) ∧
      (longIdleEvents.map (·.ev.tstamp)).Pairwise (· ≤ ·) ∧
      (processEvents true (init 2) longIdleEvents).map (fun sl =>
        ((sl.state 0).stats.cumActiveTime, sl.sliceTime (sl.state 0).stats.stackId)) =
          .ok (0, 2 ^ 64)) ∧
    processEvents true (init 1) [Arrival.clean ⟨0, .threadCreation, 0, 0, 5⟩,
      Arrival.clean ⟨1, .threadCreation, 0, 0, 5⟩] = .error .alreadyLinked :=
  ⟨⟨by decide, by decide, by rfl⟩, by rfl⟩

end Slicer
end Tagstack
end IntegratedCLI
