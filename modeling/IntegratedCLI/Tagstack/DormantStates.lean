import IntegratedCLI.Lib.Run
import IntegratedCLI.Tagstack.SliceTimeline

/-!
# Dormant and active states

The dormant lists are intrusive: a state that is put in a list while it is in one
corrupts both.  A state that is active is not meant to be in a list, and only a
state that is aliased is meant to be active in two groups.

That this is so depends on the stream.  A thread is switched in on one compute
unit at a time, so the level zero tag of an active stack names the thread of its
unit (`Held.runs`), and two units whose active state has a known thread have
different ones.  `Tracked` runs the slicer beside a record of the threads that
are switched in.

## What the code does not see to

`handleThreadLifetime` links the state of a created thread without looking where
that state is.  When the identifier of a thread is used again the state exists,
and it is linked or active already (`Steady.created`).  The two other conditions
of `Steady` are about events that leave the slicer without a thread at the bottom
of a stack: a tag put on a unit that runs nothing, where the array of the empty
stack decides which thread it belongs to, and the end of an error window that
was never opened, which makes the unsigned count of windows wrap.
-/

namespace IntegratedCLI
namespace Tagstack

/-! ## Threads that are switched in -/

/-- The thread each compute unit runs, after an event.  The tag of level zero is
the thread. -/
def trackThreads (running : ℕ → Option ℕ) (ev : Event) : ℕ → Option ℕ :=
  if ev.level = 0 ∧ ev.isIn = true then Function.update running ev.compUnitId (some ev.tag)
  else if ev.level = 0 ∧ ev.isOut = true then Function.update running ev.compUnitId none
  else running

/-- A thread that is switched in is not switched in on another compute unit. -/
def SwitchedInOnce (running : ℕ → Option ℕ) (ev : Event) : Prop :=
  ev.level = 0 → ev.isIn = true → ∀ g, g ≠ ev.compUnitId → running g ≠ some ev.tag

theorem switchedInOnce_of_idle {running : ℕ → Option ℕ} {ev : Event}
    (h : ∀ g, g ≠ ev.compUnitId → running g = none) : SwitchedInOnce running ev := by
  intro _ _ g hg
  rw [h g hg]
  simp

theorem switchedInOnce_of_not_in {running : ℕ → Option ℕ} {ev : Event} (h : ev.isIn = false) :
    SwitchedInOnce running ev := by
  intro _ hin
  rw [h] at hin
  exact absurd hin (by simp)

namespace Slicer

/-- What the dormant lists and the active states are to be. -/
structure Partition (kHandleTID0 : Bool) (sl : Slicer) : Prop where
  nodup : ∀ t, (sl.dormantStates t).Nodup
  one_list : ∀ t t' p, p ∈ sl.dormantStates t → p ∈ sl.dormantStates t' → t = t'
  apart : ∀ t, ∀ p ∈ sl.dormantStates t, ∀ g, sl.activeStates g ≠ some p
  one_group : ∀ p g g', isAliased kHandleTID0 (sl.state p).stats.stack = false →
    sl.activeStates g = some p → sl.activeStates g' = some p → g = g'

/-- What an event has to find for the lists to be kept: a created thread has no
state that is linked or active; a tag above level zero finds a thread under it;
and an error window that ends is open. -/
structure Steady (sl : Slicer) (ev : Event) : Prop where
  created : sl.lastTs ≤ ev.tstamp → sl.numActiveWriteErrors = 0 → ev.type = .threadCreation →
    ev.level = 0 → ∀ p, sl.findState (Stack.ofThread ev.tag) = some p →
      (sl.state p).hook = none ∧ ∀ g, sl.activeStates g ≠ some p
  threaded : sl.lastTs ≤ ev.tstamp → sl.numActiveWriteErrors = 0 → ev.level ≠ 0 →
    ev.isIn = true ∨ ev.isOut = true →
    ∀ p, sl.activeStates ev.compUnitId = some p → (sl.state p).stats.stack.numSetTags ≠ 0
  ended : ev.type = .writeErrorsEnd → sl.numActiveWriteErrors ≠ 0

/-- The tag at the bottom of a stack, if it has one that is known, is the thread
the group runs. -/
def RunsThread (running : ℕ → Option ℕ) (g : ℕ) (s : Stack) : Prop :=
  s.numSetTags ≠ 0 → s.tagAt 0 = kNA ∨ running g = some (s.tagAt 0)

/-- The invariant: the shelves are tidy, every active stack belongs to the thread
of its group, and nothing is active in an error window. -/
structure Held (running : ℕ → Option ℕ) (sl : Slicer) : Prop where
  tidy : sl.shelves.Tidy
  runs : ∀ g p, sl.activeStates g = some p → RunsThread running g (sl.state p).stats.stack
  once : ∀ g g' t, running g = some t → running g' = some t → g = g'
  window : sl.numActiveWriteErrors ≠ 0 → ∀ g, sl.activeStates g = none

variable {running : ℕ → Option ℕ} {sl sl' : Slicer} {g p : ℕ} {kHandleTID0 : Bool}

/-- A stack that is not aliased has a known tag at the bottom. -/
theorem tagAt_zero_of_not_aliased {s : Stack} (hs : s.tags.length = kMaxNumLevels)
    (h : isAliased kHandleTID0 s = false) : s.numSetTags ≠ 0 ∧ s.tagAt 0 ≠ kNA := by
  have hparts : s.numSetTags ≠ 0 ∧ s.hasNAs = false := by
    cases kHandleTID0 <;> simp_all [isAliased]
  refine ⟨hparts.1, fun htag => ?_⟩
  have hcount : kNA ∉ s.tags.take s.numSetTags := by
    simpa [Stack.hasNAs, Stack.numNAs] using hparts.2
  obtain ⟨t, tags, htags⟩ := List.exists_cons_of_length_pos (l := s.tags) (by rw [hs]; decide)
  obtain ⟨n, hn⟩ := Nat.exists_eq_succ_of_ne_zero hparts.1
  rw [htags, hn, List.take_succ_cons] at hcount
  rw [Stack.tagAt, htags, List.getD_cons_zero] at htag
  exact hcount (by rw [htag]; exact List.mem_cons_self)

/-- A state that is not aliased is active in one group. -/
theorem Held.one_group {now : ℕ} (h : Held running sl) (hinv : Inv now sl) {g' : ℕ}
    (hp : isAliased kHandleTID0 (sl.state p).stats.stack = false)
    (hg : sl.activeStates g = some p) (hg' : sl.activeStates g' = some p) : g = g' := by
  obtain ⟨hset, hna⟩ := tagAt_zero_of_not_aliased (hinv.tags_length p (hinv.active_lt g p hg)) hp
  have hrun := (h.runs g p hg hset).resolve_left hna
  have hrun' := (h.runs g' p hg' hset).resolve_left hna
  exact h.once g g' _ hrun hrun'

theorem Held.partition {now : ℕ} (h : Held running sl) (hinv : Inv now sl) :
    Partition kHandleTID0 sl :=
  ⟨h.tidy.nodup, fun _ _ _ ht ht' => h.tidy.unique ht ht', h.tidy.apart,
    fun _ _ _ hp hg hg' => h.one_group hinv hp hg hg'⟩

/-- The invariant looks at nothing but the shelves, the stacks of the states and
the count of error windows. -/
theorem Held.congr (h : Held running sl) (hshelves : sl'.shelves = sl.shelves)
    (hstack : ∀ p, (sl'.state p).stats.stack = (sl.state p).stats.stack)
    (herrors : sl'.numActiveWriteErrors = sl.numActiveWriteErrors) : Held running sl' := by
  have hactive : sl'.activeStates = sl.activeStates := congrArg Shelves.slot hshelves
  refine ⟨by rw [hshelves]; exact h.tidy, fun g p hg => ?_, h.once, ?_⟩
  · rw [hactive] at hg
    rw [hstack]
    exact h.runs g p hg
  · rw [herrors, hactive]
    exact h.window

/-- An event that leaves the states alone, up to the stats and the clock. -/
theorem Held.of_eq (h : Held running sl) (hstates : sl'.states = sl.states)
    (hdormant : sl'.dormantStates = sl.dormantStates)
    (hactive : sl'.activeStates = sl.activeStates)
    (herrors : sl'.numActiveWriteErrors = sl.numActiveWriteErrors) : Held running sl' := by
  have hstate : ∀ p, sl'.state p = sl.state p := state_congr hstates
  exact h.congr (shelves_congr (fun p => by rw [hstate]) hdormant hactive)
    (fun p => by rw [hstate]) herrors

/-- The count of error windows does not matter while nothing is active. -/
theorem Held.of_idle (h : Held running sl) (hnone : ∀ g, sl.activeStates g = none)
    (hstates : sl'.states = sl.states) (hdormant : sl'.dormantStates = sl.dormantStates)
    (hactive : sl'.activeStates = sl.activeStates) : Held running sl' := by
  have hstate : ∀ p, sl'.state p = sl.state p := state_congr hstates
  have hshelves : sl'.shelves = sl.shelves :=
    shelves_congr (fun p => by rw [hstate]) hdormant hactive
  refine ⟨by rw [hshelves]; exact h.tidy, fun g p hp => ?_, h.once, fun _ g => ?_⟩
  · rw [hactive, hnone g] at hp
    exact absurd hp (by simp)
  · rw [hactive]
    exact hnone g

theorem shelves_resetState (sl : Slicer) : sl.resetState.shelves = sl.shelves.clear := by
  refine congrArg (Shelves.mk · _ _) (funext fun p => ?_)
  by_cases hp : p < sl.states.length
  · rw [state_resetState sl hp]
  · have hle : sl.resetState.states.length ≤ p := by
      simpa [resetState] using Nat.le_of_not_lt hp
    rw [state_of_le hle]
    rfl

theorem Held.resetState (h : Held running sl) : Held running sl.resetState := by
  refine ⟨?_, by simp [Slicer.resetState], h.once, by simp [Slicer.resetState]⟩
  rw [shelves_resetState]
  exact Shelves.tidy_clear _

/-- The record of threads can be brought up to date once the group of the event
has no active state. -/
theorem Held.track {ev : Event} (h : Held running sl)
    (hnone : ev.level = 0 → ev.isIn = true ∨ ev.isOut = true →
      sl.activeStates ev.compUnitId = none)
    (honce : SwitchedInOnce running ev) : Held (trackThreads running ev) sl := by
  -- the record changes for one group at most, where nothing is active
  have hruns : ∀ t, sl.activeStates ev.compUnitId = none → ∀ g p, sl.activeStates g = some p →
      RunsThread (Function.update running ev.compUnitId t) g (sl.state p).stats.stack := by
    intro t hg g p hp
    have hne : g ≠ ev.compUnitId := by
      rintro rfl
      rw [hg] at hp
      exact absurd hp (by simp)
    intro hset
    rw [Function.update_of_ne hne]
    exact h.runs g p hp hset
  unfold trackThreads
  split
  · rename_i hin
    refine ⟨h.tidy, hruns _ (hnone hin.1 (Or.inl hin.2)), fun g g' t hg hg' => ?_, h.window⟩
    by_cases hgev : g = ev.compUnitId
    · by_cases hgev' : g' = ev.compUnitId
      · rw [hgev, hgev']
      · rw [hgev, Function.update_self] at hg
        rw [Function.update_of_ne hgev', ← Option.some.inj hg] at hg'
        exact absurd hg' (honce hin.1 hin.2 g' hgev')
    · rw [Function.update_of_ne hgev] at hg
      by_cases hgev' : g' = ev.compUnitId
      · rw [hgev', Function.update_self] at hg'
        rw [← Option.some.inj hg'] at hg
        exact absurd hg (honce hin.1 hin.2 g hgev)
      · rw [Function.update_of_ne hgev'] at hg'
        exact h.once g g' t hg hg'
  · split
    · rename_i hout
      refine ⟨h.tidy, hruns _ (hnone hout.1 (Or.inr hout.2)), fun g g' t hg hg' => ?_, h.window⟩
      have hold : ∀ {k}, Function.update running ev.compUnitId none k = some t →
          running k = some t := by
        intro k hk
        by_cases hkev : k = ev.compUnitId
        · rw [hkev, Function.update_self] at hk
          exact absurd hk (by simp)
        · rwa [Function.update_of_ne hkev] at hk
      exact h.once g g' t (hold hg) (hold hg')
    · exact h

/-! ## What an event does to the lists -/

theorem shelves_deactivated {now : ℕ} {ty : TransitionType} (hp : p < sl.states.length) :
    (sl.deactivated g p now ty).shelves = sl.shelves.vacate g := by
  refine congrArg (Shelves.mk · _ _) (funext fun q => ?_)
  rw [state_deactivated hp]
  split
  · rename_i hq
    rw [hq]
    rfl
  · rfl

theorem shelves_activated {now : ℕ} {ty : TransitionType} (hp : p < sl.states.length) :
    (sl.activated g p now ty).shelves = sl.shelves.fill g p := by
  refine congrArg (Shelves.mk · _ _) (funext fun q => ?_)
  rw [state_activated hp]
  split
  · rename_i hq
    rw [hq]
    rfl
  · rfl

/-- A group whose last state has been made dormant or dropped. -/
theorem Held.vacated {shelves : Shelves ℕ ℕ ℕ} (h : Held running sl)
    (htidy : (shelves.vacate g).Tidy) (hslot : shelves.slot = sl.activeStates)
    (hshelves : sl'.shelves = shelves.vacate g)
    (hstack : ∀ p, (sl'.state p).stats.stack = (sl.state p).stats.stack)
    (herrors : sl'.numActiveWriteErrors = sl.numActiveWriteErrors) : Held running sl' := by
  have hactive : sl'.activeStates = Function.update sl.activeStates g none := by
    rw [← hslot]
    exact congrArg Shelves.slot hshelves
  have hsub : ∀ {k q}, sl'.activeStates k = some q → sl.activeStates k = some q := by
    intro k q hq
    rw [hactive] at hq
    by_cases hk : k = g
    · rw [hk, Function.update_self] at hq
      exact absurd hq (by simp)
    · rwa [Function.update_of_ne hk] at hq
  refine ⟨by rw [hshelves]; exact htidy, fun k q hq => ?_, h.once, fun hne k => ?_⟩
  · rw [hstack]
    exact h.runs k q (hsub hq)
  · cases hq : sl'.activeStates k with
    | none => rfl
    | some q =>
      rw [herrors] at hne
      have hnone := h.window hne k
      rw [hsub hq] at hnone
      exact hnone

/-- Completing the last state of a group links it if it is not aliased, and it is
not linked already. -/
theorem handleLastState_held (kHandleTID0 : Bool) {ev : Event} (hinv : Inv ev.tstamp sl) (h : Held running sl) :
    ∃ sl', sl.handleLastState kHandleTID0 ev = .ok sl' ∧ Held running sl' ∧
      sl'.numActiveWriteErrors = sl.numActiveWriteErrors := by
  cases hg : sl.activeStates ev.compUnitId with
  | none =>
    unfold handleLastState
    rw [hg]
    exact ⟨sl, rfl, h, rfl⟩
  | some p =>
    have hp : p < sl.states.length := hinv.active_lt _ p hg
    have hpushed : ∃ sl', sl.pushLast kHandleTID0 p = .ok sl' ∧ SameTimes sl sl' ∧
        (sl'.shelves.vacate ev.compUnitId).Tidy ∧
        sl'.numActiveWriteErrors = sl.numActiveWriteErrors := by
      unfold pushLast
      by_cases haliased : isAliased kHandleTID0 (sl.state p).stats.stack = true
      · rw [if_pos haliased]
        exact ⟨sl, rfl, SameTimes.refl sl, h.tidy.vacate _, rfl⟩
      · rw [if_neg haliased]
        obtain ⟨sl', hpush, hsame, hshelves, herrors⟩ :=
          pushFront_eq ((sl.state p).stats.stack.tagAt 0) hp (h.tidy.hook_of_slot hg)
        refine ⟨sl', hpush, hsame, ?_, herrors⟩
        rw [hshelves]
        exact h.tidy.shelve hg
          (fun k hk => h.one_group hinv (Bool.eq_false_iff.mpr haliased) hk hg) _
    obtain ⟨sl', hpush, hsame, htidy, herrors⟩ := hpushed
    have hp' : p < sl'.states.length := by rw [hsame.length]; exact hp
    refine ⟨_, handleLastState_of_pushLast hinv hg hpush hsame, ?_, herrors⟩
    refine h.vacated htidy hsame.activeStates (shelves_deactivated hp') (fun q => ?_) herrors
    rw [(stats_deactivated hp' q).2, hsame.stats]

/-- Activating a state that was picked, whose stack belongs to the thread of the
group. -/
theorem Held.activated {now : ℕ} {ty : TransitionType} (h : Held running sl)
    (hpicked : Picked now sl sl' p) (hinv : Inv now sl)
    (herrors : sl.numActiveWriteErrors = 0)
    (hruns : RunsThread running g (sl'.state p).stats.stack) :
    Held running (sl'.activated g p now ty) := by
  have hshelves : (sl'.activated g p now ty).shelves = (sl.shelves.remove p).fill g p := by
    rw [shelves_activated hpicked.lt, hpicked.shelves]
  have hstack : ∀ q, ((sl'.activated g p now ty).state q).stats.stack =
      (sl'.state q).stats.stack := fun q => (stats_activated hpicked.lt q).2.2
  have hactive : (sl'.activated g p now ty).activeStates =
      Function.update sl.activeStates g (some p) := by
    rw [← hpicked.activeStates]
    rfl
  refine ⟨?_, fun k q hq => ?_, h.once, fun hne => ?_⟩
  · rw [hshelves]
    exact (h.tidy.remove p).fill (Shelves.hook_remove p) g
  · rw [hstack]
    rw [hactive] at hq
    by_cases hk : k = g
    · rw [hk, Function.update_self] at hq
      rw [hk, ← Option.some.inj hq]
      exact hruns
    · rw [Function.update_of_ne hk] at hq
      rw [hpicked.stack q (hinv.active_lt k q hq)]
      exact h.runs k q hq
  · exact absurd (hpicked.numActiveWriteErrors.trans herrors) hne

/-- The stack that was active belongs to the thread of the group, also when it is
only known to be there. -/
theorem runsThread_lastStack {ev : Event} (h : Held running sl) :
    RunsThread running ev.compUnitId (sl.lastStack ev) := by
  unfold lastStack
  split
  · rename_i p hp
    exact h.runs _ p hp
  · intro _
    exact Or.inl rfl

theorem tagAt_zero_copyTruncated {s : Stack} {n : ℕ} {known : Bool} {junk : Tags}
    (hs : s.tags.length = kMaxNumLevels) (hn : n ≠ 0) :
    (s.copyTruncated n known junk).tagAt 0 = s.tagAt 0 := by
  obtain ⟨t, tags, htags⟩ := List.exists_cons_of_length_pos (l := s.tags) (by rw [hs]; decide)
  obtain ⟨m, rfl⟩ := Nat.exists_eq_succ_of_ne_zero hn
  simp [Stack.copyTruncated, Stack.tagAt, htags]

theorem tagAt_zero_copyFillUpTo {s : Stack} {idx tag : ℕ} {known : Bool} {junk : Tags}
    (hs : s.tags.length = kMaxNumLevels) :
    (s.copyFillUpTo idx tag known junk).tagAt 0 = if idx = 0 then tag else s.tagAt 0 := by
  obtain ⟨t, tags, htags⟩ := List.exists_cons_of_length_pos (l := s.tags) (by rw [hs]; decide)
  cases idx with
  | zero => simp [Stack.copyFillUpTo, Stack.tagAt]
  | succ m => simp [Stack.copyFillUpTo, Stack.tagAt, htags]

/-- The stack an event asks for belongs to the thread its group runs after it. -/
theorem runsThread_nextStack {ev : Event} {lastStack : Stack} (junk : ℕ → Tags)
    (hs : lastStack.tags.length = kMaxNumLevels) (hinout : ev.isIn = true ∨ ev.isOut = true)
    (hlast : ev.level ≠ 0 → lastStack.numSetTags ≠ 0)
    (hruns : RunsThread running ev.compUnitId lastStack) :
    RunsThread (trackThreads running ev) ev.compUnitId (nextStack lastStack ev junk) := by
  have hhigher : ev.level ≠ 0 → trackThreads running ev = running := by
    intro hlevel
    rw [trackThreads, if_neg (fun h => hlevel h.1), if_neg (fun h => hlevel h.1)]
  unfold nextStack
  split
  · intro hlevel
    change ev.level ≠ 0 at hlevel
    rw [tagAt_zero_copyTruncated hs hlevel, hhigher hlevel]
    exact hruns (hlast hlevel)
  · rename_i hout
    intro _
    rw [tagAt_zero_copyFillUpTo hs]
    by_cases hlevel : ev.level = 0
    · have hin : ev.isIn = true := hinout.resolve_right hout
      rw [if_pos hlevel, trackThreads, if_pos ⟨hlevel, hin⟩, Function.update_self]
      exact Or.inr rfl
    · rw [if_neg hlevel, hhigher hlevel]
      exact hruns (hlast hlevel)

theorem handleTransition_held {a : Arrival} (hinv : Inv a.ev.tstamp sl) (h : Held running sl)
    (ha : a.InRange sl.numGroups) (honce : SwitchedInOnce running a.ev)
    (herrors : sl.numActiveWriteErrors = 0) (hinout : a.ev.isIn = true ∨ a.ev.isOut = true)
    (hthreaded : a.ev.level ≠ 0 → ∀ p, sl.activeStates a.ev.compUnitId = some p →
      (sl.state p).stats.stack.numSetTags ≠ 0) :
    ∃ sl', sl.handleTransition kHandleTID0 a.ev a.junk = .ok sl' ∧
      Held (trackThreads running a.ev) sl' := by
  obtain ⟨sl₁, hlast, hheld, herrors₁⟩ := handleLastState_held kHandleTID0 hinv h
  have hcompleted := handleLastState_outcome kHandleTID0 hinv
  rw [hlast] at hcompleted
  have hc : Completed a.ev.tstamp a.ev.compUnitId sl sl₁ := hcompleted
  have htracked : Held (trackThreads running a.ev) sl₁ :=
    hheld.track (fun _ _ => hc.inactive) honce
  have hreset : Held (trackThreads running a.ev) (sl₁.handled a.ev).resetState :=
    (htracked.of_eq rfl rfl rfl rfl : Held _ (sl₁.handled a.ev)).resetState
  unfold handleTransition
  rw [hlast]
  simp only
  split
  · exact ⟨_, rfl, hreset.of_eq rfl rfl rfl rfl⟩
  · split
    · exact ⟨_, rfl, hreset⟩
    · obtain ⟨sl₂, p, hpicked, hbottom, hnext⟩ := activateNext_activates
        kHandleTID0 hc.inv hc.inactive (by rw [hc.numGroups]; exact ha)
        (lastStack_length hinv a.ev)
      have hset : a.ev.level ≠ 0 → (sl.lastStack a.ev).numSetTags ≠ 0 := by
        intro hlevel
        unfold lastStack
        split
        · rename_i q hq
          exact hthreaded hlevel q hq
        · exact Nat.ne_of_gt (Nat.add_pos_left (Nat.pos_of_ne_zero hlevel) _)
      have hruns := runsThread_nextStack a.junk (lastStack_length hinv a.ev) hinout hset
        (runsThread_lastStack h)
      have hpickedRuns : RunsThread (trackThreads running a.ev) a.ev.compUnitId
          (sl₂.state p).stats.stack := by
        intro hset₂
        obtain ⟨hset₁, htag⟩ := hbottom hset₂
        rw [htag]
        exact hruns hset₁
      rw [hnext]
      exact ⟨_, rfl, (htracked.activated hpicked hc.inv (herrors₁.trans herrors)
        hpickedRuns).of_eq rfl rfl rfl rfl⟩

theorem handleWriteErrors_held {ev : Event} (h : Held running sl)
    (heq : sl.handleWriteErrors ev = some sl')
    (hended : ev.type = .writeErrorsEnd → sl.numActiveWriteErrors ≠ 0) :
    Held running sl' ∧ (ev.isIn = true ∨ ev.isOut = true → ∀ g, sl'.activeStates g = none) := by
  have hinout : ev.isIn = true ∨ ev.isOut = true →
      ev.type ≠ .writeErrorsEnd ∧ ev.type ≠ .writeErrorsStart := by
    intro hio
    cases htype : ev.type <;> simp_all [Event.isIn, Event.isOut, Event.isSwitchOut]
  unfold handleWriteErrors at heq
  split at heq
  · rename_i htype
    rw [← Option.some.inj heq]
    -- the window that ends was open, so nothing is active
    have hnone := h.window (hended htype)
    exact ⟨h.of_idle hnone rfl rfl rfl, fun _ => hnone⟩
  · split at heq
    · rw [← Option.some.inj heq]
      have hreset := (h.of_eq rfl rfl rfl rfl : Held running (sl.handled ev)).resetState
      exact ⟨hreset.of_idle (fun _ => rfl) rfl rfl rfl, fun _ _ => rfl⟩
    · split at heq
      · rename_i herrors
        rw [← Option.some.inj heq]
        exact ⟨h.of_eq rfl rfl rfl rfl, fun _ => h.window herrors⟩
      · exact absurd heq (by simp)

theorem handleThreadLifetime_held {a : Arrival} {now : ℕ} {r : Except Fault Slicer}
    (hinv : Inv now sl) (h : Held running sl)
    (heq : sl.handleThreadLifetime a.ev a.junk = some r)
    (hcreated : a.ev.type = .threadCreation → a.ev.level = 0 →
      ∀ p, sl.findState (Stack.ofThread a.ev.tag) = some p →
        (sl.state p).hook = none ∧ ∀ g, sl.activeStates g ≠ some p) :
    ∃ sl', r = .ok sl' ∧ Held running sl' := by
  unfold handleThreadLifetime at heq
  split at heq
  · split at heq
    · exact ⟨_, (Option.some.inj heq).symm, h.of_eq rfl rfl rfl rfl⟩
    · rename_i hlevel
      split at heq
      · rename_i htype
        have hc := createStackState_created a.junk_length sl
          (Stack.ofThread a.ev.tag).numSetTags (Stack.ofThread a.ev.tag) rfl
        simp only at heq
        generalize sl.createStackState a.junk (Stack.ofThread a.ev.tag).numSetTags
          (Stack.ofThread a.ev.tag) = r' at heq hc
        have hg := hc.grown
        have hheld : Held running r'.1 := by
          have hactive : ∀ {g p}, sl.activeStates g = some p → (r'.1.state p).stats.stack =
              (sl.state p).stats.stack := fun hp => by rw [hg.old _ (hinv.active_lt _ _ hp)]
          refine ⟨by rw [hg.shelves]; exact h.tidy, fun g p hp => ?_, h.once, ?_⟩
          · rw [hg.activeStates] at hp
            rw [hactive hp]
            exact h.runs g p hp
          · rw [hg.numActiveWriteErrors, hg.activeStates]
            exact h.window
        -- the state is new, or it was found and is nowhere
        have hfree : (r'.1.state r'.2).hook = none ∧ ∀ g, r'.1.activeStates g ≠ some r'.2 := by
          rw [hg.activeStates]
          by_cases hlt : r'.2 < sl.states.length
          · rw [hg.old _ hlt]
            exact hcreated htype (not_not.mp hlevel) _ (hc.found hlt)
          · obtain ⟨i, parent, s, hs, -⟩ := hg.fresh _ hc.lt (Nat.le_of_not_lt hlt)
            rw [hs]
            exact ⟨rfl, fun g hp => hlt (hinv.active_lt g _ hp)⟩
        obtain ⟨sl₁, hpush, hsame, hshelves, herrors⟩ :=
          pushFront_eq ((Stack.ofThread a.ev.tag).tagAt 0) hc.lt hfree.1
        rw [hpush] at heq
        refine ⟨_, (Option.some.inj heq).symm, ?_⟩
        have hpushed : Held running sl₁ := by
          refine ⟨by rw [hshelves]; exact hheld.tidy.push hfree.1 hfree.2 _, fun g p hp => ?_, h.once,
            ?_⟩
          · rw [hsame.activeStates] at hp
            rw [hsame.stats]
            exact hheld.runs g p hp
          · rw [herrors, hsame.activeStates]
            exact hheld.window
        exact hpushed.of_eq rfl rfl rfl rfl
      · exact ⟨_, (Option.some.inj heq).symm, h.of_eq rfl rfl rfl rfl⟩
  · exact absurd heq (by simp)

/-- Starting over from an event that lies before the last one leaves nothing
linked or active, so `Steady` asks nothing of it there. -/
theorem steady_handleOutOfOrder {ev : Event} (h : Steady sl ev) :
    let sl' := sl.handleOutOfOrder ev
    sl'.numActiveWriteErrors = sl.numActiveWriteErrors ∧
      (sl'.numActiveWriteErrors = 0 → ev.type = .threadCreation → ev.level = 0 →
        ∀ p, sl'.findState (Stack.ofThread ev.tag) = some p →
          (sl'.state p).hook = none ∧ ∀ g, sl'.activeStates g ≠ some p) ∧
      (sl'.numActiveWriteErrors = 0 → ev.level ≠ 0 → ev.isIn = true ∨ ev.isOut = true →
        ∀ p, sl'.activeStates ev.compUnitId = some p →
          (sl'.state p).stats.stack.numSetTags ≠ 0) := by
  simp only
  by_cases hlt : ev.tstamp < sl.lastTs
  · rw [handleOutOfOrder, if_pos hlt]
    refine ⟨rfl, fun _ _ _ p hp => ⟨?_, by simp [resetState]⟩, fun _ _ _ p hp => ?_⟩
    · exact congrArg (fun s : Shelves ℕ ℕ ℕ => s.hook p) (shelves_resetState sl)
    · exact absurd hp (by simp [resetState])
  · rw [handleOutOfOrder, if_neg hlt]
    have hle := Nat.le_of_not_lt hlt
    exact ⟨rfl, h.created hle, fun herrors => h.threaded hle herrors⟩

/-- **One event keeps the lists**, and fails no check. -/
theorem processEvent_held {a : Arrival} (hinv : Inv sl.lastTs sl) (h : Held running sl)
    (ha : a.InRange sl.numGroups) (honce : SwitchedInOnce running a.ev) (hs : Steady sl a.ev) :
    ∃ sl', sl.processEvent kHandleTID0 a = .ok sl' ∧ Held (trackThreads running a.ev) sl' := by
  have hinv₀ := handleOutOfOrder_inv hinv ha.tstamp_lt
  have hheld₀ : Held running (sl.handleOutOfOrder a.ev) := by
    unfold handleOutOfOrder
    split
    · exact h.resetState.of_eq rfl rfl rfl rfl
    · exact h
  have hgroups : (sl.handleOutOfOrder a.ev).numGroups = sl.numGroups := by
    unfold handleOutOfOrder
    split <;> rfl
  obtain ⟨herrors₀, hcreated, hthreaded⟩ := steady_handleOutOfOrder hs
  unfold processEvent
  rw [if_neg (Nat.not_le.mpr ha.compUnitId_lt)]
  simp only
  cases hwrite : (sl.handleOutOfOrder a.ev).handleWriteErrors a.ev with
  | some sl' =>
    obtain ⟨hheld, hnone⟩ := handleWriteErrors_held hheld₀ hwrite
      fun htype => by rw [herrors₀]; exact hs.ended htype
    exact ⟨sl', rfl, hheld.track (fun _ hio => hnone hio _) honce⟩
  | none =>
    have hquiet : (sl.handleOutOfOrder a.ev).numActiveWriteErrors = 0 ∧
        a.ev.type ≠ .writeErrorsEnd ∧ a.ev.type ≠ .writeErrorsStart := by
      unfold handleWriteErrors at hwrite
      split at hwrite
      · exact absurd hwrite (by simp)
      · rename_i hend
        split at hwrite
        · exact absurd hwrite (by simp)
        · rename_i hstart
          split at hwrite
          · exact absurd hwrite (by simp)
          · rename_i hzero
            exact ⟨not_not.mp hzero, hend, hstart⟩
    simp only
    cases hlifetime : (sl.handleOutOfOrder a.ev).handleThreadLifetime a.ev a.junk with
    | some r =>
      obtain ⟨sl', hr, hheld⟩ := handleThreadLifetime_held hinv₀ hheld₀ hlifetime
        (hcreated hquiet.1)
      have hnot : ¬ (a.ev.isIn = true ∨ a.ev.isOut = true) := by
        intro hio
        unfold handleThreadLifetime at hlifetime
        split at hlifetime
        · rename_i hlife
          cases htype : a.ev.type <;>
            simp_all [Event.isThreadLifetime, Event.isIn, Event.isOut, Event.isSwitchOut]
        · exact absurd hlifetime (by simp)
      exact ⟨sl', hr, hheld.track (fun _ hio => absurd hio hnot) honce⟩
    | none =>
      have hlife : ¬ a.ev.isThreadLifetime = true := by
        intro hlife
        unfold handleThreadLifetime at hlifetime
        rw [if_pos hlife] at hlifetime
        split at hlifetime
        · exact absurd hlifetime (by simp)
        · split at hlifetime
          · simp only at hlifetime
            split at hlifetime <;> exact absurd hlifetime (by simp)
          · exact absurd hlifetime (by simp)
      have hinout : a.ev.isIn = true ∨ a.ev.isOut = true := by
        cases htype : a.ev.type <;>
          simp_all [Event.isThreadLifetime, Event.isIn, Event.isOut, Event.isSwitchOut]
      exact handleTransition_held hinv₀ hheld₀ (by rw [hgroups]; exact ha) honce hquiet.1 hinout
        fun hlevel => hthreaded hquiet.1 hlevel hinout

/-! ## Runs -/

/-- The slicer beside the record of the threads that are switched in. -/
abbrev Tracked := (ℕ → Option ℕ) × Except Fault Slicer

def stepTracked (kHandleTID0 : Bool) (s : Tracked) (a : Arrival) : Tracked :=
  (trackThreads s.1 a.ev, s.2.bind fun sl => sl.processEvent kHandleTID0 a)

/-- Nothing is switched in and the slicer has done nothing. -/
def startTracked (n : ℕ) : Tracked := (fun _ => none, .ok (init n))

theorem held_init (n : ℕ) : Held (fun _ => none) (init n) := by
  refine ⟨⟨fun p t => ?_, by simp [shelves, init], by simp [shelves, init]⟩, by simp [init], by simp,
    by simp [init]⟩
  simp [shelves, init, state, default, TagStackState.mk']

/-- **The dormant lists and the active states are kept apart.**  Take any run in
which a thread is switched in on one compute unit at a time and every event is
`Steady` where it arrives.  No check fails in it, and after every event each state
is in one dormant list at most, once, and not while it is active, and a state that
is not aliased is active in one group at most. -/
theorem partition_of_steady (kHandleTID0 : Bool) (n : ℕ) (as : List Arrival)
    (has : ∀ a ∈ as, a.InRange n)
    (honce : Run.Along (stepTracked kHandleTID0) (fun s a => SwitchedInOnce s.1 a.ev)
      (startTracked n) as)
    (hsteady : Run.Along (stepTracked kHandleTID0)
      (fun s a => ∀ sl, s.2 = .ok sl → Steady sl a.ev) (startTracked n) as) :
    Run.Throughout (stepTracked kHandleTID0)
      (fun s => ∃ sl, s.2 = .ok sl ∧ Partition kHandleTID0 sl) (startTracked n) as := by
  have hinv : Run.Throughout (stepTracked kHandleTID0) (fun s => ∃ sl, s.2 = .ok sl ∧
      Inv sl.lastTs sl ∧ Held s.1 sl ∧ sl.numGroups = n) (startTracked n) as := by
    refine Run.throughout_of_along (C := fun s a => a.InRange n ∧ SwitchedInOnce s.1 a.ev ∧
      ∀ sl, s.2 = .ok sl → Steady sl a.ev) ?_ ⟨init n, rfl, inv_init n, held_init n, rfl⟩ ?_
    · rintro s a ⟨sl, hsl, hinv, hheld, hn⟩ ⟨ha, ho, hs⟩
      rw [← hn] at ha
      obtain ⟨sl', heq, hheld'⟩ := processEvent_held hinv hheld ha ho (hs sl hsl)
      have hout := processEvent_outcome kHandleTID0 hinv ha
      rw [heq] at hout
      have hprocessed : Processed a.ev sl sl' := hout
      refine ⟨sl', ?_, hprocessed.inv, hheld', hprocessed.numGroups.trans hn⟩
      rw [stepTracked, hsl]
      exact heq
    · exact (Run.along_const.mpr has).and (honce.and hsteady)
  exact hinv.mono fun s ⟨sl, hsl, hinv, hheld, _⟩ => ⟨sl, hsl, hheld.partition hinv⟩

/-- A thread that is created, runs, stops and is gone. -/
def threadEvents : List Arrival :=
  [Arrival.clean ⟨0, .threadCreation, 0, 0, 5⟩, Arrival.clean ⟨1, .switchIn, 0, 0, 5⟩,
    Arrival.clean ⟨2, .switchOutYield, 0, 0, 0⟩, Arrival.clean ⟨3, .threadDestruction, 0, 0, 5⟩]

theorem partition_of_steady_threadEvents :
    Run.Throughout (stepTracked true) (fun s => ∃ sl, s.2 = .ok sl ∧ Partition true sl)
      (startTracked 1) threadEvents := by
  refine partition_of_steady true 1 threadEvents (by decide) ?_ ?_
  · exact ⟨switchedInOnce_of_not_in rfl, switchedInOnce_of_idle fun _ _ => rfl,
      switchedInOnce_of_not_in rfl, switchedInOnce_of_not_in rfl, trivial⟩
  · refine ⟨fun sl hsl => ?_, fun sl _ => ?_, fun sl _ => ?_, fun sl _ => ?_, trivial⟩
    · refine ⟨fun _ _ _ _ p hp => ?_, fun _ _ h => absurd rfl h, fun h => absurd h (by decide)⟩
      rw [← Except.ok.inj hsl] at hp
      exact absurd hp (by simp [findState, init])
    all_goals
      exact ⟨fun _ _ h => absurd h (by decide), fun _ _ h => absurd rfl h,
        fun h => absurd h (by decide)⟩

/-- The same thread, known to the slicer before it was switched in, and gone
before it was switched out. -/
def lateExitEvents : List Arrival :=
  [Arrival.clean ⟨0, .threadCreation, 0, 0, 5⟩, Arrival.clean ⟨1, .switchOutYield, 0, 0, 0⟩,
    Arrival.clean ⟨2, .switchIn, 0, 0, 5⟩, Arrival.clean ⟨3, .threadDestruction, 0, 0, 5⟩]

/-- **A thread identifier that is used again breaks the lists.**  If the thread
before it was switched out, its state is linked already.  If it was not, its state
is active and is put in the list all the same. -/
theorem threadReuse_links :
    (∀ a ∈ threadEvents ++ [Arrival.clean ⟨4, .threadCreation, 0, 0, 5⟩], a.InRange 1) ∧
    (∀ a ∈ lateExitEvents ++ [Arrival.clean ⟨4, .threadCreation, 0, 0, 5⟩], a.InRange 1) ∧
    Run.Along (stepTracked true) (fun s a => SwitchedInOnce s.1 a.ev) (startTracked 1)
      (threadEvents ++ [Arrival.clean ⟨4, .threadCreation, 0, 0, 5⟩]) ∧
    Run.Along (stepTracked true) (fun s a => SwitchedInOnce s.1 a.ev) (startTracked 1)
      (lateExitEvents ++ [Arrival.clean ⟨4, .threadCreation, 0, 0, 5⟩]) ∧
    processEvents true (init 1) (threadEvents ++ [Arrival.clean ⟨4, .threadCreation, 0, 0, 5⟩]) =
      .error .alreadyLinked ∧
    (processEvents true (init 1)
        (lateExitEvents ++ [Arrival.clean ⟨4, .threadCreation, 0, 0, 5⟩])).map
      (fun sl => (sl.dormantStates 5, sl.activeStates 0)) = .ok ([1], some 1) := by
  refine ⟨by decide, by decide, ?_, ?_, by rfl, by rfl⟩
  · exact ⟨switchedInOnce_of_not_in rfl, switchedInOnce_of_idle fun _ _ => rfl,
      switchedInOnce_of_not_in rfl, switchedInOnce_of_not_in rfl, switchedInOnce_of_not_in rfl,
      trivial⟩
  · exact ⟨switchedInOnce_of_not_in rfl, switchedInOnce_of_not_in rfl,
      switchedInOnce_of_idle fun _ hg => Function.update_of_ne hg _ _,
      switchedInOnce_of_not_in rfl, switchedInOnce_of_not_in rfl, trivial⟩

end Slicer
end Tagstack
end IntegratedCLI
