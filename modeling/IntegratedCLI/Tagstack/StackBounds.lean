import IntegratedCLI.Tagstack.ErrorWindows

/-!
# The bounds of the stacks that are used

What the slicer does with stacks while it handles an event, as a list of `StackUse`s, in the
order of the code.  `Stack` wants less than `kMaxNumLevels` set tags wherever one is made,
truncated or compared, so that the last entry of its array stays free.  The slicer only
checks that the level of an event is below `kMaxNumLevels`.

An event of the last level that pushes a tag makes a stack of `kMaxNumLevels` tags, and so
does one that pops a tag where nothing is active.  All other uses are in bounds
(`Filed.eventUses_iff`), in every state of a run (`stackUses_iff`).

A map compares a stack with those of the same hash.  Here it is compared with all of them,
and a dormant list is searched to its end.
-/

namespace IntegratedCLI
namespace Tagstack

/-- What is done with a stack. -/
inductive StackUse where
  /-- A stack of so many set tags is made. -/
  | make (numSetTags : ℕ)
  | truncate (numTagsToCopy : ℕ)
  | compare (numSetTags other : ℕ)
  /-- The tag at an index is read or written. -/
  | index (idx : ℕ)
  /-- The tags below an index are read or written. -/
  | below (idx : ℕ)
  deriving DecidableEq, Repr

def StackUse.InBounds : StackUse → Prop
  | .make numSetTags => numSetTags < kMaxNumLevels
  | .truncate numTagsToCopy => numTagsToCopy < kMaxNumLevels
  | .compare numSetTags other => numSetTags < kMaxNumLevels ∧ other < kMaxNumLevels
  | .index idx => idx < kMaxNumLevels
  | .below idx => idx ≤ kMaxNumLevels

instance : DecidablePred StackUse.InBounds
  | .make n => inferInstanceAs (Decidable (n < kMaxNumLevels))
  | .truncate n => inferInstanceAs (Decidable (n < kMaxNumLevels))
  | .compare n m => inferInstanceAs (Decidable (n < kMaxNumLevels ∧ m < kMaxNumLevels))
  | .index idx => inferInstanceAs (Decidable (idx < kMaxNumLevels))
  | .below idx => inferInstanceAs (Decidable (idx ≤ kMaxNumLevels))

def AllInBounds (uses : List StackUse) : Prop := ∀ use ∈ uses, use.InBounds

instance (uses : List StackUse) : Decidable (AllInBounds uses) :=
  inferInstanceAs (Decidable (∀ use ∈ uses, use.InBounds))

namespace Stack

def copyTruncatedUses (n : ℕ) : List StackUse := [.truncate n, .below n, .make n]

def copyFillUpToUses (idx : ℕ) : List StackUse := [.below idx, .index idx, .make (idx + 1)]

def compareUses (s other : Stack) : List StackUse :=
  [.compare s.numSetTags other.numSetTags, .below s.numSetTags]

def containsUses (self s : Stack) (numLevels : ℕ) : List StackUse :=
  if self.knownNumLevels != s.knownNumLevels || self.numSetTags < numLevels then []
  else [.below numLevels]

def isAliasedUses (s : Stack) : List StackUse := [.index 0, .below s.numSetTags]

end Stack

namespace Slicer

open Stack

/-! ## The uses of an event -/

/-- A stack that is looked up is hashed, and compared. -/
def findStateUses (sl : Slicer) (s : Stack) : List StackUse :=
  .below s.numSetTags :: sl.states.flatMap fun ss => compareUses ss.stats.stack s

/-- The state that is put into the map has the stack in it. -/
def emplaceStateUses (sl : Slicer) (s : Stack) : List StackUse :=
  .make s.numSetTags :: sl.findStateUses s

def createStackStateUses (sl : Slicer) (junk : ℕ → Tags) : ℕ → Stack → List StackUse
  | 0, s => sl.emplaceStateUses s
  | n + 1, s =>
    let parentStack := s.copyTruncated n s.knownNumLevels (junk n)
    copyTruncatedUses n ++ sl.findStateUses parentStack ++
      match sl.findState parentStack with
      | some _ => sl.emplaceStateUses s
      | none =>
        createStackStateUses sl junk n parentStack ++
          (sl.createStackState junk n parentStack).1.emplaceStateUses s

def activateStackStateExactMatchUses (sl : Slicer) (junk : ℕ → Tags) (newStack : Stack) :
    List StackUse :=
  sl.findStateUses newStack ++
    match sl.findState newStack with
    | none => sl.createStackStateUses junk newStack.numSetTags newStack
    | some p => compareUses (sl.state p).stats.stack newStack

def activateStackStateThatContainsUses (sl : Slicer) (kHandleTID0 : Bool) (junk : ℕ → Tags)
    (stack : Stack) (numLevels : ℕ) : List StackUse :=
  isAliasedUses stack ++
    if isAliased kHandleTID0 stack then []
    else if stack.numSetTags = 0 then []
    else
      .index 0 :: ((sl.dormantStates (stack.tagAt 0)).flatMap fun p =>
        containsUses (sl.state p).stats.stack stack numLevels) ++
      match (sl.dormantStates (stack.tagAt 0)).find?
          fun p => (sl.state p).stats.stack.contains stack numLevels with
      | some _ => []
      | none =>
        .make stack.numSetTags ::
          sl.activateStackStateExactMatchUses junk ⟨stack.tags, stack.numSetTags, false⟩

def handleThreadLifetimeUses (sl : Slicer) (ev : Event) (junk : ℕ → Tags) : List StackUse :=
  if ev.level ≠ 0 then []
  else if ev.type = .threadCreation then
    let s := Stack.ofThread ev.tag
    .make s.numSetTags :: sl.findStateUses s ++ sl.createStackStateUses junk s.numSetTags s ++
      [.index 0]
  else []

def handleLastStateUses (sl : Slicer) (kHandleTID0 : Bool) (ev : Event) : List StackUse :=
  match sl.activeStates ev.compUnitId with
  | none => []
  | some p =>
    isAliasedUses (sl.state p).stats.stack ++
      if isAliased kHandleTID0 (sl.state p).stats.stack then [] else [.index 0]

/-- The tag at the level of an event is read if it is set. -/
def eventInPreConditionUses (ev : Event) (lastStack : Stack) : List StackUse :=
  if ev.level < lastStack.numSetTags then [.index ev.level] else []

def activateNextUses (sl : Slicer) (kHandleTID0 : Bool) (ev : Event) (junk : ℕ → Tags)
    (lastStack : Stack) : List StackUse :=
  if ev.isOut then
    copyTruncatedUses ev.level ++
      sl.activateStackStateExactMatchUses junk
        (lastStack.copyTruncated ev.level true (junk ev.level))
  else
    let bottomStack := lastStack.copyFillUpTo ev.level ev.tag
      (lastStack.knownNumLevels || ev.isPhase) (junk (ev.level + 1))
    copyFillUpToUses ev.level ++ isAliasedUses bottomStack ++
      if isAliased kHandleTID0 bottomStack || ev.isPhase then
        sl.activateStackStateExactMatchUses junk bottomStack
      else
        sl.activateStackStateThatContainsUses kHandleTID0 junk bottomStack (ev.level + 1)

/-- An event that is refused prints the last stack. -/
def handleTransitionUses (sl : Slicer) (kHandleTID0 : Bool) (ev : Event) (junk : ℕ → Tags) :
    List StackUse :=
  sl.handleLastStateUses kHandleTID0 ev ++
    match sl.handleLastState kHandleTID0 ev with
    | .error _ => []
    | .ok sl' =>
      let lastStack := sl.lastStack ev
      .make lastStack.numSetTags ::
        if ev.isOut && eventOutPreConditionError ev lastStack then [.below lastStack.numSetTags]
        else if !ev.isOut && eventInPreConditionError ev lastStack then
          eventInPreConditionUses ev lastStack ++ [.below lastStack.numSetTags]
        else
          (if ev.isOut then [] else eventInPreConditionUses ev lastStack) ++
            sl'.activateNextUses kHandleTID0 ev junk lastStack

def processEventUses (kHandleTID0 : Bool) (sl : Slicer) (a : Arrival) : List StackUse :=
  if sl.numGroups ≤ a.ev.compUnitId then []
  else
    let sl := sl.handleOutOfOrder a.ev
    match sl.handleWriteErrors a.ev with
    | some _ => []
    | none =>
      if a.ev.isThreadLifetime then sl.handleThreadLifetimeUses a.ev a.junk
      else sl.handleTransitionUses kHandleTID0 a.ev a.junk

/-! ## Events that put a tag on the last entry -/

/-- Whether one of the checks on the last state of the event's group fails. -/
def lastStateFails (sl : Slicer) (kHandleTID0 : Bool) (ev : Event) : Bool :=
  match sl.activeStates ev.compUnitId with
  | none => false
  | some p =>
    let lastSwin := ((sl.state p).lastSwin ev.compUnitId).tstamp
    !isAliased kHandleTID0 (sl.state p).stats.stack && (sl.state p).isLinked ||
      ev.tstamp == kInvalidTimeStamp || lastSwin == kInvalidTimeStamp || decide (ev.tstamp < lastSwin)

/-- An event of the last level gets to its transition, and pushes a tag or pops one of a
stack that is not known. -/
structure Overflows (kHandleTID0 : Bool) (sl : Slicer) (a : Arrival) : Prop where
  level : a.ev.level + 1 = kMaxNumLevels
  group : a.ev.compUnitId < sl.numGroups
  type : a.ev.isThreadLifetime = false ∧ a.ev.type ≠ .writeErrorsEnd ∧
    a.ev.type ≠ .writeErrorsStart
  noErrors : sl.numActiveWriteErrors = 0
  completes : (sl.handleOutOfOrder a.ev).lastStateFails kHandleTID0 a.ev = false
  popsUnknown : a.ev.isOut = true →
    (sl.handleOutOfOrder a.ev).activeStates a.ev.compUnitId = none

/-! ## Uses in bounds -/

variable {sl : Slicer} {s t : Stack} {junk : ℕ → Tags} {kHandleTID0 : Bool} {ev : Event}
  {a : Arrival} {use : StackUse} {us vs : List StackUse} {n : ℕ}

@[simp] theorem allInBounds_nil : AllInBounds [] := fun _ h => nomatch h

@[simp] theorem allInBounds_cons :
    AllInBounds (use :: us) ↔ use.InBounds ∧ AllInBounds us := List.forall_mem_cons

@[simp] theorem allInBounds_append :
    AllInBounds (us ++ vs) ↔ AllInBounds us ∧ AllInBounds vs := List.forall_mem_append

theorem compareUses_inBounds (hs : s.numSetTags < kMaxNumLevels)
    (ht : t.numSetTags < kMaxNumLevels) : AllInBounds (compareUses s t) :=
  allInBounds_cons.mpr ⟨⟨hs, ht⟩, allInBounds_cons.mpr ⟨Nat.le_of_lt hs, allInBounds_nil⟩⟩

theorem isAliasedUses_inBounds (hs : s.numSetTags < kMaxNumLevels) :
    AllInBounds (isAliasedUses s) :=
  allInBounds_cons.mpr
    ⟨(by decide : 0 < kMaxNumLevels), allInBounds_cons.mpr ⟨Nat.le_of_lt hs, allInBounds_nil⟩⟩

theorem copyTruncatedUses_inBounds (hn : n < kMaxNumLevels) :
    AllInBounds (copyTruncatedUses n) := by
  rw [copyTruncatedUses, allInBounds_cons, allInBounds_cons, allInBounds_cons]
  exact ⟨hn, Nat.le_of_lt hn, hn, allInBounds_nil⟩

theorem copyFillUpToUses_inBounds (hn : n + 1 < kMaxNumLevels) :
    AllInBounds (copyFillUpToUses n) := by
  have hlt : n < kMaxNumLevels := Nat.lt_of_succ_lt hn
  rw [copyFillUpToUses, allInBounds_cons, allInBounds_cons, allInBounds_cons]
  exact ⟨Nat.le_of_lt hlt, hlt, hn, allInBounds_nil⟩

theorem containsUses_inBounds (hs : s.numSetTags < kMaxNumLevels) :
    AllInBounds (containsUses s t n) := by
  unfold containsUses
  split
  · exact allInBounds_nil
  · rename_i hcond
    have hle : ¬ s.numSetTags < n := by
      rw [Bool.or_eq_true, not_or, decide_eq_true_iff] at hcond
      exact hcond.2
    exact allInBounds_cons.mpr ⟨Nat.le_trans (Nat.le_of_not_lt hle) (Nat.le_of_lt hs),
      allInBounds_nil⟩

theorem Filed.findStateUses (h : Filed sl) (hs : s.numSetTags < kMaxNumLevels) :
    AllInBounds (sl.findStateUses s) := by
  refine allInBounds_cons.mpr ⟨Nat.le_of_lt hs, fun use huse => ?_⟩
  obtain ⟨ss, hss, huse⟩ := List.mem_flatMap.mp huse
  have hfits : ss.stats.stack.Fits := h.fits ss.entry (List.mem_map_of_mem hss)
  exact compareUses_inBounds hfits.numSetTags_lt hs use huse

theorem Filed.emplaceStateUses (h : Filed sl) (hs : s.numSetTags < kMaxNumLevels) :
    AllInBounds (sl.emplaceStateUses s) :=
  allInBounds_cons.mpr ⟨hs, h.findStateUses hs⟩

/-- The parents have less tags. -/
theorem Filed.createStackStateUses (h : Filed sl) (hjunk : ∀ n, (junk n).length = kMaxNumLevels)
    (hs : s.Fits) (hset : s.numSetTags = n) : AllInBounds (sl.createStackStateUses junk n s) := by
  induction n generalizing s with
  | zero => exact h.emplaceStateUses hs.numSetTags_lt
  | succ n ih =>
    have hlt := hs.numSetTags_lt
    have hn : n < kMaxNumLevels := by omega
    have hfits : (s.copyTruncated n s.knownNumLevels (junk n)).Fits :=
      fits_copyTruncated hs.length (hjunk n) hn
    rw [Slicer.createStackStateUses]
    refine allInBounds_append.mpr ⟨allInBounds_append.mpr
      ⟨copyTruncatedUses_inBounds hn, h.findStateUses hfits.numSetTags_lt⟩, ?_⟩
    split
    · exact h.emplaceStateUses hlt
    · have hcreated := h.createStackState hjunk hfits rfl
      exact allInBounds_append.mpr ⟨ih hfits rfl, hcreated.filed.emplaceStateUses hlt⟩

theorem Filed.activateStackStateExactMatchUses (h : Filed sl)
    (hjunk : ∀ n, (junk n).length = kMaxNumLevels) (hs : s.Fits) :
    AllInBounds (sl.activateStackStateExactMatchUses junk s) := by
  refine allInBounds_append.mpr ⟨h.findStateUses hs.numSetTags_lt, ?_⟩
  split
  · exact h.createStackStateUses hjunk hs rfl
  · rename_i p hfind
    have hfits := h.fits_state (findState_eq_some hfind).1
    exact compareUses_inBounds hfits.numSetTags_lt hs.numSetTags_lt

theorem Filed.activateStackStateThatContainsUses (h : Filed sl)
    (hjunk : ∀ n, (junk n).length = kMaxNumLevels) (hs : s.Fits) :
    AllInBounds (sl.activateStackStateThatContainsUses kHandleTID0 junk s n) := by
  refine allInBounds_append.mpr ⟨isAliasedUses_inBounds hs.numSetTags_lt, ?_⟩
  split
  · exact allInBounds_nil
  split
  · exact allInBounds_nil
  refine allInBounds_append.mpr ⟨allInBounds_cons.mpr
    ⟨(by decide : 0 < kMaxNumLevels), fun use huse => ?_⟩, ?_⟩
  · obtain ⟨p, hp, huse⟩ := List.mem_flatMap.mp huse
    have hfits := h.fits_state (h.dormant_lt _ p hp)
    exact containsUses_inBounds hfits.numSetTags_lt use huse
  · split
    · exact allInBounds_nil
    · exact allInBounds_cons.mpr ⟨hs.numSetTags_lt,
        h.activateStackStateExactMatchUses hjunk ⟨hs.length, hs.numSetTags_lt⟩⟩

theorem Filed.handleThreadLifetimeUses (h : Filed sl)
    (hjunk : ∀ n, (junk n).length = kMaxNumLevels) :
    AllInBounds (sl.handleThreadLifetimeUses ev junk) := by
  have hfits := fits_ofThread ev.tag
  unfold Slicer.handleThreadLifetimeUses
  split
  · exact allInBounds_nil
  split
  · refine allInBounds_append.mpr ⟨allInBounds_append.mpr ⟨allInBounds_cons.mpr
      ⟨hfits.numSetTags_lt, h.findStateUses hfits.numSetTags_lt⟩,
      h.createStackStateUses hjunk hfits rfl⟩, ?_⟩
    exact allInBounds_cons.mpr ⟨(by decide : 0 < kMaxNumLevels), allInBounds_nil⟩
  · exact allInBounds_nil

theorem Filed.handleLastStateUses (h : Filed sl) :
    AllInBounds (sl.handleLastStateUses kHandleTID0 ev) := by
  unfold Slicer.handleLastStateUses
  split
  · exact allInBounds_nil
  · rename_i p hp
    have hfits := h.fits_state (h.active_lt _ p hp)
    refine allInBounds_append.mpr ⟨isAliasedUses_inBounds hfits.numSetTags_lt, ?_⟩
    split
    · exact allInBounds_nil
    · exact allInBounds_cons.mpr ⟨(by decide : 0 < kMaxNumLevels), allInBounds_nil⟩

theorem eventInPreConditionUses_inBounds (hs : s.numSetTags ≤ kMaxNumLevels) :
    AllInBounds (eventInPreConditionUses ev s) := by
  unfold eventInPreConditionUses
  split
  · rename_i hlt
    exact allInBounds_cons.mpr ⟨Nat.lt_of_lt_of_le hlt hs, allInBounds_nil⟩
  · exact allInBounds_nil

theorem Filed.activateNextUses (h : Filed sl) (hroom : RoomAbove a.ev)
    (hlast : s.tags.length = kMaxNumLevels) :
    AllInBounds (sl.activateNextUses kHandleTID0 a.ev a.junk s) := by
  unfold Slicer.activateNextUses
  split
  · exact allInBounds_append.mpr ⟨copyTruncatedUses_inBounds hroom.1,
      h.activateStackStateExactMatchUses a.junk_length
        (fits_copyTruncated hlast (a.junk_length _) hroom.1)⟩
  · rename_i hout
    have hlevel := hroom.2 (eq_false_of_ne_true hout)
    have hfits : (s.copyFillUpTo a.ev.level a.ev.tag (s.knownNumLevels || a.ev.isPhase)
        (a.junk (a.ev.level + 1))).Fits := fits_copyFillUpTo hlast (a.junk_length _) hlevel
    refine allInBounds_append.mpr ⟨allInBounds_append.mpr
      ⟨copyFillUpToUses_inBounds hlevel, isAliasedUses_inBounds hfits.numSetTags_lt⟩, ?_⟩
    split
    · exact h.activateStackStateExactMatchUses a.junk_length hfits
    · exact h.activateStackStateThatContainsUses a.junk_length hfits

/-! ## The checks on the last state -/

variable {sl' : Slicer} {p g ts : ℕ} {ty : TransitionType}

theorem pushLast_error_iff : (∃ f, sl.pushLast kHandleTID0 p = .error f) ↔
    isAliased kHandleTID0 (sl.state p).stats.stack = false ∧ (sl.state p).isLinked = true := by
  unfold pushLast pushFront
  split
  · rename_i haliased
    rw [haliased]
    exact iff_of_false (fun ⟨_, h⟩ => nomatch h) fun h => nomatch h.1
  · rename_i haliased
    rw [and_iff_right (eq_false_of_ne_true haliased)]
    split
    · rename_i hlinked
      exact iff_of_true ⟨_, rfl⟩ hlinked
    · rename_i hlinked
      exact iff_of_false (fun ⟨_, h⟩ => nomatch h) hlinked

theorem completeSlice_error_iff (hactive : sl.activeStates g = some p) (hstates : sl.states ≠ []) :
    (∃ f, sl.completeSlice g ts ty = .error f) ↔
      ts = kInvalidTimeStamp ∨ ((sl.state p).lastSwin g).tstamp = kInvalidTimeStamp ∨
        ts < ((sl.state p).lastSwin g).tstamp := by
  unfold completeSlice TagStackState.markSwitchOut
  rw [hactive, if_neg hstates]
  dsimp only
  split
  · rename_i hts
    exact iff_of_true ⟨_, rfl⟩ (Or.inl hts)
  · rename_i hts
    rw [or_iff_right hts]
    split
    · rename_i hswin
      exact iff_of_true ⟨_, rfl⟩ (Or.inl hswin)
    · rename_i hswin
      rw [or_iff_right hswin]
      split
      · rename_i hlt
        exact iff_of_true ⟨_, rfl⟩ hlt
      · rename_i hlt
        exact iff_of_false (fun ⟨_, h⟩ => nomatch h) hlt

theorem Filed.handleLastState_error_iff (h : Filed sl) :
    (∃ f, sl.handleLastState kHandleTID0 ev = .error f) ↔
      sl.lastStateFails kHandleTID0 ev = true := by
  unfold lastStateFails
  cases hactive : sl.activeStates ev.compUnitId with
  | none =>
    rw [Slicer.handleLastState, hactive]
    exact iff_of_false (fun ⟨_, h⟩ => nomatch h) fun h => nomatch h
  | some p =>
    have hp := h.active_lt _ p hactive
    have heq : sl.handleLastState kHandleTID0 ev =
        match sl.pushLast kHandleTID0 p with
        | .error f => .error f
        | .ok sl =>
          match sl.completeSlice ev.compUnitId ev.tstamp (eventToTransitionType ev) with
          | .error f => .error f
          | .ok sl => .ok { sl with
              activeStates := Function.update sl.activeStates ev.compUnitId none } := by
      rw [Slicer.handleLastState, hactive]
      rfl
    have hpush : (∃ f, sl.pushLast kHandleTID0 p = .error f) ↔ _ := pushLast_error_iff
    dsimp only
    simp only [Bool.or_eq_true, Bool.and_eq_true, Bool.not_eq_true', decide_eq_true_iff, beq_iff_eq]
    rw [heq, ← hpush, or_assoc, or_assoc]
    cases hpushed : sl.pushLast kHandleTID0 p with
    | error f => exact iff_of_true ⟨f, rfl⟩ (Or.inl ⟨f, rfl⟩)
    | ok sl₁ =>
      have hsame : SameTimes sl sl₁ := by
        unfold pushLast at hpushed
        split at hpushed
        · rw [← Except.ok.inj hpushed]
          exact SameTimes.refl sl
        · exact sameTimes_pushFront hp hpushed
      have hstates : sl₁.states ≠ [] := by
        refine List.ne_nil_of_length_pos ?_
        rw [hsame.length]
        exact Nat.zero_lt_of_lt hp
      have hactive₁ := (congrFun hsame.activeStates ev.compUnitId).trans hactive
      have hcomplete : (∃ f, sl₁.completeSlice ev.compUnitId ev.tstamp
          (eventToTransitionType ev) = .error f) ↔ _ := completeSlice_error_iff hactive₁ hstates
      rw [hsame.lastSwin] at hcomplete
      rw [or_iff_right (fun ⟨_, h⟩ => nomatch h), ← hcomplete]
      dsimp only
      cases sl₁.completeSlice ev.compUnitId ev.tstamp (eventToTransitionType ev) with
      | error f => exact iff_of_true ⟨f, rfl⟩ ⟨f, rfl⟩
      | ok sl₂ => exact iff_of_false (fun ⟨_, h⟩ => nomatch h) fun ⟨_, h⟩ => nomatch h

/-! ## One event -/

theorem numSetTags_lastStack_lt (h : Filed sl) (hlevel : ev.level < kMaxNumLevels)
    (hover : ev.isOut = true → ev.level + 1 = kMaxNumLevels →
      sl.activeStates ev.compUnitId ≠ none) :
    (sl.lastStack ev).numSetTags < kMaxNumLevels := by
  unfold lastStack
  split
  · rename_i p hp
    exact (h.fits_state (h.active_lt _ p hp)).numSetTags_lt
  · rename_i hnone
    show ev.level + (if ev.isOut then 1 else 0) < kMaxNumLevels
    split
    · rename_i hout
      have hne : ev.level + 1 ≠ kMaxNumLevels := fun hlast => hover hout hlast hnone
      omega
    · exact hlevel

/-- Room is left unless a tag is put on the last entry. -/
theorem Filed.handleTransitionUses (h : Filed sl) (hroom : RoomAbove a.ev)
    (hlast : (sl.lastStack a.ev).numSetTags < kMaxNumLevels) :
    AllInBounds (sl.handleTransitionUses kHandleTID0 a.ev a.junk) := by
  refine allInBounds_append.mpr ⟨h.handleLastStateUses, ?_⟩
  cases hstate : sl.handleLastState kHandleTID0 a.ev with
  | error f => exact allInBounds_nil
  | ok sl₁ =>
    have hbelow : AllInBounds [StackUse.below (sl.lastStack a.ev).numSetTags] :=
      allInBounds_cons.mpr ⟨Nat.le_of_lt hlast, allInBounds_nil⟩
    have hcheck : AllInBounds (eventInPreConditionUses a.ev (sl.lastStack a.ev)) :=
      eventInPreConditionUses_inBounds (Nat.le_of_lt hlast)
    refine allInBounds_cons.mpr ⟨hlast, ?_⟩
    split
    · exact hbelow
    split
    · exact allInBounds_append.mpr ⟨hcheck, hbelow⟩
    · refine allInBounds_append.mpr ⟨?_,
        (h.handleLastState hstate).filed.activateNextUses hroom (h.length_lastStack a.ev)⟩
      split
      · exact allInBounds_nil
      · exact hcheck

/-- A stack of all the levels is made. -/
theorem not_handleTransitionUses (hlevel : a.ev.level + 1 = kMaxNumLevels)
    (hpops : a.ev.isOut = true → sl.activeStates a.ev.compUnitId = none) {sl₁ : Slicer}
    (hstate : sl.handleLastState kHandleTID0 a.ev = .ok sl₁) :
    ¬ AllInBounds (sl.handleTransitionUses kHandleTID0 a.ev a.junk) := by
  intro hall
  have hrest := (allInBounds_append.mp hall).2
  simp only [hstate] at hrest
  obtain ⟨hmake, hnext⟩ := allInBounds_cons.mp hrest
  have hlast : (sl.lastStack a.ev).numSetTags < kMaxNumLevels := hmake
  cases hout : a.ev.isOut with
  | true =>
    have hset : (sl.lastStack a.ev).numSetTags = a.ev.level + 1 := by
      rw [lastStack, hpops hout, hout]
      rfl
    omega
  | false =>
    have hpre : eventInPreConditionError a.ev (sl.lastStack a.ev) = false := by
      have hle : ¬ a.ev.level < (sl.lastStack a.ev).numSetTags := by omega
      rw [eventInPreConditionError, decide_eq_false hle, Bool.false_and]
    simp only [hout, hpre, Bool.false_and, Bool.and_false, Bool.false_eq_true, if_false] at hnext
    have huses := (allInBounds_append.mp hnext).2
    rw [activateNextUses, hout, if_neg Bool.false_ne_true] at huses
    have hfill := (allInBounds_append.mp (allInBounds_append.mp huses).1).1
    have hmade : a.ev.level + 1 < kMaxNumLevels := hfill (.make (a.ev.level + 1)) (by
      simp [copyFillUpToUses])
    omega

theorem handleOutOfOrder_numActiveWriteErrors (sl : Slicer) (ev : Event) :
    (sl.handleOutOfOrder ev).numActiveWriteErrors = sl.numActiveWriteErrors := by
  unfold handleOutOfOrder
  split <;> rfl

/-- **The uses of an event are in bounds** unless it overflows. -/
theorem Filed.processEventUses_iff (h : Filed sl) (hlevel : a.ev.level < kMaxNumLevels) :
    AllInBounds (sl.processEventUses kHandleTID0 a) ↔ ¬ sl.Overflows kHandleTID0 a := by
  have horder := (h.handleOutOfOrder a.ev).filed
  have herrors := handleOutOfOrder_numActiveWriteErrors sl a.ev
  constructor
  · intro hall hover
    have hquiet : (sl.handleOutOfOrder a.ev).handleWriteErrors a.ev = none :=
      handleWriteErrors_eq_none.mpr ⟨hover.type.2.1, hover.type.2.2, herrors.trans hover.noErrors⟩
    have huses : sl.processEventUses kHandleTID0 a =
        (sl.handleOutOfOrder a.ev).handleTransitionUses kHandleTID0 a.ev a.junk := by
      rw [processEventUses, if_neg (Nat.not_le.mpr hover.group)]
      dsimp only
      rw [hquiet]
      dsimp only
      rw [hover.type.1, if_neg Bool.false_ne_true]
    rw [huses] at hall
    cases hstate : (sl.handleOutOfOrder a.ev).handleLastState kHandleTID0 a.ev with
    | error f =>
      have hfails := horder.handleLastState_error_iff.mp ⟨f, hstate⟩
      rw [hover.completes] at hfails
      cases hfails
    | ok sl₁ => exact not_handleTransitionUses hover.level hover.popsUnknown hstate hall
  · intro hno
    unfold processEventUses
    split
    · exact allInBounds_nil
    rename_i hgroup
    dsimp only
    split
    · exact allInBounds_nil
    rename_i hquiet
    split
    · exact horder.handleThreadLifetimeUses a.junk_length
    rename_i htype
    obtain ⟨hend, hstart, hzero⟩ := handleWriteErrors_eq_none.mp hquiet
    cases hfails : (sl.handleOutOfOrder a.ev).lastStateFails kHandleTID0 a.ev with
    | true =>
      obtain ⟨f, hf⟩ := horder.handleLastState_error_iff.mpr hfails
      unfold Slicer.handleTransitionUses
      rw [hf]
      exact allInBounds_append.mpr ⟨horder.handleLastStateUses, allInBounds_nil⟩
    | false =>
      have hpops : a.ev.level + 1 = kMaxNumLevels →
          ¬ (a.ev.isOut = true →
            (sl.handleOutOfOrder a.ev).activeStates a.ev.compUnitId = none) :=
        fun hlast hnone => hno ⟨hlast, Nat.lt_of_not_le hgroup,
          ⟨eq_false_of_ne_true htype, hend, hstart⟩, herrors.symm.trans hzero, hfails, hnone⟩
      refine horder.handleTransitionUses ⟨hlevel, fun hout => ?_⟩
        (numSetTags_lastStack_lt horder hlevel fun _ hlast hnone => hpops hlast fun _ => hnone)
      have hne : a.ev.level + 1 ≠ kMaxNumLevels := by
        intro hlast
        refine hpops hlast fun htrue => ?_
        rw [hout] at htrue
        cases htrue
      omega

/-- Events that do not overflow keep the registry in order. -/
theorem Filed.processEvent_of_not_overflows (h : Filed sl) (hlevel : a.ev.level < kMaxNumLevels)
    (hno : ¬ sl.Overflows kHandleTID0 a) (heq : sl.processEvent kHandleTID0 a = .ok sl') :
    Filed sl' := by
  have horder := (h.handleOutOfOrder a.ev).filed
  have herrors := handleOutOfOrder_numActiveWriteErrors sl a.ev
  refine (h.processEvent_of_room (fun hquiet htype hstate => ⟨hlevel, fun hout => ?_⟩) heq).filed
  obtain ⟨hend, hstart, hzero⟩ := handleWriteErrors_eq_none.mp hquiet
  have hcompletes : (sl.handleOutOfOrder a.ev).lastStateFails kHandleTID0 a.ev = false := by
    refine eq_false_of_ne_true fun hfails => ?_
    obtain ⟨f, hf⟩ := horder.handleLastState_error_iff.mpr hfails
    exact hstate f hf
  have hgroup : a.ev.compUnitId < sl.numGroups := (processEvent_windows heq).2.2
  have hne : a.ev.level + 1 ≠ kMaxNumLevels := by
    intro hlast
    refine hno ⟨hlast, hgroup, ⟨htype, hend, hstart⟩, herrors.symm.trans hzero, hcompletes, ?_⟩
    intro htrue
    rw [hout] at htrue
    cases htrue
  omega

/-! ## Runs -/

/-- The events that a call handles, each with the slicer that it arrives at. -/
def processNextSteps (kHandleTID0 : Bool) (stopTs : ℕ) :
    ℕ → List Arrival × Slicer → List (Slicer × Arrival)
  | 0, _ => []
  | _ + 1, ([], _) => []
  | maxNumEvents + 1, (a :: events, sl) =>
    if stopTs < a.ev.tstamp then []
    else
      (sl, a) ::
        match sl.processEvent kHandleTID0 a with
        | .error _ => []
        | .ok sl' => processNextSteps kHandleTID0 stopTs maxNumEvents (events, sl')

def Op.steps (kHandleTID0 : Bool) (s : List Arrival × Slicer) : Op → List (Slicer × Arrival)
  | .processNext maxNumEvents stopTs => processNextSteps kHandleTID0 stopTs maxNumEvents s
  | _ => []

def steps (kHandleTID0 : Bool) : List Arrival × Slicer → List Op → List (Slicer × Arrival)
  | _, [] => []
  | s, op :: ops =>
    op.steps kHandleTID0 s ++
      match op.apply kHandleTID0 s with
      | .error _ => []
      | .ok s' => steps kHandleTID0 s' ops

/-- The slicer is in order, and the queued events are at their levels. -/
structure Queueing (s : List Arrival × Slicer) : Prop where
  filed : Filed s.2
  level : ∀ a ∈ s.1, a.ev.level < kMaxNumLevels

/-- A step that does not overflow, for one reason or the other. -/
def Sound (kHandleTID0 : Bool) (P : Slicer × Arrival → Prop) : Prop :=
  ∀ step : Slicer × Arrival, Filed step.1 → step.2.ev.level < kMaxNumLevels → P step →
    ¬ step.1.Overflows kHandleTID0 step.2

variable {P : Slicer × Arrival → Prop} {s s' : List Arrival × Slicer} {ops : List Op}

theorem Queueing.processNext (hP : Sound kHandleTID0 P) (stopTs : ℕ) (h : Queueing s)
    (hall : ∀ step ∈ processNextSteps kHandleTID0 stopTs n s, P step) :
    (∀ step ∈ processNextSteps kHandleTID0 stopTs n s,
      Filed step.1 ∧ step.2.ev.level < kMaxNumLevels) ∧
    ∀ s', Slicer.processNext kHandleTID0 stopTs n s = .ok s' → Queueing s' := by
  have hidle : ∀ s', Except.ok s = (Except.ok s' : Except Fault _) → Queueing s' :=
    fun s' hs' => Except.ok.inj hs' ▸ h
  induction n generalizing s with
  | zero => exact ⟨List.forall_mem_nil _, hidle⟩
  | succ n ih =>
    obtain ⟨as, sl⟩ := s
    cases as with
    | nil => exact ⟨List.forall_mem_nil _, hidle⟩
    | cons a as =>
      rw [processNextSteps] at hall ⊢
      rw [Slicer.processNext]
      by_cases hstop : stopTs < a.ev.tstamp
      · rw [if_pos hstop, if_pos hstop]
        exact ⟨List.forall_mem_nil _, hidle⟩
      · rw [if_neg hstop] at hall ⊢
        rw [if_neg hstop]
        obtain ⟨hfirst, hrest⟩ := List.forall_mem_cons.mp hall
        have hlevel := h.level a List.mem_cons_self
        cases hev : sl.processEvent kHandleTID0 a with
        | error f =>
          exact ⟨List.forall_mem_cons.mpr ⟨⟨h.filed, hlevel⟩, List.forall_mem_nil _⟩,
            fun _ hs' => by cases hs'⟩
        | ok sl₁ =>
          simp only [hev] at hrest
          have hnext : Queueing (as, sl₁) :=
            ⟨h.filed.processEvent_of_not_overflows hlevel (hP (sl, a) h.filed hlevel hfirst) hev,
              fun b hb => h.level b (List.mem_cons_of_mem a hb)⟩
          obtain ⟨hsteps, hend⟩ := ih hnext hrest fun s' hs' => Except.ok.inj hs' ▸ hnext
          exact ⟨List.forall_mem_cons.mpr ⟨⟨h.filed, hlevel⟩, hsteps⟩, hend⟩

theorem Queueing.apply (hP : Sound kHandleTID0 P) {op : Op} (h : Queueing s)
    (hlevel : ∀ a ∈ arrivals [op], a.ev.level < kMaxNumLevels)
    (hall : ∀ step ∈ op.steps kHandleTID0 s, P step) :
    (∀ step ∈ op.steps kHandleTID0 s, Filed step.1 ∧ step.2.ev.level < kMaxNumLevels) ∧
    ∀ s', op.apply kHandleTID0 s = .ok s' → Queueing s' := by
  cases op with
  | arrive as =>
    refine ⟨List.forall_mem_nil _, fun s' hs' => ?_⟩
    rw [← Except.ok.inj hs']
    refine ⟨h.filed, fun a ha => ?_⟩
    exact (List.mem_append.mp ha).elim (h.level a) fun ha => hlevel a (by simp [arrivals, ha])
  | processNext maxNumEvents stopTs => exact h.processNext hP stopTs hall
  | relink hook dormant =>
    refine ⟨List.forall_mem_nil _, fun s' hs' => ?_⟩
    rw [← Except.ok.inj hs']
    exact ⟨(h.filed.relinked hook dormant).filed, h.level⟩

/-- Up to the first step that overflows the registry is in order. -/
theorem Queueing.run (hP : Sound kHandleTID0 P) (h : Queueing s)
    (hlevel : ∀ a ∈ arrivals ops, a.ev.level < kMaxNumLevels)
    (hall : ∀ step ∈ steps kHandleTID0 s ops, P step) :
    ∀ step ∈ steps kHandleTID0 s ops, Filed step.1 ∧ step.2.ev.level < kMaxNumLevels := by
  induction ops generalizing s with
  | nil => exact List.forall_mem_nil _
  | cons op ops ih =>
    have hcons : arrivals (op :: ops) = arrivals [op] ++ arrivals ops := by simp [arrivals]
    rw [hcons] at hlevel
    obtain ⟨hlevel₁, hlevel₂⟩ := List.forall_mem_append.mp hlevel
    rw [steps] at hall ⊢
    obtain ⟨hfirst, hrest⟩ := List.forall_mem_append.mp hall
    obtain ⟨hsteps, hnext⟩ := h.apply hP hlevel₁ hfirst
    refine List.forall_mem_append.mpr ⟨hsteps, ?_⟩
    cases hop : op.apply kHandleTID0 s with
    | error f => exact List.forall_mem_nil _
    | ok s₁ =>
      simp only [hop] at hrest
      exact ih (hnext s₁ hop) hlevel₂ hrest

/-- **All stacks stay in their bounds** just in the runs in which no event overflows. -/
theorem stackUses_iff (kHandleTID0 : Bool) (numGroups : ℕ) (ops : List Op)
    (hlevel : ∀ a ∈ arrivals ops, a.ev.level < kMaxNumLevels) :
    (∀ step ∈ steps kHandleTID0 ([], init numGroups) ops,
      AllInBounds (step.1.processEventUses kHandleTID0 step.2)) ↔
    ∀ step ∈ steps kHandleTID0 ([], init numGroups) ops,
      ¬ step.1.Overflows kHandleTID0 step.2 := by
  have hstart : Queueing ([], init numGroups) := ⟨filed_init numGroups, fun _ ha => nomatch ha⟩
  constructor
  · intro hall step hstep
    obtain ⟨hfiled, hlow⟩ := hstart.run (fun _ hfiled hlow => (hfiled.processEventUses_iff hlow).mp)
      hlevel hall step hstep
    exact (hfiled.processEventUses_iff hlow).mp (hall step hstep)
  · intro hno step hstep
    obtain ⟨hfiled, hlow⟩ := hstart.run (fun _ _ _ hno => hno) hlevel hno step hstep
    exact (hfiled.processEventUses_iff hlow).mpr (hno step hstep)

/-- A thread that comes in, a tag on the last level but one, and a pop on the last level. -/
def deepEvents : List Op :=
  [.arrive [.clean ⟨1, .switchIn, 0, 0, 7⟩, .clean ⟨2, .start, 4, 0, 8⟩, .clean ⟨3, .end, 5, 0, 8⟩],
    .processNext 3 10]

theorem stackUses_deep :
    (∀ step ∈ steps false ([], init 1) deepEvents,
      AllInBounds (step.1.processEventUses false step.2)) ↔
    ∀ step ∈ steps false ([], init 1) deepEvents, ¬ step.1.Overflows false step.2 :=
  stackUses_iff false 1 deepEvents (by decide)

/-- A tag on the last level, which is below the bound that is checked. -/
def deepestEvents : List Op := [.arrive [.clean ⟨1, .start, 5, 0, 7⟩], .processNext 1 10]

/-- The stack of six tags that is made for it is out of bounds. -/
theorem not_stackUses_deepest :
    (∀ a ∈ arrivals deepestEvents, a.ev.level < kMaxNumLevels) ∧
      ¬ ∀ step ∈ steps false ([], init 1) deepestEvents,
        AllInBounds (step.1.processEventUses false step.2) := by
  decide

example : ∀ step ∈ steps false ([], init 1) deepEvents,
    AllInBounds (step.1.processEventUses false step.2) := by decide +kernel

end Slicer

end Tagstack
end IntegratedCLI
