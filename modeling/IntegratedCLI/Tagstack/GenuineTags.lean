import Mathlib.Data.List.GetD
import IntegratedCLI.Lib.Run
import IntegratedCLI.Tagstack.StackIds

/-!
# Where the tags of a stack come from

A stack is made by copying the lowest tags of another one into an array that is not
initialized, and the tags above them are what the memory held.  A push or a pop at a level
above the tags that are set copies them as if they were set.

`Genuine seen s` says that the set tags of the stack `s` are unknown or among `seen`, the
tags of the events so far.  `Built sl a` are the stacks that are made, looked up or
compared while an event is handled, and `Makes G` says of a part of the slicer that every
stack it adds to the states is in `G`.

A stack that is active stands for what is known of its unit.  `Reaches` says that an event
is at a level that it reaches, where there is one to push on or pop from.  In a run of
such events every tag is genuine (`tags_genuine`); an event at a higher level shows a tag
that no event had (`not_tags_genuine`).
-/

namespace IntegratedCLI
namespace Tagstack

/-! ## Genuine stacks -/

namespace Stack

/-- The set tags are unknown, or in `seen`. -/
def Genuine (seen : ℕ → Prop) (s : Stack) : Prop :=
  ∀ i < s.numSetTags, s.tagAt i = kNA ∨ seen (s.tagAt i)

variable {seen seen' : ℕ → Prop} {s : Stack} {n tag : ℕ} {known : Bool} {junk : Tags}

theorem Genuine.mono (h : s.Genuine seen) (hle : ∀ t, seen t → seen' t) : s.Genuine seen' :=
  fun i hi => (h i hi).imp id (hle _)

theorem tagAt_copyTruncated (hn : n ≤ s.tags.length) {i : ℕ} (hi : i < n) :
    (s.copyTruncated n known junk).tagAt i = s.tagAt i := by
  have hlen : i < (s.tags.take n).length := by
    rw [List.length_take]
    omega
  rw [tagAt, tagAt, copyTruncated, List.getD_append _ _ _ _ hlen, List.getD_eq_getElem?_getD,
    List.getD_eq_getElem?_getD, List.getElem?_take_of_lt hi]

theorem tagAt_copyFillUpTo_of_lt (hn : n ≤ s.tags.length) {i : ℕ} (hi : i < n) :
    (s.copyFillUpTo n tag known junk).tagAt i = s.tagAt i := by
  have hlen : i < (s.tags.take n).length := by
    rw [List.length_take]
    omega
  rw [tagAt, tagAt, copyFillUpTo, List.getD_append _ _ _ _ hlen, List.getD_eq_getElem?_getD,
    List.getD_eq_getElem?_getD, List.getElem?_take_of_lt hi]

theorem tagAt_copyFillUpTo_self (hn : n ≤ s.tags.length) :
    (s.copyFillUpTo n tag known junk).tagAt n = tag := by
  have hlen : (s.tags.take n).length = n := by
    rw [List.length_take]
    omega
  rw [tagAt, copyFillUpTo, List.getD_append_right _ _ _ _ hlen.le, hlen, Nat.sub_self,
    List.getD_cons_zero]

/-- The tags that are copied are set in a stack that reaches up to them. -/
theorem Genuine.copyTruncated (h : s.Genuine seen) (hs : s.tags.length = kMaxNumLevels)
    (hset : s.numSetTags ≤ kMaxNumLevels) (hn : n ≤ s.numSetTags) :
    (s.copyTruncated n known junk).Genuine seen := by
  intro i hi
  have hi' : i < n := hi
  rw [tagAt_copyTruncated (by omega) hi']
  exact h i (by omega)

theorem Genuine.copyFillUpTo (h : s.Genuine seen) (hs : s.tags.length = kMaxNumLevels)
    (hset : s.numSetTags ≤ kMaxNumLevels) (hn : n ≤ s.numSetTags) (htag : seen tag) :
    (s.copyFillUpTo n tag known junk).Genuine seen := by
  intro i hi
  have hi' : i < n + 1 := hi
  rcases Nat.lt_succ_iff_lt_or_eq.mp hi' with hi' | rfl
  · rw [tagAt_copyFillUpTo_of_lt (by omega) hi']
    exact h i (by omega)
  · rw [tagAt_copyFillUpTo_self (by omega)]
    exact Or.inr htag

theorem genuine_ofLevels (hn : n ≤ kMaxNumLevels) : (ofLevels n known).Genuine seen := by
  intro i hi
  have hi' : i < n := hi
  refine Or.inl ?_
  rw [tagAt, ofLevels, makeNaTags, List.getD_eq_getElem?_getD,
    List.getElem?_replicate_of_lt (by omega), Option.getD_some]

theorem genuine_ofThread (htag : seen tag) : (ofThread tag).Genuine seen := by
  intro i hi
  obtain rfl : i = 0 := Nat.lt_one_iff.mp hi
  exact Or.inr htag

end Stack

/-! ## What the slicer makes -/

namespace Slicer

open Stack (Genuine)

/-- The stacks of the states. -/
def stackList (sl : Slicer) : List Stack := sl.states.map fun ss => ss.stats.stack

/-- A part of the slicer that adds no other stacks than those in `G`, and leaves the error
windows alone. -/
structure Makes (G : Stack → Prop) (sl sl' : Slicer) : Prop where
  made : ∀ s ∈ sl'.stackList, s ∈ sl.stackList ∨ G s
  numActiveWriteErrors : sl'.numActiveWriteErrors = sl.numActiveWriteErrors
  numGroups : sl'.numGroups = sl.numGroups

/-- A stack is in `G` with the parents that are made of it. -/
def Closed (junk : ℕ → Tags) (G : Stack → Prop) : Prop :=
  ∀ s, G s → ∀ n < s.numSetTags, G (s.copyTruncated n s.knownNumLevels (junk n))

variable {G : Stack → Prop} {sl sl' sl'' : Slicer} {p g ts : ℕ} {ty : TransitionType}
  {junk : ℕ → Tags} {s : Stack} {kHandleTID0 : Bool} {ev : Event}

namespace Makes

theorem of_eq (hstacks : sl'.stackList = sl.stackList)
    (herrors : sl'.numActiveWriteErrors = sl.numActiveWriteErrors)
    (hgroups : sl'.numGroups = sl.numGroups) : Makes G sl sl' :=
  ⟨fun _ hs => Or.inl (hstacks ▸ hs), herrors, hgroups⟩

theorem refl (sl : Slicer) : Makes G sl sl := of_eq rfl rfl rfl

theorem trans (h : Makes G sl sl') (h' : Makes G sl' sl'') : Makes G sl sl'' :=
  ⟨fun s hs => (h'.made s hs).elim (h.made s) Or.inr,
    h'.numActiveWriteErrors.trans h.numActiveWriteErrors, h'.numGroups.trans h.numGroups⟩

end Makes

theorem stacks_setState {ss : TagStackState} (h : ss.stats.stack = (sl.state p).stats.stack) :
    (sl.setState p ss).stackList = sl.stackList := by
  rw [stackList, setState, stackList, List.map_set, h]
  by_cases hp : p < sl.states.length
  · refine List.ext_getElem (by simp) fun i hi hi' => ?_
    rw [List.getElem_set]
    split
    · rename_i heq
      simp [← heq, state, List.getD_eq_getElem?_getD, hp]
    · rfl
  · exact List.set_eq_of_length_le (by simpa using hp)

theorem makes_unlink (p : ℕ) : Makes G sl (sl.unlink p) := by
  unfold unlink
  split
  · exact .refl sl
  · exact .of_eq (stacks_setState rfl) rfl rfl

theorem makes_pushFront {tag : ℕ} (h : sl.pushFront tag p = .ok sl') : Makes G sl sl' := by
  unfold pushFront at h
  split_ifs at h
  rw [← Except.ok.inj h]
  exact .of_eq (stacks_setState rfl) rfl rfl

theorem makes_activateStackState (h : sl.activateStackState g p ts ty = .ok sl') :
    Makes G sl sl' := by
  unfold activateStackState at h
  split at h
  · cases h
  · split at h
    · cases h
    · rename_i ss hmark
      unfold TagStackState.markSwitchIn at hmark
      split_ifs at hmark
      rw [← Except.ok.inj h, ← Except.ok.inj hmark]
      exact .of_eq (stacks_setState rfl) rfl rfl

theorem makes_completeSlice (h : sl.completeSlice g ts ty = .ok sl') : Makes G sl sl' := by
  unfold completeSlice TagStackState.markSwitchOut at h
  split_ifs at h
  split at h
  · cases h
  · dsimp only at h
    split_ifs at h
    all_goals
      rw [← Except.ok.inj h]
      exact .of_eq (stacks_setState rfl) rfl rfl

theorem makes_emplaceState (parentSid : ℕ) (hs : G s) :
    Makes G sl (sl.emplaceState parentSid s).1 := by
  unfold emplaceState
  split
  · exact .of_eq rfl rfl rfl
  · refine ⟨fun t ht => ?_, rfl, rfl⟩
    rw [stackList, List.map_append, List.mem_append] at ht
    refine ht.imp id fun ht => ?_
    rw [List.map_singleton, List.mem_singleton] at ht
    exact ht ▸ hs

/-- The parents are made by recursion on the number of tags. -/
theorem makes_createStackState (hG : Closed junk G) {n : ℕ} (hs : G s) (hn : s.numSetTags = n) :
    Makes G sl (sl.createStackState junk n s).1 := by
  induction n generalizing s with
  | zero => exact makes_emplaceState _ hs
  | succ n ih =>
    have hparent : G (s.copyTruncated n s.knownNumLevels (junk n)) := hG s hs n (by omega)
    rw [createStackState]
    dsimp only
    split
    · exact makes_emplaceState _ hs
    · exact (ih hparent rfl).trans (makes_emplaceState _ hs)

theorem makes_activateStackStateExactMatch (hG : Closed junk G) (hs : G s)
    (h : sl.activateStackStateExactMatch junk g s ts ty = .ok sl') : Makes G sl sl' := by
  unfold activateStackStateExactMatch at h
  split at h
  · exact (makes_createStackState hG hs rfl).trans (makes_activateStackState h)
  · exact (makes_unlink _).trans (makes_activateStackState h)

theorem makes_activateStackStateThatContains {numLevels : ℕ} (hG : Closed junk G)
    (hs : G ⟨s.tags, s.numSetTags, false⟩)
    (h : sl.activateStackStateThatContains kHandleTID0 junk g s numLevels ts ty = .ok sl') :
    Makes G sl sl' := by
  unfold activateStackStateThatContains at h
  split_ifs at h
  split at h
  · exact (makes_unlink _).trans (makes_activateStackState h)
  · exact makes_activateStackStateExactMatch hG hs h

theorem makes_resetState (sl : Slicer) : Makes G sl sl.resetState := by
  refine .of_eq ?_ rfl rfl
  rw [stackList, resetState, stackList, List.map_map]
  rfl

theorem makes_handleOutOfOrder (sl : Slicer) (ev : Event) : Makes G sl (sl.handleOutOfOrder ev) := by
  unfold handleOutOfOrder
  split
  · exact (makes_resetState sl).trans (.of_eq rfl rfl rfl)
  · exact .refl sl

theorem makes_handleLastState (h : sl.handleLastState kHandleTID0 ev = .ok sl') :
    Makes G sl sl' := by
  unfold handleLastState at h
  split at h
  · rw [← Except.ok.inj h]
    exact .refl sl
  · dsimp only at h
    split at h
    · cases h
    · rename_i pushed hpushed
      have hpush : Makes G sl pushed := by
        split_ifs at hpushed
        · rw [← Except.ok.inj hpushed]
          exact .refl sl
        · exact makes_pushFront hpushed
      split at h
      · cases h
      · rename_i completed hcompleted
        rw [← Except.ok.inj h]
        exact (hpush.trans (makes_completeSlice hcompleted)).trans (.of_eq rfl rfl rfl)

/-! ## The stacks of an event -/

/-- The stacks that are made, looked up or compared for an event that is not dropped.  A
stack is looked up with its parents, and under another number of known levels. -/
inductive Built (sl : Slicer) (a : Arrival) : Stack → Prop
  | thread (htype : a.ev.type = .threadCreation) (hlevel : a.ev.level = 0) :
      Built sl a (.ofThread a.ev.tag)
  | last (htype : a.ev.isThreadLifetime = false) : Built sl a (sl.lastStack a.ev)
  | popped (htype : a.ev.isThreadLifetime = false) (hout : a.ev.isOut = true)
      (hpre : eventOutPreConditionError a.ev (sl.lastStack a.ev) = false) :
      Built sl a ((sl.lastStack a.ev).copyTruncated a.ev.level true (a.junk a.ev.level))
  | pushed (htype : a.ev.isThreadLifetime = false) (hout : a.ev.isOut = false)
      (hpre : eventInPreConditionError a.ev (sl.lastStack a.ev) = false) :
      Built sl a ((sl.lastStack a.ev).copyFillUpTo a.ev.level a.ev.tag
        ((sl.lastStack a.ev).knownNumLevels || a.ev.isPhase) (a.junk (a.ev.level + 1)))
  | unknown {s : Stack} (h : Built sl a s) : Built sl a ⟨s.tags, s.numSetTags, false⟩
  | parent {s : Stack} (h : Built sl a s) {n : ℕ} (hn : n < s.numSetTags) :
      Built sl a (s.copyTruncated n s.knownNumLevels (a.junk n))

variable {a : Arrival}

theorem closed_built : Closed a.junk (Built sl a) := fun _ hs _ hn => hs.parent hn

theorem makes_handleThreadLifetime
    (h : sl.handleThreadLifetime a.ev a.junk = some (.ok sl')) : Makes (Built sl a) sl sl' := by
  unfold handleThreadLifetime at h
  split_ifs at h with _ hlevel htype
  · rw [← Except.ok.inj (Option.some.inj h)]
    exact .of_eq rfl rfl rfl
  · dsimp only at h
    split at h
    · cases h
    · rename_i pushed hpushed
      rw [← Except.ok.inj (Option.some.inj h)]
      have hmade : Makes (Built sl a) sl (sl.createStackState a.junk 1 (.ofThread a.ev.tag)).1 :=
        makes_createStackState closed_built (.thread htype (not_not.mp hlevel)) rfl
      exact (hmade.trans (makes_pushFront hpushed)).trans (.of_eq rfl rfl rfl)
  · rw [← Except.ok.inj (Option.some.inj h)]
    exact .of_eq rfl rfl rfl

theorem makes_activateNext {sl₁ sl₂ : Slicer} (htype : a.ev.isThreadLifetime = false)
    (hout : ¬ (a.ev.isOut && eventOutPreConditionError a.ev (sl.lastStack a.ev)) = true)
    (hin : ¬ (!a.ev.isOut && eventInPreConditionError a.ev (sl.lastStack a.ev)) = true)
    (h : sl₁.activateNext kHandleTID0 a.ev a.junk (sl.lastStack a.ev) = .ok sl₂) :
    Makes (Built sl a) sl₁ sl₂ := by
  unfold activateNext at h
  dsimp only at h
  by_cases hpop : a.ev.isOut = true
  · rw [if_pos hpop] at h
    exact makes_activateStackStateExactMatch closed_built
      (.popped htype hpop (by simpa [hpop] using hout)) h
  · have hpush : a.ev.isOut = false := by simpa using hpop
    have hbuilt : Built sl a _ := .pushed htype hpush (by simpa [hpush] using hin)
    rw [if_neg hpop] at h
    split_ifs at h
    · exact makes_activateStackStateExactMatch closed_built hbuilt h
    · exact makes_activateStackStateThatContains closed_built hbuilt.unknown h

theorem makes_handleTransition (htype : a.ev.isThreadLifetime = false)
    (h : sl.handleTransition kHandleTID0 a.ev a.junk = .ok sl') : Makes (Built sl a) sl sl' := by
  unfold handleTransition at h
  split at h
  · cases h
  · rename_i sl₁ hlast
    have hmade : Makes (Built sl a) sl sl₁ := makes_handleLastState hlast
    have hhandled : Makes (Built sl a) sl (sl₁.handled a.ev) := hmade.trans (.of_eq rfl rfl rfl)
    have hreset : Makes (Built sl a) sl (sl₁.handled a.ev).resetState :=
      hhandled.trans (makes_resetState _)
    dsimp only at h
    split_ifs at h with hout hin
    · rw [← Except.ok.inj h]
      exact hreset.trans (.of_eq rfl rfl rfl)
    · rw [← Except.ok.inj h]
      exact hreset
    · split at h
      · cases h
      · rename_i sl₂ hnext
        rw [← Except.ok.inj h]
        have hnext : Makes (Built sl a) sl sl₂ :=
          hmade.trans (makes_activateNext htype hout hin hnext)
        exact hnext.trans (.of_eq rfl rfl rfl)

/-- What an event adds to the states, and to the error windows if it is none of theirs. -/
theorem makes_processEvent
    (hquiet : (sl.handleOutOfOrder a.ev).handleWriteErrors a.ev = none)
    (h : sl.processEvent kHandleTID0 a = .ok sl') :
    Makes (Built (sl.handleOutOfOrder a.ev) a) sl sl' := by
  unfold processEvent at h
  split_ifs at h
  dsimp only at h
  rw [hquiet] at h
  refine (makes_handleOutOfOrder sl a.ev).trans ?_
  cases hthread : (sl.handleOutOfOrder a.ev).handleThreadLifetime a.ev a.junk with
  | some r =>
    rw [hthread] at h
    dsimp only at h
    rw [h] at hthread
    exact makes_handleThreadLifetime hthread
  | none =>
    rw [hthread] at h
    refine makes_handleTransition ?_ h
    unfold handleThreadLifetime at hthread
    split_ifs at hthread with htype
    · dsimp only at hthread
      split at hthread <;> cases hthread
    · simpa using htype

/-- An event of an error window, or in one, makes no stack. -/
theorem stackList_handleWriteErrors (h : sl.handleWriteErrors ev = some sl') :
    sl'.stackList = sl.stackList := by
  have hreset : (sl.handled ev).resetState.stackList = sl.stackList := by
    rw [stackList, resetState, List.map_map]
    rfl
  unfold handleWriteErrors at h
  split_ifs at h
  all_goals rw [← Option.some.inj h]
  · rfl
  · exact hreset
  · rfl

/-! ## Tags that were seen -/

/-- The level of the event is not above the stack that is active where it arrives, or the
event is refused. -/
def Reaches (sl : Slicer) (ev : Event) : Prop :=
  sl.handleWriteErrors ev = none → ev.isThreadLifetime = false →
    ev.level ≤ (sl.lastStack ev).numSetTags ∨
      (ev.isOut = true ∧ eventOutPreConditionError ev (sl.lastStack ev) = true)

theorem genuine_lastStack {seen : ℕ → Prop} (hsl : ∀ s ∈ sl.stackList, s.Genuine seen)
    (hlevel : ev.level + 1 < kMaxNumLevels) : (sl.lastStack ev).Genuine seen := by
  unfold lastStack
  split
  · rename_i p _
    by_cases hp : p < sl.states.length
    · refine hsl _ ?_
      rw [stackList, List.mem_map]
      exact ⟨sl.states[p], List.getElem_mem hp, by simp [state, List.getD_eq_getElem?_getD, hp]⟩
    · rw [state_of_le (Nat.le_of_not_lt hp)]
      intro i hi
      exact absurd hi (Nat.not_lt_zero i)
  · refine Stack.genuine_ofLevels ?_
    split_ifs <;> omega

theorem fits_lastStack (h : Filed sl) (hlevel : ev.level + 1 < kMaxNumLevels) :
    (sl.lastStack ev).Fits := by
  refine ⟨h.length_lastStack ev, ?_⟩
  unfold lastStack
  split
  · rename_i p hp
    exact (h.fits_state (h.active_lt _ p hp)).numSetTags_lt
  · change ev.level + (if ev.isOut then 1 else 0) < kMaxNumLevels
    split_ifs <;> omega

/-- The stacks of an event that reaches its level are genuine, if those of the states are. -/
theorem Built.genuine {tags : List ℕ} (h : Filed sl)
    (hsl : ∀ s ∈ sl.stackList, s.Genuine (· ∈ tags))
    (hlevel : a.ev.level + 1 < kMaxNumLevels) (hreach : Reaches sl a.ev)
    (hquiet : sl.handleWriteErrors a.ev = none) (hs : Built sl a s) :
    s.Genuine (· ∈ tags ++ [a.ev.tag]) ∧ s.Fits := by
  have hlast : (sl.lastStack a.ev).Genuine (· ∈ tags ++ [a.ev.tag]) :=
    (genuine_lastStack hsl hlevel).mono fun t ht => List.mem_append_left _ ht
  have hfits : (sl.lastStack a.ev).Fits := fits_lastStack h hlevel
  have htag : a.ev.tag ∈ tags ++ [a.ev.tag] := by simp
  induction hs with
  | thread => exact ⟨Stack.genuine_ofThread htag, Stack.fits_ofThread _⟩
  | last => exact ⟨hlast, hfits⟩
  | popped htype hout hpre =>
    have hle : a.ev.level ≤ (sl.lastStack a.ev).numSetTags :=
      (hreach hquiet htype).resolve_right fun hrefused => by
        rw [hpre] at hrefused
        cases hrefused.2
    exact ⟨hlast.copyTruncated hfits.length hfits.numSetTags_lt.le hle,
      Stack.fits_copyTruncated hfits.length (a.junk_length _) (Nat.lt_of_succ_lt hlevel)⟩
  | pushed htype hout hpre =>
    have hle : a.ev.level ≤ (sl.lastStack a.ev).numSetTags :=
      (hreach hquiet htype).resolve_right fun hrefused => by
        rw [hout] at hrefused
        cases hrefused.1
    exact ⟨hlast.copyFillUpTo hfits.length hfits.numSetTags_lt.le hle htag,
      Stack.fits_copyFillUpTo hfits.length (a.junk_length _) hlevel⟩
  | unknown _ ih => exact ⟨ih.1, ih.2.length, ih.2.numSetTags_lt⟩
  | parent _ hn ih =>
    have hlt := ih.2.numSetTags_lt
    exact ⟨ih.1.copyTruncated ih.2.length hlt.le hn.le,
      Stack.fits_copyTruncated ih.2.length (a.junk_length _) (by omega)⟩

/-! ## Runs -/

/-- The slicer beside the tags of the events so far. -/
abbrev Tagged := List ℕ × Except Fault Slicer

def stepTagged (kHandleTID0 : Bool) (s : Tagged) (a : Arrival) : Tagged :=
  (s.1 ++ [a.ev.tag], s.2.bind fun sl => sl.processEvent kHandleTID0 a)

def startTagged (numGroups : ℕ) : Tagged := ([], .ok (init numGroups))

/-- The stacks of the states have no other tags than those of the events so far. -/
def StoredGenuine (s : Tagged) : Prop :=
  ∀ sl, s.2 = .ok sl → ∀ t ∈ sl.stackList, t.Genuine (· ∈ s.1)

/-- Nor have the stacks that are made or compared for the event. -/
def BuiltGenuine (s : Tagged) (a : Arrival) : Prop :=
  ∀ sl, s.2 = .ok sl → (sl.handleOutOfOrder a.ev).handleWriteErrors a.ev = none →
    ∀ t, Built (sl.handleOutOfOrder a.ev) a t → t.Genuine (· ∈ s.1 ++ [a.ev.tag])

/-- The event is at a level that the stack of its unit reaches. -/
def ReachesLevel (s : Tagged) (a : Arrival) : Prop :=
  ∀ sl, s.2 = .ok sl → Reaches (sl.handleOutOfOrder a.ev) a.ev

theorem built_genuine {s : Tagged} (hfiled : ∀ sl, s.2 = .ok sl → Filed sl)
    (hstored : StoredGenuine s) (hlevel : a.ev.level + 1 < kMaxNumLevels)
    (hreach : ReachesLevel s a) : BuiltGenuine s a := by
  intro sl hsl hquiet t ht
  refine (ht.genuine ((hfiled sl hsl).handleOutOfOrder a.ev).filed (fun u hu => ?_) hlevel
    (hreach sl hsl) hquiet).1
  rcases (makes_handleOutOfOrder (G := fun _ => False) sl a.ev).made u hu with hu | hu
  · exact hstored sl hsl u hu
  · exact hu.elim

theorem stored_genuine {s : Tagged} (hstored : StoredGenuine s) (hbuilt : BuiltGenuine s a) :
    StoredGenuine (stepTagged kHandleTID0 s a) := by
  intro sl' hsl' t ht
  obtain ⟨sl, hsl, hstep⟩ : ∃ sl, s.2 = .ok sl ∧ sl.processEvent kHandleTID0 a = .ok sl' := by
    rw [stepTagged] at hsl'
    cases hs : s.2 with
    | error f =>
      rw [hs] at hsl'
      cases hsl'
    | ok sl =>
      rw [hs] at hsl'
      exact ⟨sl, rfl, hsl'⟩
  have hold : ∀ u ∈ sl.stackList, u.Genuine (· ∈ s.1 ++ [a.ev.tag]) := fun u hu =>
    (hstored sl hsl u hu).mono fun v hv => List.mem_append_left _ hv
  cases hquiet : (sl.handleOutOfOrder a.ev).handleWriteErrors a.ev with
  | some sl₁ =>
    have heq : sl' = sl₁ := by
      unfold processEvent at hstep
      split_ifs at hstep
      dsimp only at hstep
      rw [hquiet] at hstep
      exact (Except.ok.inj hstep).symm
    rw [heq, stackList_handleWriteErrors hquiet] at ht
    rcases (makes_handleOutOfOrder (G := fun _ => False) sl a.ev).made t ht with ht | ht
    · exact hold t ht
    · exact ht.elim
  | none =>
    rcases (makes_processEvent hquiet hstep).made t ht with ht | ht
    · exact hold t ht
    · exact hbuilt sl hsl hquiet t ht

theorem filed_step {s : Tagged} (h : ∀ sl, s.2 = .ok sl → Filed sl)
    (hlevel : a.ev.level + 1 < kMaxNumLevels) :
    ∀ sl, (stepTagged kHandleTID0 s a).2 = .ok sl → Filed sl := by
  intro sl' hsl'
  rw [stepTagged] at hsl'
  cases hs : s.2 with
  | error f =>
    rw [hs] at hsl'
    cases hsl'
  | ok sl =>
    rw [hs] at hsl'
    exact ((h sl hs).processEvent hlevel hsl').filed

/-- **No tag is invented.**  Take any run of events, over any memory, in which no event is
at a level above the stack that is active in its unit.  After every event each set tag of
a state is unknown or the tag of an event so far, and so is each set tag of every stack
that is made or compared for an event. -/
theorem tags_genuine (kHandleTID0 : Bool) (numGroups : ℕ) (as : List Arrival)
    (has : ∀ a ∈ as, a.ev.level + 1 < kMaxNumLevels)
    (hreach : Run.Along (stepTagged kHandleTID0) ReachesLevel (startTagged numGroups) as) :
    Run.Throughout (stepTagged kHandleTID0) StoredGenuine (startTagged numGroups) as ∧
      Run.Along (stepTagged kHandleTID0) BuiltGenuine (startTagged numGroups) as := by
  have hinit : StoredGenuine (startTagged numGroups) ∧
      ∀ sl, (startTagged numGroups).2 = .ok sl → Filed sl := by
    refine ⟨fun sl hsl t ht => ?_, fun sl hsl => ?_⟩
    · rw [← Except.ok.inj hsl] at ht
      cases ht
    · rw [← Except.ok.inj hsl]
      exact filed_init numGroups
  have hallowed : Run.Along (stepTagged kHandleTID0)
      (fun s a => a.ev.level + 1 < kMaxNumLevels ∧ ReachesLevel s a) (startTagged numGroups) as :=
    (Run.along_const.mpr has).and hreach
  have hstep : ∀ s a, (StoredGenuine s ∧ ∀ sl, s.2 = .ok sl → Filed sl) →
      (a.ev.level + 1 < kMaxNumLevels ∧ ReachesLevel s a) →
      StoredGenuine (stepTagged kHandleTID0 s a) ∧
        ∀ sl, (stepTagged kHandleTID0 s a).2 = .ok sl → Filed sl :=
    fun s a hs ha => ⟨stored_genuine hs.1 (built_genuine hs.2 hs.1 ha.1 ha.2),
      filed_step hs.2 ha.1⟩
  refine ⟨(Run.throughout_of_along hstep hinit hallowed).mono fun s hs => hs.1, ?_⟩
  exact Run.along_of_inv hstep (fun s a hs ha => built_genuine hs.2 hs.1 ha.1 ha.2) hinit hallowed

/-- A thread that is switched in and starts a phase. -/
def phaseEvents : List Arrival :=
  [Arrival.clean ⟨0, .switchIn, 0, 0, 5⟩, Arrival.clean ⟨1, .start, 1, 0, 8⟩]

theorem tags_genuine_phaseEvents :
    Run.Throughout (stepTagged true) StoredGenuine (startTagged 1) phaseEvents ∧
      Run.Along (stepTagged true) BuiltGenuine (startTagged 1) phaseEvents := by
  refine tags_genuine true 1 phaseEvents (by decide) ⟨fun sl hsl => ?_, fun sl hsl => ?_, trivial⟩
  · intro _ _
    exact Or.inl (Nat.zero_le _)
  · intro _ _
    refine Or.inl ?_
    have hlast : ((init 1).processEvent true (Arrival.clean ⟨0, .switchIn, 0, 0, 5⟩)).map
        (fun sl => ((sl.handleOutOfOrder ⟨1, .start, 1, 0, 8⟩).lastStack
          ⟨1, .start, 1, 0, 8⟩).numSetTags) = .ok 1 := by rfl
    change (init 1).processEvent true (Arrival.clean ⟨0, .switchIn, 0, 0, 5⟩) = .ok sl at hsl
    rw [hsl] at hlast
    exact (Except.ok.inj hlast).ge

/-- A thread is switched in over memory that holds a tag, and a tag two levels above it
follows. -/
def skippedLevel (held : ℕ) : List Arrival :=
  [⟨⟨0, .switchIn, 0, 0, 5⟩, fun _ => List.replicate kMaxNumLevels held, fun _ => rfl⟩,
    ⟨⟨1, .switchIn, 2, 0, 8⟩, fun _ => List.replicate kMaxNumLevels held, fun _ => rfl⟩]

/-- **The level that is skipped shows what the memory held.** -/
theorem not_tags_genuine :
    (∀ a ∈ skippedLevel 7, a.InRange 1) ∧
      (processEvents true (init 1) (skippedLevel 7)).map
        (fun sl => sl.stackList.map fun t => t.tags.take t.numSetTags) =
          .ok [[], [5], [5, 7], [5, 7, 8]] ∧
      ¬ Run.Throughout (stepTagged true) StoredGenuine (startTagged 1) (skippedLevel 7) := by
  refine ⟨by decide, by rfl, fun h => ?_⟩
  have hlast := h.last
  have hstacks : ((skippedLevel 7).foldl (stepTagged true) (startTagged 1)).2.map
      (fun sl => sl.stackList.map fun t => (t.numSetTags, t.tagAt 1)) =
        .ok [(0, 7), (1, 7), (2, 7), (3, 7)] := by rfl
  have hseen : ((skippedLevel 7).foldl (stepTagged true) (startTagged 1)).1 = [5, 8] := rfl
  generalize (skippedLevel 7).foldl (stepTagged true) (startTagged 1) = s at hlast hstacks hseen
  cases hsl : s.2 with
  | error f =>
    rw [hsl] at hstacks
    cases hstacks
  | ok sl =>
    rw [hsl] at hstacks
    have htags : (sl.stackList.map fun t => (t.numSetTags, t.tagAt 1)) =
        [(0, 7), (1, 7), (2, 7), (3, 7)] := Except.ok.inj hstacks
    have hmem : (2, 7) ∈ sl.stackList.map fun t => (t.numSetTags, t.tagAt 1) := by
      rw [htags]
      decide
    obtain ⟨t, ht, heq⟩ := List.mem_map.mp hmem
    obtain ⟨hset, htag⟩ := Prod.mk.inj heq
    have hgenuine := hlast sl hsl t ht 1 (by omega)
    rw [htag, hseen] at hgenuine
    exact absurd hgenuine (by decide)

end Slicer

end Tagstack
end IntegratedCLI
