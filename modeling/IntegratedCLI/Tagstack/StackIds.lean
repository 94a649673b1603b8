import Mathlib.Algebra.GroupWithZero.Nat
import IntegratedCLI.Lib.Fallible
import IntegratedCLI.Lib.OrderedMap
import IntegratedCLI.Lib.Positions
import IntegratedCLI.Lib.Registry
import IntegratedCLI.Tagstack.SliceTimeline

/-!
# The ids of tag stacks

A state is made for a stack the first time the slicer comes to it, and stays.  The
states are a `Registry` of stacks (`Slicer.registry`): two stacks are the same when
their set tags are (`Stack.eqv`), and a stack hangs under what is left of it without
its top tag (`Stack.ParentOf`).

Every handler of an event makes the registry at most `Later`, and keeps it in order
(`Files`).  Only `createStackState` makes entries, and it makes the parents first.
`Files` says as well how many events a handler counts, and that it counts a slice for
each switch out it records.
A reset drops the active states and the dormant lists, which are no part of the
registry.

The map the code keeps the states in is unordered and hashes its keys.  Stacks that
are the same have the same hash (`calculateHash_eq_of_eqv`), so looking a stack up
finds its state if there is one (`findHashed_eq`).  `getTagStackStatsDump` goes through the states in
whatever order the map has them.

## Runs

A run (`Op`) queues events and calls `processNext`.  Linking a state that is linked
corrupts the lists and ends a run in a `Fault`; what the lists may come to hold
then is taken in by `relink`, which may be done at any time and puts any states in
the lists and any tags in the hooks.  The result does not depend on them.

Ids are counted here without a bound.  The code counts in 64 bits, and an event
spends at most `kMaxNumLevels` ids (`nextStackId_le`).
-/

namespace IntegratedCLI
namespace Tagstack

/-! ## Stacks as keys -/

namespace Stack

/-- The number of tags in the width of a hash. -/
def kNum : ℕ := 2

/-- The hash of a stack goes through its set tags, `kNum` of them at a time. -/
def calculateHash (s : Stack) : UInt64 :=
  (List.range ((s.numSetTags + (kNum - 1)) / kNum)).foldl (fun h i =>
    (List.range' (i * kNum) (min s.numSetTags (i * kNum + kNum) - i * kNum)).foldl (fun h j =>
      let temp := (UInt32.ofNat (s.tagAt j) ^^^ 0x9e3779b9).toUInt64
      (h <<< 1 ^^^ temp <<< UInt64.ofNat ((j - i * kNum) * 32)) >>> 1) h)
    (if s.knownNumLevels then 86969 else 76963)

/-- The hash of a stack reads only what its equality compares. -/
theorem calculateHash_eq_of_eqv {s t : Stack} (h : s.eqv t = true) :
    s.calculateHash = t.calculateHash := by
  obtain ⟨hknown, hnum, htake⟩ := eqv_iff.mp h
  have htag : ∀ j < s.numSetTags, s.tagAt j = t.tagAt j := by
    intro j hj
    have hget := congrArg (fun l => l[j]?) htake
    simp only [List.getElem?_take_of_lt hj] at hget
    rw [tagAt, tagAt, List.getD_eq_getElem?_getD, List.getD_eq_getElem?_getD, hget]
  rw [calculateHash, calculateHash, ← hknown, ← hnum]
  refine List.foldl_ext _ _ _ fun h i _ => List.foldl_ext _ _ _ fun h j hj => ?_
  have hlt : j < s.numSetTags := by
    rw [List.mem_range'_1] at hj
    omega
  rw [htag j hlt]

/-- A stack is its parent with one tag on top. -/
structure ParentOf (q s : Stack) : Prop where
  knownNumLevels : q.knownNumLevels = s.knownNumLevels
  numSetTags : q.numSetTags + 1 = s.numSetTags
  tags : q.tags.take q.numSetTags = s.tags.take q.numSetTags

/-- A stack whose array has room for another tag. -/
structure Fits (s : Stack) : Prop where
  length : s.tags.length = kMaxNumLevels
  numSetTags_lt : s.numSetTags < kMaxNumLevels

theorem take_copyTruncated {s : Stack} {n : ℕ} {known : Bool} {junk : Tags}
    (hn : n ≤ s.tags.length) : (s.copyTruncated n known junk).tags.take n = s.tags.take n := by
  rw [copyTruncated, List.take_append_of_le_length (by simp [hn]), List.take_take, min_self]

/-- What is the same as a stack without its top tag is its parent. -/
theorem parentOf_of_eqv {q s : Stack} {n : ℕ} {junk : Tags} (hs : s.Fits)
    (hset : s.numSetTags = n + 1)
    (h : q.eqv (s.copyTruncated n s.knownNumLevels junk) = true) : q.ParentOf s := by
  obtain ⟨hknown, hnum, htake⟩ := eqv_iff.mp h
  have hn : q.numSetTags = n := hnum
  refine ⟨hknown, by rw [hn, hset], ?_⟩
  rw [htake, hn]
  have hlt := hs.numSetTags_lt
  exact take_copyTruncated (by rw [hs.length]; omega)

theorem fits_copyTruncated {s : Stack} {n : ℕ} {known : Bool} {junk : Tags}
    (hs : s.tags.length = kMaxNumLevels) (hjunk : junk.length = kMaxNumLevels)
    (hn : n < kMaxNumLevels) : (s.copyTruncated n known junk).Fits :=
  ⟨Slicer.copyTruncated_length hs hjunk, hn⟩

theorem fits_copyFillUpTo {s : Stack} {idx tag : ℕ} {known : Bool} {junk : Tags}
    (hs : s.tags.length = kMaxNumLevels) (hjunk : junk.length = kMaxNumLevels)
    (hidx : idx + 1 < kMaxNumLevels) : (s.copyFillUpTo idx tag known junk).Fits :=
  ⟨Slicer.copyFillUpTo_length hs hjunk (Nat.lt_of_succ_lt hidx), hidx⟩

theorem fits_ofThread (tag : ℕ) : (ofThread tag).Fits :=
  ⟨rfl, (by decide : 1 < kMaxNumLevels)⟩

end Stack

/-! ## The registry of a slicer -/

def TagStackState.entry (ss : TagStackState) : RegistryEntry Stack :=
  ⟨ss.stats.stackId, ss.stats.parentStackId, ss.stats.stack⟩

namespace Slicer

/-- The states as a registry of stacks. -/
def registry (sl : Slicer) : Registry Stack :=
  ⟨sl.states.map TagStackState.entry, sl.nextStackId⟩

/-- Whether a registry of stacks is in order. -/
abbrev InOrder (r : Registry Stack) : Prop :=
  Registry.Ordered (fun s t => s.eqv t = true) Stack.ParentOf (fun s => s.numSetTags = 0) r

/-- The invariant: the registry is in order, its stacks fit, and the pointers point
to states. -/
structure Filed (sl : Slicer) : Prop where
  ordered : InOrder sl.registry
  fits : ∀ e ∈ sl.registry.entries, e.name.Fits
  active_lt : ∀ g p, sl.activeStates g = some p → p < sl.states.length
  dormant_lt : ∀ t, ∀ p ∈ sl.dormantStates t, p < sl.states.length

/-- The switch outs that are recorded in the states. -/
def numSwouts (sl : Slicer) : ℕ := (sl.states.map fun ss => ss.stats.numSwouts).sum

/-- A step that keeps the invariant, counts `k` events, spends at most `n` ids, and
counts a slice for each switch out it records. -/
structure Files (k n : ℕ) (sl sl' : Slicer) : Prop where
  filed : Filed sl'
  later : sl.registry.Later sl'.registry
  spent : sl'.nextStackId ≤ sl.nextStackId + n
  processed : sl'.stats.numProcessed = sl.stats.numProcessed + k
  balance : sl'.stats.numSlicesCompleted + sl.numSwouts =
    sl.stats.numSlicesCompleted + sl'.numSwouts

variable {sl sl' sl'' : Slicer} {k l n m p : ℕ}

theorem Files.refl (h : Filed sl) : Files 0 0 sl sl := ⟨h, .refl _, le_rfl, rfl, rfl⟩

theorem Files.trans (h : Files k n sl sl') (h' : Files l m sl' sl'') :
    Files (k + l) (n + m) sl sl'' := by
  refine ⟨h'.filed, h.later.trans h'.later, ?_, ?_, ?_⟩
  · have hfirst := h.spent
    have hsecond := h'.spent
    omega
  · rw [h'.processed, h.processed, Nat.add_assoc]
  · have hfirst := h.balance
    have hsecond := h'.balance
    omega

theorem Files.mono (h : Files k n sl sl') (hle : n ≤ m) : Files k m sl sl' :=
  ⟨h.filed, h.later, h.spent.trans (Nat.add_le_add_left hle _), h.processed, h.balance⟩

/-- The entry at a pointer. -/
theorem mem_entries (hp : p < sl.states.length) : (sl.state p).entry ∈ sl.registry.entries := by
  refine List.mem_map.mpr ⟨sl.state p, ?_, rfl⟩
  rw [state, List.getD_eq_getElem?_getD, List.getElem?_eq_getElem hp]
  exact List.getElem_mem hp

theorem Filed.fits_state (h : Filed sl) (hp : p < sl.states.length) :
    (sl.state p).stats.stack.Fits := h.fits _ (mem_entries hp)

/-- What is read off the stats of the states, where these are the same. -/
theorem map_stats_congr {β : Type} (f : TagStackStats → β)
    (hlen : sl'.states.length = sl.states.length)
    (hstats : ∀ p, (sl'.state p).stats = (sl.state p).stats) :
    (sl'.states.map fun ss => f ss.stats) = sl.states.map fun ss => f ss.stats := by
  refine List.ext_getElem (by simpa using hlen) fun p hp hp' => ?_
  have hstat := hstats p
  rw [List.length_map] at hp hp'
  simp only [state, List.getD_eq_getElem?_getD, List.getElem?_eq_getElem hp,
    List.getElem?_eq_getElem hp', Option.getD_some] at hstat
  simp [hstat]

theorem registry_congr (hlen : sl'.states.length = sl.states.length)
    (hid : sl'.nextStackId = sl.nextStackId)
    (hstats : ∀ p, (sl'.state p).stats = (sl.state p).stats) : sl'.registry = sl.registry := by
  have hentries : sl'.states.map TagStackState.entry = sl.states.map TagStackState.entry :=
    map_stats_congr (fun stats => RegistryEntry.mk stats.stackId stats.parentStackId stats.stack)
      hlen hstats
  rw [registry, registry, hentries, hid]

theorem numSwouts_congr (hlen : sl'.states.length = sl.states.length)
    (hstats : ∀ p, (sl'.state p).stats = (sl.state p).stats) : sl'.numSwouts = sl.numSwouts :=
  congrArg List.sum (map_stats_congr TagStackStats.numSwouts hlen hstats)

/-- A step that leaves the registry alone and loses no state. -/
theorem Files.of_registry (h : Filed sl) (hreg : sl'.registry = sl.registry)
    (hactive : ∀ g p, sl'.activeStates g = some p → p < sl.states.length)
    (hdormant : ∀ t, ∀ p ∈ sl'.dormantStates t, p < sl.states.length)
    (hprocessed : sl'.stats.numProcessed = sl.stats.numProcessed + k)
    (hbalance : sl'.stats.numSlicesCompleted + sl.numSwouts =
      sl.stats.numSlicesCompleted + sl'.numSwouts) : Files k 0 sl sl' := by
  have hlen : sl'.states.length = sl.states.length := by
    simpa [registry] using congrArg (fun r => r.entries.length) hreg
  have hid : sl'.nextStackId = sl.nextStackId := congrArg Registry.next hreg
  refine ⟨⟨by rw [hreg]; exact h.ordered, by rw [hreg]; exact h.fits, ?_, ?_⟩,
    by rw [hreg]; exact .refl _, hid.le, hprocessed, hbalance⟩
  · rw [hlen]
    exact hactive
  · rw [hlen]
    exact hdormant

theorem Filed.same (h : Filed sl) (hs : SameTimes sl sl') (hstats : sl'.stats = sl.stats) :
    Files 0 0 sl sl' := by
  have hswouts : sl'.numSwouts = sl.numSwouts := numSwouts_congr hs.length hs.stats
  refine Files.of_registry h (registry_congr hs.length hs.nextStackId hs.stats) ?_ ?_
    (by rw [hstats, Nat.add_zero]) (by rw [hstats, hswouts])
  · rw [hs.activeStates]
    exact h.active_lt
  · exact fun t p hp => (hs.dormant t p hp).elim (h.dormant_lt t p) id

theorem Filed.unlink (h : Filed sl) (hp : p < sl.states.length) : Files 0 0 sl (sl.unlink p) := by
  refine h.same (sameTimes_unlink sl hp) ?_
  unfold Slicer.unlink
  split <;> rfl

theorem Filed.pushFront (h : Filed sl) {tag : ℕ} (hp : p < sl.states.length)
    (heq : sl.pushFront tag p = .ok sl') : Files 0 0 sl sl' := by
  refine h.same (sameTimes_pushFront hp heq) ?_
  unfold Slicer.pushFront at heq
  split_ifs at heq
  rw [← Except.ok.inj heq]
  rfl

theorem registry_resetState (sl : Slicer) : sl.resetState.registry = sl.registry := by
  simp [registry, Slicer.resetState, TagStackState.entry, TagStackState.restart, Function.comp_def]

theorem Filed.reset (h : Filed sl) : Files 0 0 sl sl.resetState := by
  have hswouts : sl.resetState.numSwouts = sl.numSwouts := by
    simp [numSwouts, Slicer.resetState, TagStackState.restart, Function.comp_def]
  exact Files.of_registry h (registry_resetState sl) (by simp [Slicer.resetState])
    (by simp [Slicer.resetState]) rfl (by rw [hswouts]; rfl)

/-- The state of a stack, looked up among those whose stack has the same hash. -/
def findHashed (sl : Slicer) (s : Stack) : Option ℕ :=
  sl.states.findIdx? fun ss =>
    ss.stats.stack.calculateHash == s.calculateHash && ss.stats.stack.eqv s

theorem findHashed_eq (sl : Slicer) (s : Stack) : sl.findHashed s = sl.findState s := by
  have hsame : ∀ ss : TagStackState, (ss.stats.stack.calculateHash == s.calculateHash &&
      ss.stats.stack.eqv s) = ss.stats.stack.eqv s := by
    intro ss
    cases heqv : ss.stats.stack.eqv s with
    | false => rw [Bool.and_false]
    | true => simp [Stack.calculateHash_eq_of_eqv heqv]
  rw [findHashed, findState, funext hsame]

/-! ## Making states -/

/-- A state set at a pointer that has the same entry. -/
theorem registry_setState {ss : TagStackState} (hp : p < sl.states.length)
    (hstats : ss.entry = (sl.state p).entry) : (sl.setState p ss).registry = sl.registry := by
  have hp' : p < (sl.states.map TagStackState.entry).length := by simpa using hp
  have hget : (sl.state p).entry = (sl.states.map TagStackState.entry)[p] := by
    simp [state, hp]
  have hentries : (sl.states.set p ss).map TagStackState.entry =
      sl.states.map TagStackState.entry := by
    rw [List.map_set, hstats, hget, List.set_getElem_self]
  simp [registry, setState, hentries]

/-- What setting a state adds to the switch outs. -/
theorem numSwouts_setState {ss : TagStackState} (hp : p < sl.states.length)
    (hswouts : ss.stats.numSwouts = (sl.state p).stats.numSwouts + k) :
    (sl.setState p ss).numSwouts = sl.numSwouts + k := by
  have hget : sl.state p = sl.states[p] := by simp [state, hp]
  have hset := Positions.sum_map_set (fun ss : TagStackState => ss.stats.numSwouts) hp ss
  rw [hswouts, hget] at hset
  simp only [numSwouts, setState]
  omega

/-- What emplacing a state comes to. -/
theorem registry_emplaceState (sl : Slicer) (parentSid : ℕ) (s : Stack) :
    (sl.emplaceState parentSid s).1.registry =
      if (sl.findState s).isSome then sl.registry.spend else sl.registry.register parentSid s := by
  unfold emplaceState
  cases sl.findState s with
  | some p => rfl
  | none => simp [registry, Registry.register, TagStackState.entry, TagStackState.mk']

/-- A stack that is not found is the name of no entry. -/
theorem not_eqv_of_findState {s : Stack} (h : sl.findState s = none) :
    ∀ e ∈ sl.registry.entries, ¬ e.name.eqv s = true := by
  intro e he
  obtain ⟨ss, hss, rfl⟩ := List.mem_map.mp he
  have hnot := List.findIdx?_eq_none_iff.mp h ss hss
  rw [TagStackState.entry, hnot]
  simp

/-- Making a state keeps the invariant, where the parent is there. -/
theorem Filed.emplaceState (h : Filed sl) {parentSid : ℕ} {s : Stack} (hs : s.Fits)
    (hparent : s.numSetTags = 0 ∨
      ∃ q < sl.states.length, (sl.state q).stats.stackId = parentSid ∧
        (sl.state q).stats.stack.ParentOf s) :
    Files 0 1 sl (sl.emplaceState parentSid s).1 := by
  have hgrown := (emplaceState_created sl parentSid s hs.length).grown
  have hreg := registry_emplaceState sl parentSid s
  have hid : (sl.emplaceState parentSid s).1.nextStackId = sl.nextStackId + 1 ∧
      (sl.emplaceState parentSid s).1.stats = sl.stats ∧
        (sl.emplaceState parentSid s).1.numSwouts = sl.numSwouts := by
    unfold Slicer.emplaceState
    cases sl.findState s with
    | some p => exact ⟨rfl, rfl, rfl⟩
    | none => exact ⟨rfl, rfl, by simp [numSwouts, TagStackState.mk']⟩
  have hrest : InOrder (sl.emplaceState parentSid s).1.registry ∧
      (∀ e ∈ (sl.emplaceState parentSid s).1.registry.entries, e.name.Fits) ∧
        sl.registry.Later (sl.emplaceState parentSid s).1.registry := by
    rw [hreg]
    cases hfind : sl.findState s with
    | some p => exact ⟨h.ordered.spend, h.fits, Registry.later_spend _⟩
    | none =>
      refine ⟨h.ordered.register (not_eqv_of_findState hfind) (hparent.imp_right ?_), ?_,
        Registry.later_register _ _ _⟩
      · rintro ⟨q, hq, hsid, hunder⟩
        exact ⟨_, mem_entries hq, hsid, hunder⟩
      · intro e he
        rcases List.mem_append.mp he with he | he
        · exact h.fits e he
        · rw [List.mem_singleton.mp he]
          exact hs
  refine ⟨⟨hrest.1, hrest.2.1, ?_, ?_⟩, hrest.2.2, hid.1.le, by rw [hid.2.1, Nat.add_zero],
    by rw [hid.2.1, hid.2.2]⟩
  · rw [hgrown.activeStates]
    exact fun g p hp => (h.active_lt g p hp).trans_le hgrown.length
  · rw [hgrown.dormantStates]
    exact fun t p hp => (h.dormant_lt t p hp).trans_le hgrown.length

/-- Creating a state keeps the invariant, by induction on the number of tags: the
parent is there or is created first. -/
theorem Filed.createStackState (h : Filed sl) {junk : ℕ → Tags}
    (hjunk : ∀ n, (junk n).length = kMaxNumLevels) {s : Stack} (hs : s.Fits)
    (hset : s.numSetTags = n) : Files 0 (n + 1) sl (sl.createStackState junk n s).1 := by
  induction n generalizing s with
  | zero => exact h.emplaceState hs (Or.inl hset)
  | succ n ih =>
    have hlt := hs.numSetTags_lt
    have hfits : (s.copyTruncated n s.knownNumLevels (junk n)).Fits :=
      Stack.fits_copyTruncated hs.length (hjunk n) (by omega)
    rw [Slicer.createStackState]
    cases hfind : sl.findState (s.copyTruncated n s.knownNumLevels (junk n)) with
    | some p =>
      obtain ⟨hp, heqv⟩ := findState_eq_some hfind
      have hfile := h.emplaceState hs (Or.inr ⟨p, hp, rfl, Stack.parentOf_of_eqv hs hset heqv⟩)
      exact hfile.mono (Nat.le_add_left _ _)
    | none =>
      have hcreated := createStackState_created hjunk sl n _ hfits.length
      have hparent := ih hfits rfl
      exact hparent.trans (hparent.filed.emplaceState hs
        (Or.inr ⟨_, hcreated.lt, rfl, Stack.parentOf_of_eqv hs hset hcreated.eqv⟩))

/-! ## Activation and completion -/

theorem Filed.activateStackState (h : Filed sl) {g ts : ℕ} {ty : TransitionType}
    (hp : p < sl.states.length) (heq : sl.activateStackState g p ts ty = .ok sl') :
    Files 0 0 sl sl' := by
  unfold Slicer.activateStackState at heq
  cases hactive : sl.activeStates g with
  | some q => simp [hactive] at heq
  | none =>
    by_cases hts : ((sl.state p).lastSwin g).tstamp ≠ kInvalidTimeStamp
    · simp [hactive, TagStackState.markSwitchIn, hts] at heq
    · simp only [hactive, TagStackState.markSwitchIn, hts, if_false, Except.ok.injEq] at heq
      rw [← heq]
      refine Files.of_registry h (registry_setState hp rfl) (fun g' q hq => ?_) h.dormant_lt rfl ?_
      · by_cases hg : g' = g
        · rw [hg] at hq
          simp only [Function.update_self, Option.some.injEq] at hq
          rw [← hq]
          exact hp
        · simp only [Function.update_of_ne hg] at hq
          exact h.active_lt g' q hq
      · change sl.stats.numSlicesCompleted + sl.numSwouts =
          sl.stats.numSlicesCompleted + (sl.setState p _).numSwouts
        rw [numSwouts_setState (k := 0) hp (by rfl), Nat.add_zero]

theorem Filed.completeSlice (h : Filed sl) {g ts : ℕ} {ty : TransitionType}
    (heq : sl.completeSlice g ts ty = .ok sl') : Files 0 0 sl sl' := by
  unfold Slicer.completeSlice at heq
  split_ifs at heq
  cases hactive : sl.activeStates g with
  | none => simp [hactive] at heq
  | some p =>
    simp only [hactive] at heq
    split_ifs at heq with hinvalid hearly
    all_goals
      simp only [TagStackState.markSwitchOut, hearly, if_false, Except.ok.injEq] at heq
      rw [← heq]
      have hp := h.active_lt g p hactive
      refine Files.of_registry h (registry_setState hp rfl) h.active_lt h.dormant_lt rfl ?_
      change sl.stats.numSlicesCompleted + 1 + sl.numSwouts =
        sl.stats.numSlicesCompleted + (sl.setState p _).numSwouts
      rw [numSwouts_setState (k := 1) hp (by rfl), Nat.add_assoc, Nat.add_comm 1]

variable {kHandleTID0 : Bool} {junk : ℕ → Tags} {s : Stack} {g ts : ℕ} {ty : TransitionType}

theorem Filed.activateStackStateExactMatch (h : Filed sl)
    (hjunk : ∀ n, (junk n).length = kMaxNumLevels) (hs : s.Fits)
    (heq : sl.activateStackStateExactMatch junk g s ts ty = .ok sl') :
    Files 0 kMaxNumLevels sl sl' := by
  unfold Slicer.activateStackStateExactMatch at heq
  cases hfind : sl.findState s with
  | some p =>
    simp only [hfind] at heq
    have hp := (findState_eq_some hfind).1
    have hunlink := h.unlink hp
    have hactive := hunlink.filed.activateStackState
      (by rw [(sameTimes_unlink sl hp).length]; exact hp) heq
    exact (hunlink.trans hactive).mono (Nat.zero_le _)
  | none =>
    simp only [hfind] at heq
    have hcreate := h.createStackState hjunk hs rfl
    have hactive := hcreate.filed.activateStackState
      (createStackState_created hjunk sl s.numSetTags s hs.length).lt heq
    exact (hcreate.trans hactive).mono hs.numSetTags_lt

theorem Filed.activateStackStateThatContains (h : Filed sl)
    (hjunk : ∀ n, (junk n).length = kMaxNumLevels) (hs : s.Fits) {numLevels : ℕ}
    (heq : sl.activateStackStateThatContains kHandleTID0 junk g s numLevels ts ty = .ok sl') :
    Files 0 kMaxNumLevels sl sl' := by
  unfold Slicer.activateStackStateThatContains at heq
  split_ifs at heq
  split at heq
  · rename_i p hfind
    have hp := h.dormant_lt _ p (List.mem_of_find?_eq_some hfind)
    have hunlink := h.unlink hp
    have hactive := hunlink.filed.activateStackState
      (by rw [(sameTimes_unlink sl hp).length]; exact hp) heq
    exact (hunlink.trans hactive).mono (Nat.zero_le _)
  · exact h.activateStackStateExactMatch hjunk (s := ⟨s.tags, s.numSetTags, false⟩)
      ⟨hs.length, hs.numSetTags_lt⟩ heq

/-! ## The handlers of an event -/

/-- What the handlers do to the stats and the clock is no part of the registry. -/
theorem Files.of_eq (h : Files k n sl sl') (hstates : sl''.states = sl'.states)
    (hid : sl''.nextStackId = sl'.nextStackId) (hactive : sl''.activeStates = sl'.activeStates)
    (hdormant : sl''.dormantStates = sl'.dormantStates)
    (hprocessed : sl''.stats.numProcessed = sl'.stats.numProcessed + l)
    (hcompleted : sl''.stats.numSlicesCompleted = sl'.stats.numSlicesCompleted) :
    Files (k + l) n sl sl'' := by
  have hswouts : sl''.numSwouts = sl'.numSwouts := by rw [numSwouts, numSwouts, hstates]
  refine h.trans (m := 0) (Files.of_registry h.filed ?_ ?_ ?_ hprocessed
    (by rw [hcompleted, hswouts]))
  · rw [registry, registry, hstates, hid]
  · rw [hactive]
    exact h.filed.active_lt
  · rw [hdormant]
    exact h.filed.dormant_lt

theorem Filed.handled (h : Filed sl) (ev : Event) : Files 1 0 sl (sl.handled ev) := by
  have hfiles : Files (0 + 1) 0 sl (sl.handled ev) :=
    (Files.refl h).of_eq rfl rfl rfl rfl rfl rfl
  exact hfiles

theorem Filed.handleOutOfOrder (h : Filed sl) (ev : Event) :
    Files 0 0 sl (sl.handleOutOfOrder ev) := by
  unfold Slicer.handleOutOfOrder
  split
  · exact h.reset.of_eq (l := 0) rfl rfl rfl rfl rfl rfl
  · exact .refl h

theorem Filed.handleWriteErrors (h : Filed sl) {ev : Event}
    (heq : sl.handleWriteErrors ev = some sl') : Files 1 0 sl sl' := by
  have hhandled := h.handled ev
  have hstart := hhandled.trans hhandled.filed.reset
  unfold Slicer.handleWriteErrors at heq
  split_ifs at heq
  · rw [← Option.some.inj heq]
    exact hhandled.of_eq (l := 0) rfl rfl rfl rfl rfl rfl
  · rw [← Option.some.inj heq]
    exact hstart.of_eq (l := 0) rfl rfl rfl rfl rfl rfl
  · rw [← Option.some.inj heq]
    exact hhandled.of_eq (l := 0) rfl rfl rfl rfl rfl rfl

theorem Filed.handleThreadLifetime (h : Filed sl) {ev : Event}
    (hjunk : ∀ n, (junk n).length = kMaxNumLevels)
    (heq : sl.handleThreadLifetime ev junk = some (.ok sl')) : Files 1 kMaxNumLevels sl sl' := by
  have hhandled : Files 1 kMaxNumLevels sl (sl.handled ev) := (h.handled ev).mono (Nat.zero_le _)
  unfold Slicer.handleThreadLifetime at heq
  split_ifs at heq with _ _ htype
  · rw [← Except.ok.inj (Option.some.inj heq)]
    exact hhandled.of_eq (l := 0) rfl rfl rfl rfl rfl rfl
  · have hfits := Stack.fits_ofThread ev.tag
    have hcreate := h.createStackState hjunk hfits rfl
    have hlt := (createStackState_created hjunk sl 1 _ hfits.length).lt
    simp only at heq
    split at heq
    · exact absurd (Option.some.inj heq) (by simp)
    · rename_i pushed hpush
      rw [← Except.ok.inj (Option.some.inj heq)]
      have hpushed := hcreate.trans (hcreate.filed.pushFront hlt hpush)
      exact (hpushed.trans (hpushed.filed.handled ev)).mono hfits.numSetTags_lt
  · rw [← Except.ok.inj (Option.some.inj heq)]
    exact hhandled

theorem Filed.handleLastState (h : Filed sl) {ev : Event}
    (heq : sl.handleLastState kHandleTID0 ev = .ok sl') : Files 0 0 sl sl' := by
  unfold Slicer.handleLastState at heq
  cases hactive : sl.activeStates ev.compUnitId with
  | none =>
    simp only [hactive, Except.ok.injEq] at heq
    rw [← heq]
    exact .refl h
  | some p =>
    simp only [hactive] at heq
    split at heq
    · exact absurd heq (by simp)
    · rename_i pushed hpushed
      have hpush : Files 0 0 sl pushed := by
        split_ifs at hpushed
        · rw [← Except.ok.inj hpushed]
          exact .refl h
        · exact h.pushFront (h.active_lt _ p hactive) hpushed
      split at heq
      · exact absurd heq (by simp)
      · rename_i completed hcomplete
        have hcompleted := hpush.trans (hpush.filed.completeSlice hcomplete)
        rw [← Except.ok.inj heq]
        refine hcompleted.trans (l := 0) (m := 0) (Files.of_registry hcompleted.filed rfl
          (fun g q hq => ?_) hcompleted.filed.dormant_lt rfl rfl)
        by_cases hg : g = ev.compUnitId
        · simp [hg] at hq
        · simp only [Function.update_of_ne hg] at hq
          exact hcompleted.filed.active_lt g q hq

theorem Filed.length_lastStack (h : Filed sl) (ev : Event) :
    (sl.lastStack ev).tags.length = kMaxNumLevels := by
  unfold lastStack
  split
  · rename_i p hp
    exact (h.fits_state (h.active_lt _ p hp)).length
  · rfl

/-- The stack that the group of an event goes on to has room for another tag. -/
def RoomAbove (ev : Event) : Prop :=
  ev.level < kMaxNumLevels ∧ (ev.isOut = false → ev.level + 1 < kMaxNumLevels)

theorem RoomAbove.of_level {ev : Event} (hlevel : ev.level + 1 < kMaxNumLevels) : RoomAbove ev :=
  ⟨Nat.lt_of_succ_lt hlevel, fun _ => hlevel⟩

theorem Filed.activateNext (h : Filed sl) {a : Arrival} (hroom : RoomAbove a.ev)
    (hlast : s.tags.length = kMaxNumLevels)
    (heq : sl.activateNext kHandleTID0 a.ev a.junk s = .ok sl') :
    Files 0 kMaxNumLevels sl sl' := by
  unfold Slicer.activateNext at heq
  simp only at heq
  split_ifs at heq with hout
  · exact h.activateStackStateExactMatch a.junk_length
      (Stack.fits_copyTruncated hlast (a.junk_length _) hroom.1) heq
  · exact h.activateStackStateExactMatch a.junk_length
      (Stack.fits_copyFillUpTo hlast (a.junk_length _) (hroom.2 (eq_false_of_ne_true hout))) heq
  · exact h.activateStackStateThatContains a.junk_length
      (Stack.fits_copyFillUpTo hlast (a.junk_length _) (hroom.2 (eq_false_of_ne_true hout))) heq

theorem Filed.handleTransition (h : Filed sl) {a : Arrival} (hroom : RoomAbove a.ev)
    (heq : sl.handleTransition kHandleTID0 a.ev a.junk = .ok sl') :
    Files 1 kMaxNumLevels sl sl' := by
  unfold Slicer.handleTransition at heq
  cases hlast : sl.handleLastState kHandleTID0 a.ev with
  | error f => simp [hlast] at heq
  | ok sl₁ =>
    have hfirst := h.handleLastState hlast
    -- both errors drop what is open, and are then counted
    have hhandled := hfirst.trans (hfirst.filed.handled a.ev)
    have hdropped : Files 1 kMaxNumLevels sl (sl₁.handled a.ev).resetState :=
      (hhandled.trans hhandled.filed.reset).mono (Nat.zero_le _)
    simp only [hlast] at heq
    split_ifs at heq
    · rw [← Except.ok.inj heq]
      exact hdropped.of_eq (l := 0) rfl rfl rfl rfl rfl rfl
    · rw [← Except.ok.inj heq]
      exact hdropped
    · cases hnext : sl₁.activateNext kHandleTID0 a.ev a.junk (sl.lastStack a.ev) with
      | error f => simp [hnext] at heq
      | ok sl₂ =>
        simp only [hnext, Except.ok.injEq] at heq
        rw [← heq]
        have hmoved := hfirst.trans
          (hfirst.filed.activateNext hroom (h.length_lastStack a.ev) hnext)
        exact (hmoved.trans (hmoved.filed.handled a.ev)).mono (Nat.zero_add _).le

theorem isThreadLifetime_of_none {ev : Event} (h : sl.handleThreadLifetime ev junk = none) :
    ev.isThreadLifetime = false := by
  rcases Bool.eq_false_or_eq_true ev.isThreadLifetime with htype | htype
  · unfold Slicer.handleThreadLifetime at h
    rw [if_pos htype] at h
    dsimp only at h
    split_ifs at h
    split at h <;> cases h
  · exact htype

/-- **What an event does to the registry and the counts.**  Only an event that gets to its
transition needs the room. -/
theorem Filed.processEvent_of_room (h : Filed sl) {a : Arrival}
    (hroom : (sl.handleOutOfOrder a.ev).handleWriteErrors a.ev = none →
      a.ev.isThreadLifetime = false →
      (∀ f, (sl.handleOutOfOrder a.ev).handleLastState kHandleTID0 a.ev ≠ .error f) →
      RoomAbove a.ev)
    (heq : sl.processEvent kHandleTID0 a = .ok sl') : Files 1 kMaxNumLevels sl sl' := by
  unfold Slicer.processEvent at heq
  split_ifs at heq
  have horder := h.handleOutOfOrder a.ev
  simp only at heq
  cases herr : (sl.handleOutOfOrder a.ev).handleWriteErrors a.ev with
  | some sl₁ =>
    simp only [herr, Except.ok.injEq] at heq
    rw [← heq]
    exact (horder.trans (horder.filed.handleWriteErrors herr)).mono (Nat.zero_le _)
  | none =>
    simp only [herr] at heq
    cases hthread : (sl.handleOutOfOrder a.ev).handleThreadLifetime a.ev a.junk with
    | some r =>
      simp only [hthread] at heq
      rw [heq] at hthread
      exact (horder.trans (horder.filed.handleThreadLifetime a.junk_length hthread)).mono
        (Nat.zero_add _).le
    | none =>
      simp only [hthread] at heq
      have htype := isThreadLifetime_of_none hthread
      have hlast : ∀ f, (sl.handleOutOfOrder a.ev).handleLastState kHandleTID0 a.ev ≠ .error f := by
        intro f hf
        simp only [Slicer.handleTransition, hf] at heq
        cases heq
      exact (horder.trans (horder.filed.handleTransition (hroom herr htype hlast) heq)).mono
        (Nat.zero_add _).le

theorem Filed.processEvent (h : Filed sl) {a : Arrival} (hlevel : a.ev.level + 1 < kMaxNumLevels)
    (heq : sl.processEvent kHandleTID0 a = .ok sl') : Files 1 kMaxNumLevels sl sl' :=
  h.processEvent_of_room (fun _ _ _ => .of_level hlevel) heq

theorem Filed.processEvents (h : Filed sl) {as : List Arrival}
    (hlevel : ∀ a ∈ as, a.ev.level + 1 < kMaxNumLevels)
    (heq : processEvents kHandleTID0 sl as = .ok sl') :
    Files as.length (as.length * kMaxNumLevels) sl sl' := by
  induction as generalizing sl with
  | nil =>
    rw [← Except.ok.inj heq]
    exact (Files.refl h).mono (Nat.zero_le _)
  | cons a as ih =>
    rw [Slicer.processEvents] at heq
    cases hev : sl.processEvent kHandleTID0 a with
    | error f => simp [hev] at heq
    | ok sl₁ =>
      simp only [hev] at heq
      have hfirst := h.processEvent (hlevel a (by simp)) hev
      have hrest := ih hfirst.filed (fun b hb => hlevel b (by simp [hb])) heq
      rw [List.length_cons, Nat.succ_mul, Nat.add_comm as.length, Nat.add_comm (_ * _)]
      exact hfirst.trans hrest

/-! ## Runs -/

/-- What can be done with a slicer and the queue of its events. -/
inductive Op where
  | arrive (as : List Arrival)
  | processNext (maxNumEvents stopTs : ℕ)
  /-- Put any states in the dormant lists, and any tags in the hooks. -/
  | relink (hook : ℕ → Option ℕ) (dormant : ℕ → List ℕ)

/-- Other hooks and lists, of the states there are. -/
def relinked (sl : Slicer) (hook : ℕ → Option ℕ) (dormant : ℕ → List ℕ) : Slicer :=
  { sl with
    states := sl.states.mapIdx fun p ss => { ss with hook := hook p }
    dormantStates := fun tag => (dormant tag).filter (· < sl.states.length) }

def Op.apply (kHandleTID0 : Bool) (s : List Arrival × Slicer) :
    Op → Except Fault (List Arrival × Slicer)
  | .arrive as => .ok (s.1 ++ as, s.2)
  | .processNext maxNumEvents stopTs => Slicer.processNext kHandleTID0 stopTs maxNumEvents s
  | .relink hook dormant => .ok (s.1, s.2.relinked hook dormant)

def run (kHandleTID0 : Bool) (s : List Arrival × Slicer) (ops : List Op) :
    Except Fault (List Arrival × Slicer) :=
  ops.foldlM (Op.apply kHandleTID0) s

theorem Filed.relinked (h : Filed sl) (hook : ℕ → Option ℕ) (dormant : ℕ → List ℕ) :
    Files 0 0 sl (sl.relinked hook dormant) := by
  have hlen : (sl.relinked hook dormant).states.length = sl.states.length := by
    simp [Slicer.relinked]
  have hstats : ∀ p, ((sl.relinked hook dormant).state p).stats = (sl.state p).stats := by
    intro p
    simp only [state, Slicer.relinked, List.getD_eq_getElem?_getD, List.getElem?_mapIdx]
    cases sl.states[p]? <;> rfl
  refine Files.of_registry h (registry_congr hlen rfl hstats) h.active_lt ?_ rfl
    (by rw [numSwouts_congr hlen hstats]; rfl)
  intro t p hp
  simpa using List.of_mem_filter hp

/-- The events a run queues. -/
def arrivals (ops : List Op) : List Arrival :=
  ops.flatMap fun
    | .arrive as => as
    | _ => []

/-- The events that are queued are at their levels, and those that are not any more have
spent `n` ids at most. -/
structure Queued (k n : ℕ) (s s' : List Arrival × Slicer) (new : List Arrival) : Prop where
  files : Files k n s.2 s'.2
  level : ∀ a ∈ s'.1, a.ev.level + 1 < kMaxNumLevels
  spent : n + s'.1.length * kMaxNumLevels ≤ (s.1.length + new.length) * kMaxNumLevels

theorem Filed.apply {s s' : List Arrival × Slicer} {op : Op} (h : Filed s.2)
    (hqueue : ∀ a ∈ s.1, a.ev.level + 1 < kMaxNumLevels)
    (hlevel : ∀ a ∈ arrivals [op], a.ev.level + 1 < kMaxNumLevels)
    (heq : op.apply kHandleTID0 s = .ok s') : ∃ k n, Queued k n s s' (arrivals [op]) := by
  cases op with
  | arrive as =>
    rw [← Except.ok.inj heq]
    refine ⟨0, 0, .refl h, fun a ha => ?_, by simp [arrivals]⟩
    exact (List.mem_append.mp ha).elim (hqueue a) fun ha => hlevel a (by simp [arrivals, ha])
  | processNext maxNumEvents stopTs =>
    obtain ⟨k, hk⟩ := processNext_eq kHandleTID0 stopTs maxNumEvents s.1 s.2
    rw [Op.apply, hk] at heq
    cases hev : Slicer.processEvents kHandleTID0 s.2 (s.1.take k) with
    | error f => simp [hev, Except.map] at heq
    | ok sl =>
      simp only [hev, Except.map, Except.ok.injEq] at heq
      rw [← heq]
      refine ⟨_, _, h.processEvents (fun a ha => hqueue a (List.mem_of_mem_take ha)) hev,
        fun a ha => hqueue a (List.mem_of_mem_drop ha), ?_⟩
      rw [← Nat.add_mul, ← List.length_append, List.take_append_drop]
      exact Nat.mul_le_mul_right _ (Nat.le_add_right _ _)
  | relink hook dormant =>
    rw [← Except.ok.inj heq]
    exact ⟨0, 0, h.relinked hook dormant, hqueue, by simp [arrivals]⟩

/-- A run keeps the registry in order. -/
theorem Filed.run {s s' : List Arrival × Slicer} {ops : List Op} (h : Filed s.2)
    (hqueue : ∀ a ∈ s.1, a.ev.level + 1 < kMaxNumLevels)
    (hlevel : ∀ a ∈ arrivals ops, a.ev.level + 1 < kMaxNumLevels)
    (heq : run kHandleTID0 s ops = .ok s') : ∃ k n, Queued k n s s' (arrivals ops) := by
  induction ops generalizing s with
  | nil =>
    rw [← Except.ok.inj heq]
    exact ⟨0, 0, .refl h, hqueue, by simp [arrivals]⟩
  | cons op ops ih =>
    have hcons : arrivals (op :: ops) = arrivals [op] ++ arrivals ops := by simp [arrivals]
    rw [hcons] at hlevel ⊢
    rw [Slicer.run, List.foldlM_cons, Fallible.bind_eq_ok] at heq
    obtain ⟨s₁, hop, hops⟩ := heq
    obtain ⟨k, n, hfirst⟩ := h.apply hqueue (fun a ha => hlevel a (List.mem_append_left _ ha)) hop
    obtain ⟨l, m, hrest⟩ := ih hfirst.files.filed hfirst.level
      (fun a ha => hlevel a (List.mem_append_right _ ha)) hops
    refine ⟨k + l, n + m, hfirst.files.trans hrest.files, hrest.level, ?_⟩
    have hspent := hfirst.spent
    have hspent' := hrest.spent
    rw [List.length_append]
    rw [Nat.add_mul] at hspent hspent' ⊢
    rw [Nat.add_mul]
    omega

theorem filed_init (numGroups : ℕ) : Filed (init numGroups) :=
  ⟨Registry.ordered_nil _ _ _ 0, by simp [registry, init], by simp [init], by simp [init]⟩

/-- An id takes its place in 64 bits as long as there were no more events than
`2 ^ 64 / kMaxNumLevels`. -/
theorem nextStackId_le (numGroups : ℕ) {ops : List Op} {s : List Arrival × Slicer}
    (hlevel : ∀ a ∈ arrivals ops, a.ev.level + 1 < kMaxNumLevels)
    (h : run kHandleTID0 ([], init numGroups) ops = .ok s) :
    s.2.nextStackId ≤ (arrivals ops).length * kMaxNumLevels := by
  obtain ⟨k, n, hrun⟩ := (filed_init numGroups).run (by simp) hlevel h
  have hcount := hrun.spent
  have hid : s.2.nextStackId ≤ 0 + n := hrun.files.spent
  simp only [List.length_nil, Nat.zero_add] at hcount hid
  exact hid.trans ((Nat.le_add_right _ _).trans hcount)

/-! ## The ids -/

/-- The stats of each id, from the states in the order the map has them. -/
def getTagStackStatsDump (states : List TagStackState) : OrderedMap ℕ TagStackStats :=
  states.foldl (fun stats ss => stats.emplace ss.stats.stackId ss.stats) .empty

/-- What the ids are to be: a state has an id and a stack of its own, one with a tag
has the id of its parent, and there is an entry for each state in the dump. -/
structure IdsRight (sl : Slicer) : Prop where
  unique : ∀ p < sl.states.length, ∀ q < sl.states.length,
    (sl.state p).stats.stackId = (sl.state q).stats.stackId → p = q
  keyed : ∀ p < sl.states.length, ∀ q < sl.states.length,
    (sl.state p).stats.stack.eqv (sl.state q).stats.stack = true → p = q
  parent : ∀ p < sl.states.length, (sl.state p).stats.stack.numSetTags ≠ 0 →
    ∃ q < sl.states.length, (sl.state q).stats.stackId = (sl.state p).stats.parentStackId ∧
      (sl.state q).stats.stackId < (sl.state p).stats.stackId ∧
      (sl.state q).stats.stack.ParentOf (sl.state p).stats.stack
  dump : ∀ states, states.Perm sl.states →
    (getTagStackStatsDump states).entries.Perm
      (sl.states.map fun ss => (ss.stats.stackId, ss.stats))

/-- The states of `sl` are there in `sl'`, with their ids, parents and stacks, and the
states that are new have ids that no state of `sl` ever had. -/
structure KeepsIds (sl sl' : Slicer) : Prop where
  old : ∀ p < sl.states.length, p < sl'.states.length ∧ (sl'.state p).entry = (sl.state p).entry
  spent : ∀ p < sl.states.length, (sl.state p).stats.stackId < sl.nextStackId
  fresh : ∀ p < sl'.states.length, sl.states.length ≤ p →
    sl.nextStackId ≤ (sl'.state p).stats.stackId

theorem getElem_entries (hp : p < sl.registry.entries.length) :
    sl.registry.entries[p] = (sl.state p).entry := by
  have hp' : p < sl.states.length := by simpa [registry] using hp
  simp [registry, state, hp']

theorem length_entries (sl : Slicer) : sl.registry.entries.length = sl.states.length := by
  simp [registry]

theorem Filed.idsRight (h : Filed sl) : IdsRight sl := by
  refine ⟨fun p hp q hq heq => ?_, fun p hp q hq heq => ?_, fun p hp hset => ?_,
    fun states hperm => ?_⟩
  · rw [← length_entries] at hp hq
    refine h.ordered.place_unique hp hq ?_
    rw [getElem_entries, getElem_entries]
    exact heq
  · rw [← length_entries] at hp hq
    have hdistinct := List.pairwise_iff_getElem.mp h.ordered.distinct
    rcases Nat.lt_trichotomy p q with hlt | hlt | hlt
    · refine absurd heq ?_
      simpa only [getElem_entries, TagStackState.entry] using hdistinct p q hp hq hlt
    · exact hlt
    · refine absurd (Stack.eqv_symm heq) ?_
      simpa only [getElem_entries, TagStackState.entry] using hdistinct q p hq hp hlt
  · obtain ⟨e, he, hid, hlt, hunder⟩ :=
      (h.ordered.parent _ (mem_entries hp)).resolve_left hset
    obtain ⟨q, hq, rfl⟩ := List.getElem_of_mem he
    rw [getElem_entries] at hid hlt hunder
    rw [length_entries] at hq
    exact ⟨q, hq, hid, hlt, hunder⟩
  · have hnodup : (states.map fun ss => ss.stats.stackId).Nodup := by
      refine (hperm.map _).nodup_iff.mpr ?_
      simpa [registry, List.map_map, Function.comp_def, TagStackState.entry] using h.ordered.nodup_ids
    exact (OrderedMap.perm_foldl_emplace _ _ states hnodup).trans (hperm.map _)

theorem Files.keepsIds (h : Filed sl) (hfiles : Files k n sl sl') : KeepsIds sl sl' := by
  obtain ⟨new, hentries, hnew⟩ := hfiles.later.entries
  have hlen : sl'.states.length = sl.states.length + new.length := by
    rw [← length_entries, hentries, List.length_append, length_entries]
  refine ⟨fun p hp => ⟨by omega, ?_⟩, fun p hp => h.ordered.id_lt _ (mem_entries hp),
    fun p hp hle => ?_⟩
  · have hp' : p < sl'.registry.entries.length := by
      rw [length_entries]
      omega
    rw [← length_entries] at hp
    rw [← getElem_entries hp, ← getElem_entries hp']
    simp only [hentries, List.getElem_append_left hp]
  · have hp' : p < sl'.registry.entries.length := by
      rw [length_entries]
      exact hp
    have hmem : (sl'.state p).entry ∈ new := by
      rw [← getElem_entries hp']
      simp only [hentries]
      rw [List.getElem_append_right (by rw [length_entries]; exact hle)]
      exact List.getElem_mem _
    exact hnew _ hmem

/-- **Ids are unique and parents are right.**  In every state of a run whose events
leave room for a tag above their level the ids are as they are to be, and from any
state of it to any later one no id is given away or used again. -/
theorem stackIds_unique (kHandleTID0 : Bool) (numGroups : ℕ) (ops ops' : List Op)
    (hlevel : ∀ a ∈ arrivals (ops ++ ops'), a.ev.level + 1 < kMaxNumLevels)
    {s s' : List Arrival × Slicer} (h : run kHandleTID0 ([], init numGroups) ops = .ok s)
    (h' : run kHandleTID0 s ops' = .ok s') : IdsRight s'.2 ∧ KeepsIds s.2 s'.2 := by
  have happend : arrivals (ops ++ ops') = arrivals ops ++ arrivals ops' := by simp [arrivals]
  rw [happend] at hlevel
  obtain ⟨k, n, hfirst⟩ := (filed_init numGroups).run (by simp)
    (fun a ha => hlevel a (List.mem_append_left _ ha)) h
  obtain ⟨l, m, hsecond⟩ := hfirst.files.filed.run hfirst.level
    (fun a ha => hlevel a (List.mem_append_right _ ha)) h'
  exact ⟨hsecond.files.filed.idsRight, hsecond.files.keepsIds hfirst.files.filed⟩

/-- A thread is switched in and out, its state is taken out of the lists, and it is
created again before everything is dropped. -/
theorem stackIds_unique_sample : ∃ s s',
    run true ([], init 2) [.arrive sampleEvents, .processNext 3 100] = .ok s ∧
      run true s [.relink (fun _ => none) fun _ => [],
        .arrive [Arrival.clean ⟨30, .threadCreation, 0, 0, 7⟩,
          Arrival.clean ⟨31, .writeErrorsStart, 0, 0, 0⟩], .processNext 9 100] = .ok s' ∧
      IdsRight s'.2 ∧ KeepsIds s.2 s'.2 := by
  refine ⟨_, _, rfl, rfl, stackIds_unique true 2 [.arrive sampleEvents, .processNext 3 100]
    [.relink (fun _ => none) fun _ => [],
      .arrive [Arrival.clean ⟨30, .threadCreation, 0, 0, 7⟩,
        Arrival.clean ⟨31, .writeErrorsStart, 0, 0, 0⟩], .processNext 9 100] (by decide) rfl rfl⟩

/-- The ids, their parents and the tags of the states such a run makes. -/
example : (run true ([], init 1) [.arrive [Arrival.clean ⟨0, .switchIn, 0, 0, 7⟩,
      Arrival.clean ⟨1, .start, 1, 0, 9⟩, Arrival.clean ⟨2, .writeErrorsStart, 0, 0, 0⟩],
    .processNext 3 9]).map (fun s => s.2.states.map fun ss =>
      (ss.stats.stackId, ss.stats.parentStackId, ss.stats.stack.tags.take ss.stats.stack.numSetTags)) =
    .ok [(0, kInvalidTagStackId, []), (1, 0, [7]), (2, kInvalidTagStackId, []), (3, 2, [7]),
      (4, 3, [7, 9])] := by rfl

end Slicer
end Tagstack
end IntegratedCLI
