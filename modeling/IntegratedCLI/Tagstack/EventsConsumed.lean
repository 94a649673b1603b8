import Mathlib.Data.List.TakeWhile
import IntegratedCLI.Tagstack.StackIds

/-!
# Events are consumed once

`Slicer.processNext` takes its events from a stream: `prepareNext` gives the event
at the head of the stream if it is due, and the event stays there until `complete`
is called for it.  A `Feed` is a slicer with its stream, and the events `complete`
has been called for.  The handlers of an event are the ones of `Slicer`, with the
call of `complete` at each place where the source has it.  The loop goes round once
more, without completing anything, for an event that lies before the last one.

* `Feed.handle_eq`: whichever way an event is handled, it is completed once.
* `Feed.processNext_eq`: a call handles the events at the front of the stream that
  are due, as many as it may, as `processEvents` does, and returns their number.
* `Feed.events_consumed`: over any run of events coming in and calls.

`prepareNext` does not look past the head of the stream.  An event behind one that is
not due yet is not handled, whatever its time stamp (`Feed.not_events_consumed_behind`).
-/

namespace IntegratedCLI
namespace Tagstack

/-- A slicer and the stream it reads. -/
structure Feed where
  pending : List Arrival
  completed : List Arrival
  slicer : Slicer

namespace Feed

open Slicer (isAliased eventToTransitionType eventOutPreConditionError eventInPreConditionError)

/-! ## The stream -/

/-- The event at the head of the stream, if it is due. -/
def prepareNext (f : Feed) (stopTs : ℕ) : Option Arrival :=
  f.pending.head?.filter fun a => a.ev.tstamp ≤ stopTs

/-- Let the event at the head of the stream go. -/
def complete (f : Feed) : Feed :=
  { f with pending := f.pending.tail, completed := f.completed ++ f.pending.take 1 }

def update (f : Feed) (g : Slicer → Slicer) : Feed := { f with slicer := g f.slicer }

/-! ## The handlers of an event -/

def handleWriteErrors (f : Feed) (ev : Event) : Option Feed :=
  if ev.type = .writeErrorsEnd then
    let f := f.update fun sl => { sl with
      lastTs := ev.tstamp
      stats := { sl.stats with
        numProcessed := sl.stats.numProcessed + 1
        numErrorEnd := sl.stats.numErrorEnd + 1 } }
    some (f.complete.update fun sl => { sl with
      numActiveWriteErrors := (sl.numActiveWriteErrors + (2 ^ 32 - 1)) % 2 ^ 32 })
  else if ev.type = .writeErrorsStart then
    let f := f.update fun sl => { sl with
      lastTs := ev.tstamp
      stats := { sl.stats with
        numProcessed := sl.stats.numProcessed + 1
        numErrorStart := sl.stats.numErrorStart + 1 } }
    some ((f.complete.update Slicer.resetState).update fun sl => { sl with
      numActiveWriteErrors := (sl.numActiveWriteErrors + 1) % 2 ^ 32 })
  else if f.slicer.numActiveWriteErrors ≠ 0 then
    let f := f.update fun sl => { sl with
      lastTs := ev.tstamp
      stats := { sl.stats with
        numProcessed := sl.stats.numProcessed + 1
        numDropped := sl.stats.numDropped + 1 } }
    some f.complete
  else none

def handleThreadLifetime (f : Feed) (ev : Event) (junk : ℕ → Tags) :
    Option (Except Fault Feed) :=
  if ev.isThreadLifetime then
    if ev.level ≠ 0 then
      let f := f.update fun sl => { sl with
        lastTs := ev.tstamp
        stats := { sl.stats with
          numProcessed := sl.stats.numProcessed + 1
          numDropped := sl.stats.numDropped + 1
          numLogicErrors := sl.stats.numLogicErrors + 1 } }
      some (.ok f.complete)
    else
      let created :=
        if ev.type = .threadCreation then
          let s := Stack.ofThread ev.tag
          let r := f.slicer.createStackState junk s.numSetTags s
          r.1.pushFront (s.tagAt 0) r.2
        else .ok f.slicer
      match created with
      | .error e => some (.error e)
      | .ok sl =>
        let sl := { sl with
          lastTs := ev.tstamp
          stats := { sl.stats with numProcessed := sl.stats.numProcessed + 1 } }
        some (.ok { f with slicer := sl }.complete)
  else none

/-- The flag says whether the event has been handled by this. -/
def handleLastState (f : Feed) (kHandleTID0 : Bool) (ev : Event) (lastState : Option ℕ)
    (swType : TransitionType) : Except Fault (Feed × Bool) :=
  match lastState with
  | none => .ok (f, false)
  | some p =>
    let stack := (f.slicer.state p).stats.stack
    let pushed :=
      if isAliased kHandleTID0 stack then .ok f.slicer
      else f.slicer.pushFront (stack.tagAt 0) p
    match pushed with
    | .error e => .error e
    | .ok sl =>
      if !isAliased kHandleTID0 stack && !(sl.state p).isLinked then
        let sl := { sl with
          lastTs := ev.tstamp
          stats := { sl.stats with
            numProcessed := sl.stats.numProcessed + 1
            numDropped := sl.stats.numDropped + 1
            numLogicErrors := sl.stats.numLogicErrors + 1 } }
        .ok ({ f with slicer := sl }.complete, true)
      else
        match sl.completeSlice ev.compUnitId ev.tstamp swType with
        | .error e => .error e
        | .ok sl =>
          let sl := { sl with
            activeStates := Function.update sl.activeStates ev.compUnitId none }
          .ok ({ f with slicer := sl }, false)

def handleEventOutPreConditionError (f : Feed) (ev : Event) (lastStack : Stack) : Option Feed :=
  if eventOutPreConditionError ev lastStack then
    let f := f.update fun sl => { sl with
      lastTs := ev.tstamp
      stats := { sl.stats with
        numProcessed := sl.stats.numProcessed + 1
        numErrorOutSync := sl.stats.numErrorOutSync + 1 } }
    some (f.complete.update Slicer.resetState)
  else none

def handleEventInPreConditionError (f : Feed) (ev : Event) (lastStack : Stack) : Option Feed :=
  if eventInPreConditionError ev lastStack then
    let f := f.update fun sl => { sl with lastTs := ev.tstamp }
    some ((f.complete.update Slicer.resetState).update fun sl => { sl with
      stats := { sl.stats with numProcessed := sl.stats.numProcessed + 1 } })
  else none

/-- What a turn of the loop does with an event, once it is neither late nor early. -/
def handle (kHandleTID0 : Bool) (f : Feed) (a : Arrival) : Except Fault Feed :=
  match f.handleWriteErrors a.ev with
  | some f => .ok f
  | none =>
    match f.handleThreadLifetime a.ev a.junk with
    | some r => r
    | none =>
      let swType := eventToTransitionType a.ev
      let lastState := f.slicer.activeStates a.ev.compUnitId
      let lastStack := f.slicer.lastStack a.ev
      match f.handleLastState kHandleTID0 a.ev lastState swType with
      | .error e => .error e
      | .ok (f, true) => .ok f
      | .ok (f, false) =>
        let handled :=
          if a.ev.isOut then f.handleEventOutPreConditionError a.ev lastStack
          else f.handleEventInPreConditionError a.ev lastStack
        match handled with
        | some f => .ok f
        | none =>
          match f.slicer.activateNext kHandleTID0 a.ev a.junk lastStack with
          | .error e => .error e
          | .ok sl =>
            let sl := { sl with
              lastTs := a.ev.tstamp
              stats := { sl.stats with numProcessed := sl.stats.numProcessed + 1 } }
            .ok { f with slicer := sl }.complete

/-- Drop everything for an event that lies before the last one. -/
def startOver (f : Feed) (ev : Event) : Feed :=
  f.update fun sl => { sl.resetState with
    lastTs := ev.tstamp
    stats := { sl.stats with numOutOfOrder := sl.stats.numOutOfOrder + 1 } }

/-- Whether the loop goes round once more for the event at the head. -/
def late (f : Feed) : ℕ :=
  match f.pending with
  | [] => 0
  | a :: _ => if a.ev.tstamp < f.slicer.lastTs then 1 else 0

theorem pending_of_prepareNext {f : Feed} {stopTs : ℕ} {a : Arrival}
    (h : f.prepareNext stopTs = some a) :
    ∃ as, f.pending = a :: as ∧ a.ev.tstamp ≤ stopTs := by
  obtain ⟨hhead, hdue⟩ := Option.filter_eq_some_iff.mp h
  obtain ⟨as, has⟩ := List.head?_eq_some_iff.mp hhead
  exact ⟨as, has, by simpa using hdue⟩

theorem late_startOver {f : Feed} {stopTs : ℕ} {a : Arrival}
    (h : f.prepareNext stopTs = some a) (hlate : a.ev.tstamp < f.slicer.lastTs) :
    (f.startOver a.ev).late < f.late := by
  obtain ⟨as, has, -⟩ := pending_of_prepareNext h
  simp [late, startOver, update, has, hlate]

/-- Process events until `maxNumEvents` of them have been processed, or the next one is
not there or not due.  The result has the number of processed events. -/
def processNext (kHandleTID0 : Bool) (stopTs maxNumEvents numProcessed : ℕ) (f : Feed) :
    Except Fault (ℕ × Feed) :=
  if _hmax : numProcessed < maxNumEvents then
    match _hnext : f.prepareNext stopTs with
    | none => .ok (numProcessed, f)
    | some a =>
      if f.slicer.numGroups ≤ a.ev.compUnitId then .error .groupOutOfRange
      else if _hlate : a.ev.tstamp < f.slicer.lastTs then
        processNext kHandleTID0 stopTs maxNumEvents numProcessed (f.startOver a.ev)
      else if stopTs < a.ev.tstamp then .ok (numProcessed, f)
      else
        match f.handle kHandleTID0 a with
        | .error e => .error e
        | .ok f => processNext kHandleTID0 stopTs maxNumEvents (numProcessed + 1) f
  else .ok (numProcessed, f)
termination_by (maxNumEvents - numProcessed, f.late)
decreasing_by
  · exact Prod.Lex.right _ (late_startOver _hnext _hlate)
  · exact Prod.Lex.left _ _ (by omega)

/-! ## Each exit completes the event -/

variable {f : Feed} {a : Arrival} {as : List Arrival} {kHandleTID0 : Bool}

/-- The stream when the event at its head has been completed. -/
def after (f : Feed) (sl : Slicer) : Feed :=
  ⟨f.pending.tail, f.completed ++ f.pending.take 1, sl⟩

theorem handleWriteErrors_eq (f : Feed) (ev : Event) :
    f.handleWriteErrors ev = (f.slicer.handleWriteErrors ev).map f.after := by
  unfold handleWriteErrors Slicer.handleWriteErrors
  split_ifs <;> rfl

theorem handleThreadLifetime_eq (f : Feed) (ev : Event) (junk : ℕ → Tags) :
    f.handleThreadLifetime ev junk =
      (f.slicer.handleThreadLifetime ev junk).map fun r => r.map f.after := by
  unfold handleThreadLifetime Slicer.handleThreadLifetime
  by_cases hlife : ev.isThreadLifetime = true
  · rw [if_pos hlife, if_pos hlife]
    by_cases hlevel : ev.level ≠ 0
    · rw [if_pos hlevel, if_pos hlevel]
      rfl
    · rw [if_neg hlevel, if_neg hlevel]
      by_cases htype : ev.type = .threadCreation
      · simp only [if_pos htype]
        cases (f.slicer.createStackState junk (Stack.ofThread ev.tag).numSetTags
          (Stack.ofThread ev.tag)).1.pushFront ((Stack.ofThread ev.tag).tagAt 0)
            (f.slicer.createStackState junk (Stack.ofThread ev.tag).numSetTags
              (Stack.ofThread ev.tag)).2 <;> rfl
      · simp only [if_neg htype]
        rfl
  · rw [if_neg hlife, if_neg hlife]
    rfl

/-- A state that has been put in a list is linked. -/
theorem isLinked_pushFront {sl sl' : Slicer} {tag p : ℕ} (hp : p < sl.states.length)
    (h : sl.pushFront tag p = .ok sl') : (sl'.state p).isLinked = true := by
  unfold Slicer.pushFront at h
  split_ifs at h
  rw [← Except.ok.inj h]
  change ((sl.setState p _).state p).isLinked = true
  rw [Slicer.state_setState_self _ _ hp]
  rfl

/-- The exit of `handleLastState` for a state that is not linked is never taken. -/
theorem handleLastState_eq (h : f.slicer.Filed) (ev : Event) :
    f.handleLastState kHandleTID0 ev (f.slicer.activeStates ev.compUnitId)
        (eventToTransitionType ev) =
      (f.slicer.handleLastState kHandleTID0 ev).map fun sl => ({ f with slicer := sl }, false) := by
  unfold handleLastState Slicer.handleLastState
  cases hactive : f.slicer.activeStates ev.compUnitId with
  | none => rfl
  | some p =>
    simp only
    cases haliased : isAliased kHandleTID0 (f.slicer.state p).stats.stack with
    | true =>
      simp only [if_true, Bool.not_true, Bool.false_and, Bool.false_eq_true, if_false]
      cases f.slicer.completeSlice ev.compUnitId ev.tstamp (eventToTransitionType ev) <;> rfl
    | false =>
      simp only [Bool.false_eq_true, if_false]
      cases hpush : f.slicer.pushFront ((f.slicer.state p).stats.stack.tagAt 0) p with
      | error e => rfl
      | ok sl =>
        have hlinked := isLinked_pushFront (h.active_lt _ p hactive) hpush
        simp only [hlinked, Bool.not_true, Bool.and_false, Bool.false_eq_true, if_false]
        cases sl.completeSlice ev.compUnitId ev.tstamp (eventToTransitionType ev) <;> rfl

/-- **Whichever way an event is handled, it is completed once.** -/
theorem handle_eq (h : f.slicer.Filed) (hgroup : a.ev.compUnitId < f.slicer.numGroups)
    (hearly : ¬ a.ev.tstamp < f.slicer.lastTs) :
    f.handle kHandleTID0 a = (f.slicer.processEvent kHandleTID0 a).map f.after := by
  have hsame : f.slicer.handleOutOfOrder a.ev = f.slicer := if_neg hearly
  unfold handle Slicer.processEvent
  rw [if_neg (Nat.not_le.mpr hgroup)]
  simp only [hsame, handleWriteErrors_eq, handleThreadLifetime_eq]
  cases f.slicer.handleWriteErrors a.ev with
  | some sl => rfl
  | none =>
    cases f.slicer.handleThreadLifetime a.ev a.junk with
    | some r => cases r <;> rfl
    | none =>
      simp only [Option.map_none, handleLastState_eq h, Slicer.handleTransition]
      cases f.slicer.handleLastState kHandleTID0 a.ev with
      | error e => rfl
      | ok sl =>
        simp only [Except.map]
        cases hout : a.ev.isOut with
        | true =>
          simp only [handleEventOutPreConditionError, if_true, Bool.true_and, Bool.not_true,
            Bool.false_and, Bool.false_eq_true, if_false]
          split_ifs
          · rfl
          · cases sl.activateNext kHandleTID0 a.ev a.junk (f.slicer.lastStack a.ev) <;> rfl
        | false =>
          simp only [handleEventInPreConditionError, Bool.false_eq_true, if_false, Bool.false_and,
            Bool.not_false, Bool.true_and]
          split_ifs
          · rfl
          · cases sl.activateNext kHandleTID0 a.ev a.junk (f.slicer.lastStack a.ev) <;> rfl

/-! ## The loop -/

variable {stopTs maxNumEvents numProcessed : ℕ}

theorem prepareNext_cons (has : f.pending = a :: as) :
    f.prepareNext stopTs = if a.ev.tstamp ≤ stopTs then some a else none := by
  rw [prepareNext, has, List.head?_cons, Option.filter_some]
  simp only [decide_eq_true_eq]

theorem processNext_of_none (hnext : f.prepareNext stopTs = none) :
    f.processNext kHandleTID0 stopTs maxNumEvents numProcessed = .ok (numProcessed, f) := by
  rw [processNext]
  split_ifs
  · split
    · rfl
    · rename_i a ha
      rw [hnext] at ha
      cases ha
  · rfl

/-- A turn of the loop for an event that is neither late nor early. -/
theorem processNext_prompt (h : f.slicer.Filed) (hlt : numProcessed < maxNumEvents)
    (has : f.pending = a :: as) (hdue : a.ev.tstamp ≤ stopTs)
    (hearly : ¬ a.ev.tstamp < f.slicer.lastTs) :
    f.processNext kHandleTID0 stopTs maxNumEvents numProcessed =
      (f.slicer.processEvent kHandleTID0 a).bind fun sl =>
        (f.after sl).processNext kHandleTID0 stopTs maxNumEvents (numProcessed + 1) := by
  have hnext : f.prepareNext stopTs = some a := (prepareNext_cons has).trans (if_pos hdue)
  rw [processNext, dif_pos hlt]
  split
  · rename_i hnone
    rw [hnext] at hnone
    cases hnone
  · rename_i b hb
    cases hnext.symm.trans hb
    by_cases hgroup : f.slicer.numGroups ≤ a.ev.compUnitId
    · rw [if_pos hgroup, Slicer.processEvent, if_pos hgroup]
      rfl
    · rw [if_neg hgroup, dif_neg hearly, if_neg (Nat.not_lt.mpr hdue),
        handle_eq h (Nat.lt_of_not_le hgroup) hearly]
      cases f.slicer.processEvent kHandleTID0 a <;> rfl

/-- An event that lies before the last one is handled after everything was dropped. -/
theorem processEvent_startOver (hlate : a.ev.tstamp < f.slicer.lastTs) :
    (f.startOver a.ev).slicer.processEvent kHandleTID0 a =
      f.slicer.processEvent kHandleTID0 a := by
  have hlast : f.slicer.handleOutOfOrder a.ev = (f.startOver a.ev).slicer := if_pos hlate
  have hsame : (f.startOver a.ev).slicer.handleOutOfOrder a.ev = (f.startOver a.ev).slicer :=
    if_neg (lt_irrefl _)
  rw [Slicer.processEvent, Slicer.processEvent, hlast, hsame]
  rfl

/-- **An event that is due is handled and completed once**, late or not. -/
theorem processNext_cons (h : f.slicer.Filed) (hlt : numProcessed < maxNumEvents)
    (has : f.pending = a :: as) (hdue : a.ev.tstamp ≤ stopTs) :
    f.processNext kHandleTID0 stopTs maxNumEvents numProcessed =
      (f.slicer.processEvent kHandleTID0 a).bind fun sl =>
        (f.after sl).processNext kHandleTID0 stopTs maxNumEvents (numProcessed + 1) := by
  by_cases hlate : a.ev.tstamp < f.slicer.lastTs
  · have hnext : f.prepareNext stopTs = some a := (prepareNext_cons has).trans (if_pos hdue)
    rw [processNext, dif_pos hlt]
    split
    · rename_i hnone
      rw [hnext] at hnone
      cases hnone
    · rename_i b hb
      cases hnext.symm.trans hb
      by_cases hgroup : f.slicer.numGroups ≤ a.ev.compUnitId
      · rw [if_pos hgroup, Slicer.processEvent, if_pos hgroup]
        rfl
      · have hfiles : Slicer.Files 0 0 f.slicer (f.startOver a.ev).slicer :=
          h.reset.of_eq (l := 0) rfl rfl rfl rfl rfl rfl
        have hfiled := hfiles.filed
        rw [if_neg hgroup, dif_pos hlate,
          processNext_prompt hfiled hlt has hdue (lt_irrefl _), processEvent_startOver hlate]
        rfl
  · exact processNext_prompt h hlt has hdue hlate

/-- The number of events a call handles. -/
def numDue (stopTs maxNumEvents : ℕ) (pending : List Arrival) : ℕ :=
  min maxNumEvents (pending.takeWhile fun a => a.ev.tstamp ≤ stopTs).length

theorem numDue_of_none (hnext : f.prepareNext stopTs = none) (room : ℕ) :
    numDue stopTs room f.pending = 0 := by
  cases has : f.pending with
  | nil => simp [numDue]
  | cons a as =>
    have hdue : ¬ a.ev.tstamp ≤ stopTs := by
      intro hle
      rw [prepareNext_cons has, if_pos hle] at hnext
      cases hnext
    simp [numDue, hdue]

theorem numDue_cons (hdue : a.ev.tstamp ≤ stopTs) (room : ℕ) :
    numDue stopTs (room + 1) (a :: as) = numDue stopTs room as + 1 := by
  simp [numDue, hdue, Nat.add_min_add_right]

/-- A call handles the events at the front of the stream that are due, as many as it
may, and completes them. -/
theorem processNext_eq (h : f.slicer.Filed)
    (hlevel : ∀ a ∈ f.pending, a.ev.level + 1 < kMaxNumLevels) (room : ℕ)
    (hroom : numProcessed + room = maxNumEvents) :
    f.processNext kHandleTID0 stopTs maxNumEvents numProcessed =
      (Slicer.processEvents kHandleTID0 f.slicer (f.pending.take (numDue stopTs room f.pending))).map
        fun sl => (numProcessed + numDue stopTs room f.pending,
          ⟨f.pending.drop (numDue stopTs room f.pending),
            f.completed ++ f.pending.take (numDue stopTs room f.pending), sl⟩) := by
  induction room generalizing f numProcessed with
  | zero =>
    have hfull : ¬ numProcessed < maxNumEvents := by omega
    rw [processNext, dif_neg hfull, numDue, Nat.zero_min]
    simp [Slicer.processEvents, Except.map]
  | succ room ih =>
    cases hnext : f.prepareNext stopTs with
    | none =>
      rw [processNext_of_none hnext, numDue_of_none hnext]
      simp [Slicer.processEvents, Except.map]
    | some a =>
      obtain ⟨as, has, hdue⟩ := pending_of_prepareNext hnext
      rw [processNext_cons h (by omega) has hdue, has, numDue_cons hdue, List.take_succ_cons,
        Slicer.processEvents]
      cases hev : f.slicer.processEvent kHandleTID0 a with
      | error e => rfl
      | ok sl =>
        have hfiled := (h.processEvent (hlevel a (by simp [has])) hev).filed
        have hafter : f.after sl = ⟨as, f.completed ++ [a], sl⟩ := by simp [after, has]
        have hroom' : numProcessed + 1 + room = maxNumEvents := by omega
        have hrest := ih (f := ⟨as, f.completed ++ [a], sl⟩) hfiled
          (fun b hb => hlevel b (by rw [has]; exact List.mem_cons_of_mem _ hb)) hroom'
        change (f.after sl).processNext kHandleTID0 stopTs maxNumEvents (numProcessed + 1) = _
        rw [hafter, hrest]
        simp only [List.drop_succ_cons, List.append_assoc, List.singleton_append, Nat.add_assoc,
          Nat.add_comm 1]

/-- What a call of `processNext` does: it completes events at the front of the stream
that are due, and stops short of the limit only at one that is not, or at the end. -/
structure Takes (stopTs maxNumEvents : ℕ) (f : Feed) (r : ℕ × Feed) : Prop where
  completed : r.2.completed = f.completed ++ f.pending.take r.1
  pending : r.2.pending = f.pending.drop r.1
  le_max : r.1 ≤ maxNumEvents
  le_length : r.1 ≤ f.pending.length
  due : ∀ a ∈ f.pending.take r.1, a.ev.tstamp ≤ stopTs
  stopped : r.1 < maxNumEvents → ∀ a, r.2.pending.head? = some a → stopTs < a.ev.tstamp
  caughtUp : r.1 < maxNumEvents → (f.pending.map (·.ev.tstamp)).Pairwise (· ≤ ·) →
    ∀ a ∈ r.2.pending, stopTs < a.ev.tstamp

theorem mem_take_numDue {a : Arrival} (ha : a ∈ as.take (numDue stopTs maxNumEvents as)) :
    a.ev.tstamp ≤ stopTs := by
  have hfront : as.take (numDue stopTs maxNumEvents as) <+:
      as.takeWhile fun a => a.ev.tstamp ≤ stopTs := by
    refine List.prefix_of_prefix_length_le (List.take_prefix _ _) (List.takeWhile_prefix _) ?_
    exact (List.length_take_le _ _).trans (Nat.min_le_right _ _)
  simpa using List.mem_takeWhile_imp (hfront.subset ha)

theorem head_drop_numDue (hlt : numDue stopTs maxNumEvents as < maxNumEvents)
    (ha : (as.drop (numDue stopTs maxNumEvents as)).head? = some a) : stopTs < a.ev.tstamp := by
  have hlen : numDue stopTs maxNumEvents as =
      (as.takeWhile fun a => a.ev.tstamp ≤ stopTs).length := by
    rw [numDue] at hlt ⊢
    omega
  have hdrop : as.drop (numDue stopTs maxNumEvents as) =
      as.dropWhile fun a => a.ev.tstamp ≤ stopTs := by
    calc as.drop (numDue stopTs maxNumEvents as) =
          (as.takeWhile (fun a => a.ev.tstamp ≤ stopTs) ++
            as.dropWhile fun a => a.ev.tstamp ≤ stopTs).drop
              (as.takeWhile fun a => a.ev.tstamp ≤ stopTs).length := by
            rw [List.takeWhile_append_dropWhile, hlen]
      _ = as.dropWhile fun a => a.ev.tstamp ≤ stopTs := List.drop_left
  rw [hdrop] at ha
  have hnot := List.head?_dropWhile_not (fun a : Arrival => a.ev.tstamp ≤ stopTs) as
  rw [ha] at hnot
  simpa using hnot

theorem takes_numDue (f : Feed) (sl : Slicer) :
    Takes stopTs maxNumEvents f (numDue stopTs maxNumEvents f.pending,
      ⟨f.pending.drop (numDue stopTs maxNumEvents f.pending),
        f.completed ++ f.pending.take (numDue stopTs maxNumEvents f.pending), sl⟩) := by
  refine ⟨rfl, rfl, Nat.min_le_left _ _, ?_, fun a => mem_take_numDue, fun hlt a =>
    head_drop_numDue hlt, fun hlt hsorted a ha => ?_⟩
  · exact (Nat.min_le_right _ _).trans (List.takeWhile_sublist _).length_le
  · -- the events behind the one that is not due are not earlier than it
    cases hdrop : f.pending.drop (numDue stopTs maxNumEvents f.pending) with
    | nil =>
      simp only [hdrop, List.not_mem_nil] at ha
    | cons b bs =>
      have hb : stopTs < b.ev.tstamp := head_drop_numDue hlt (by rw [hdrop, List.head?_cons])
      have hpair : (b :: bs).Pairwise fun a c => a.ev.tstamp ≤ c.ev.tstamp := by
        rw [← hdrop]
        exact (List.pairwise_map.mp hsorted).sublist (List.drop_sublist _ _)
      simp only [hdrop] at ha
      rcases List.mem_cons.mp ha with rfl | ha
      · exact hb
      · exact hb.trans_le ((List.pairwise_cons.mp hpair).1 a ha)

/-! ## Runs -/

/-- What is shown of a result, unless a state was linked that is linked. -/
def Outcome (Q : ℕ × Feed → Prop) : Except Fault (ℕ × Feed) → Prop
  | .ok s => Q s
  | .error e => e = .alreadyLinked

/-- Events come in, or some are processed. -/
inductive Op where
  | arrive (as : List Arrival)
  | processNext (maxNumEvents stopTs : ℕ)

/-- The number is the sum of what the calls have returned. -/
def Op.apply (kHandleTID0 : Bool) (s : ℕ × Feed) : Op → Except Fault (ℕ × Feed)
  | .arrive as => .ok (s.1, { s.2 with pending := s.2.pending ++ as })
  | .processNext maxNumEvents stopTs =>
    (s.2.processNext kHandleTID0 stopTs maxNumEvents 0).map fun r => (s.1 + r.1, r.2)

def run (kHandleTID0 : Bool) (s : ℕ × Feed) (ops : List Op) : Except Fault (ℕ × Feed) :=
  ops.foldlM (Op.apply kHandleTID0) s

def start (numGroups : ℕ) : ℕ × Feed := (0, ⟨[], [], Slicer.init numGroups⟩)

/-- The events that have come in. -/
def arrivals (ops : List Op) : List Arrival :=
  ops.flatMap fun
    | .arrive as => as
    | .processNext _ _ => []

/-- Every event is either completed or still there, in the order they came in, and the
counts are those of the completed events and of the switch outs. -/
structure Consumed (arrived : List Arrival) (s : ℕ × Feed) : Prop where
  inOrder : s.2.completed ++ s.2.pending = arrived
  returned : s.1 = s.2.completed.length
  processed : s.2.slicer.stats.numProcessed = s.2.completed.length
  slices : s.2.slicer.stats.numSlicesCompleted = s.2.slicer.numSwouts

/-- The invariant of a run. -/
structure Ready (numGroups : ℕ) (arrived : List Arrival) (s : ℕ × Feed) : Prop where
  consumed : Consumed arrived s
  filed : s.2.slicer.Filed
  inv : Slicer.Inv s.2.slicer.lastTs s.2.slicer
  groups : s.2.slicer.numGroups = numGroups
  inRange : ∀ a ∈ s.2.pending, a.InRange numGroups

variable {numGroups : ℕ} {arrived : List Arrival} {s : ℕ × Feed}

theorem ready_start (numGroups : ℕ) : Ready numGroups [] (start numGroups) :=
  ⟨⟨rfl, rfl, rfl, rfl⟩, Slicer.filed_init numGroups, Slicer.inv_init numGroups, rfl,
    fun a ha => absurd ha (by simp [start])⟩

/-- A call ends with some events taken, and keeps the invariant. -/
theorem Ready.processNext (h : Ready numGroups arrived s) (kHandleTID0 : Bool)
    (stopTs maxNumEvents : ℕ) :
    Outcome (fun r => Takes stopTs maxNumEvents s.2 r ∧ Ready numGroups arrived (s.1 + r.1, r.2))
      (s.2.processNext kHandleTID0 stopTs maxNumEvents 0) := by
  have hlevel : ∀ a ∈ s.2.pending, a.ev.level + 1 < kMaxNumLevels :=
    fun a ha => (h.inRange a ha).level_lt
  have hrange : ∀ a ∈ s.2.pending.take (numDue stopTs maxNumEvents s.2.pending),
      a.InRange s.2.slicer.numGroups := fun a ha => by
    rw [h.groups]
    exact h.inRange a (List.mem_of_mem_take ha)
  have hinv := @Slicer.processEvents_inv kHandleTID0 _ _ h.inv hrange
  rw [processNext_eq h.filed hlevel maxNumEvents (Nat.zero_add _)]
  cases hev : Slicer.processEvents kHandleTID0 s.2.slicer
      (s.2.pending.take (numDue stopTs maxNumEvents s.2.pending)) with
  | error e =>
    rw [hev] at hinv
    exact hinv
  | ok sl =>
    rw [hev] at hinv
    have hfiles := h.filed.processEvents (fun a ha => hlevel a (List.mem_of_mem_take ha)) hev
    have htakes := @takes_numDue stopTs maxNumEvents s.2 sl
    have hlen : (s.2.pending.take (numDue stopTs maxNumEvents s.2.pending)).length =
        numDue stopTs maxNumEvents s.2.pending := List.length_take_of_le htakes.le_length
    rw [Except.map, Nat.zero_add]
    refine ⟨htakes, ⟨?_, ?_, ?_, ?_⟩, hfiles.filed, hinv.1, hinv.2.1.trans h.groups,
      fun a ha => h.inRange a (List.mem_of_mem_drop ha)⟩
    · simp only [List.append_assoc, List.take_append_drop]
      exact h.consumed.inOrder
    · simp only [List.length_append, hlen, h.consumed.returned]
    · simp only [List.length_append, hfiles.processed, h.consumed.processed]
    · have hbalance := hfiles.balance
      have hslices := h.consumed.slices
      simp only
      omega

theorem Ready.apply (h : Ready numGroups arrived s) (kHandleTID0 : Bool) (op : Op)
    (hin : ∀ a ∈ arrivals [op], a.InRange numGroups) :
    Outcome (Ready numGroups (arrived ++ arrivals [op])) (op.apply kHandleTID0 s) := by
  cases op with
  | arrive as =>
    have harrivals : arrivals [.arrive as] = as := by simp [arrivals]
    rw [harrivals] at hin ⊢
    refine ⟨⟨?_, h.consumed.returned, h.consumed.processed, h.consumed.slices⟩, h.filed, h.inv,
      h.groups, fun a ha => ?_⟩
    · rw [← h.consumed.inOrder, List.append_assoc]
    · exact (List.mem_append.mp ha).elim (h.inRange a) (hin a)
  | processNext maxNumEvents stopTs =>
    have harrivals : arrivals [.processNext maxNumEvents stopTs] = [] := by simp [arrivals]
    have hcall := h.processNext kHandleTID0 stopTs maxNumEvents
    rw [harrivals, List.append_nil, Op.apply]
    cases hev : s.2.processNext kHandleTID0 stopTs maxNumEvents 0 with
    | error e =>
      rw [hev] at hcall
      exact hcall
    | ok r =>
      rw [hev] at hcall
      exact hcall.2

theorem Ready.run (h : Ready numGroups arrived s) (kHandleTID0 : Bool) (ops : List Op)
    (hin : ∀ a ∈ arrivals ops, a.InRange numGroups) :
    Outcome (Ready numGroups (arrived ++ arrivals ops)) (run kHandleTID0 s ops) := by
  induction ops generalizing s arrived with
  | nil =>
    have hnil : arrivals [] = [] := rfl
    rw [hnil, List.append_nil]
    exact h
  | cons op ops ih =>
    have hcons : arrivals (op :: ops) = arrivals [op] ++ arrivals ops := by simp [arrivals]
    rw [hcons] at hin ⊢
    have hop := h.apply kHandleTID0 op fun a ha => hin a (List.mem_append_left _ ha)
    rw [Feed.run, List.foldlM_cons]
    cases hev : op.apply kHandleTID0 s with
    | error e =>
      rw [hev] at hop
      exact hop
    | ok s' =>
      rw [hev] at hop
      rw [← List.append_assoc]
      exact ih hop fun a ha => hin a (List.mem_append_right _ ha)

/-- **Every event is consumed once.**  In every state of a run of events in range the
completed events are the first that came in, in their order, and the counts are right; and
the next call, whatever its limits, completes the events at the front that are due. -/
theorem events_consumed (kHandleTID0 : Bool) (numGroups : ℕ) (ops : List Op)
    (hin : ∀ a ∈ arrivals ops, a.InRange numGroups) :
    Outcome (fun s => Consumed (arrivals ops) s ∧ ∀ stopTs maxNumEvents,
        Outcome (Takes stopTs maxNumEvents s.2)
          (s.2.processNext kHandleTID0 stopTs maxNumEvents 0))
      (run kHandleTID0 (start numGroups) ops) := by
  have hrun := (ready_start numGroups).run kHandleTID0 ops hin
  cases hev : run kHandleTID0 (start numGroups) ops with
  | error e =>
    rw [hev] at hrun
    exact hrun
  | ok s =>
    rw [hev] at hrun
    have hready : Ready numGroups (arrivals ops) s := hrun
    refine ⟨hready.consumed, fun stopTs maxNumEvents => ?_⟩
    have hcall := hready.processNext kHandleTID0 stopTs maxNumEvents
    cases hnext : s.2.processNext kHandleTID0 stopTs maxNumEvents 0 with
    | error e =>
      rw [hnext] at hcall
      exact hcall
    | ok r =>
      rw [hnext] at hcall
      exact hcall.1

theorem events_consumed_sample :
    Outcome (fun s => Consumed (arrivals [.arrive Slicer.sampleEvents, .processNext 3 20]) s ∧
        ∀ stopTs maxNumEvents, Outcome (Takes stopTs maxNumEvents s.2)
          (s.2.processNext true stopTs maxNumEvents 0))
      (run true (start 2) [.arrive Slicer.sampleEvents, .processNext 3 20]) :=
  events_consumed true 2 [.arrive Slicer.sampleEvents, .processNext 3 20] (by decide)

/-- A call on the events that have come in at first. -/
theorem run_arrive_processNext (numGroups : ℕ) (as : List Arrival) (maxNumEvents stopTs : ℕ) :
    run kHandleTID0 (start numGroups) [.arrive as, .processNext maxNumEvents stopTs] =
      processNext kHandleTID0 stopTs maxNumEvents 0 ⟨as, [], Slicer.init numGroups⟩ := by
  rw [run, List.foldlM_cons, Op.apply, Fallible.bind_ok, List.foldlM_cons, Op.apply]
  simp only [start, List.nil_append, Nat.zero_add]
  cases processNext kHandleTID0 stopTs maxNumEvents 0 ⟨as, [], Slicer.init numGroups⟩ <;> rfl

/-- **An event behind one that is not due stays.**  The event at 5 is not completed by a
call that stops at 7, since the one at 10 is before it in the stream.  An event of a
compute unit that has no group ends the run, and so does a thread that is created
twice. -/
theorem not_events_consumed_behind :
    (∃ f, run true (start 1) [.arrive [Arrival.clean ⟨10, .switchIn, 0, 0, 3⟩,
        Arrival.clean ⟨5, .switchIn, 0, 0, 4⟩], .processNext 9 7] = .ok (0, f) ∧
      f.completed = [] ∧ ∃ a ∈ f.pending, a.ev.tstamp ≤ 7) ∧
    run true (start 1) [.arrive [Arrival.clean ⟨5, .switchIn, 0, 1, 3⟩], .processNext 9 7] =
      .error .groupOutOfRange ∧
    run true (start 1) [.arrive [Arrival.clean ⟨5, .threadCreation, 0, 0, 3⟩,
      Arrival.clean ⟨6, .threadCreation, 0, 0, 3⟩], .processNext 9 7] = .error .alreadyLinked := by
  have hfiled := Slicer.filed_init 1
  refine ⟨⟨⟨[Arrival.clean ⟨10, .switchIn, 0, 0, 3⟩, Arrival.clean ⟨5, .switchIn, 0, 0, 4⟩], [],
    Slicer.init 1⟩, ?_, rfl, by decide⟩, ?_, ?_⟩
  · rw [run_arrive_processNext, processNext_of_none rfl]
  · rw [run_arrive_processNext, processNext_eq hfiled (by decide) 9 rfl]
    rfl
  · rw [run_arrive_processNext, processNext_eq hfiled (by decide) 9 rfl]
    rfl

end Feed
end Tagstack
end IntegratedCLI
