import Mathlib.Algebra.BigOperators.Group.Finset.Basic
import Mathlib.Algebra.Order.BigOperators.Group.Finset
import IntegratedCLI.Tagstack.GenuineTags

/-!
# Windows of write errors

A producer that could not write its events says where the gap begins and where it ends.
In between nothing is known of its unit, and the slicer drops the events of all units.  It
keeps one number for the open windows of all units, which is unsigned.

`trackWindows` are the windows that are open, for each unit.  An end that arrives where no
window of its unit is open ends nothing: the start was before the first event.  The code
counts it all the same, so the number is right exactly in the runs without such an end
(`windows_counted_iff`); after one, it is wrong, and at the first event already nothing
else is handled any more (`not_windows_counted`).
-/

namespace IntegratedCLI
namespace Tagstack
namespace Slicer

/-- The open windows of each unit after an event. -/
def trackWindows (windows : ℕ → ℕ) (ev : Event) : ℕ → ℕ :=
  if ev.type = .writeErrorsStart then
    Function.update windows ev.compUnitId (windows ev.compUnitId + 1)
  else if ev.type = .writeErrorsEnd then
    Function.update windows ev.compUnitId (windows ev.compUnitId - 1)
  else windows

/-- The open windows of all units. -/
def openWindows (numGroups : ℕ) (windows : ℕ → ℕ) : ℕ :=
  ∑ g ∈ Finset.range numGroups, windows g

section Windows

variable {n g : ℕ} (windows : ℕ → ℕ)

theorem openWindows_update (hg : g < n) (k : ℕ) :
    openWindows n (Function.update windows g k) + windows g = openWindows n windows + k := by
  unfold openWindows
  have hmem : g ∈ Finset.range n := Finset.mem_range.mpr hg
  rw [← Finset.add_sum_erase _ _ hmem, ← Finset.add_sum_erase _ windows hmem,
    Function.update_self]
  have hrest : ∑ x ∈ (Finset.range n).erase g, Function.update windows g k x =
      ∑ x ∈ (Finset.range n).erase g, windows x :=
    Finset.sum_congr rfl fun x hx => Function.update_of_ne (Finset.ne_of_mem_erase hx) _ _
  rw [hrest]
  omega

theorem le_openWindows (hg : g < n) : windows g ≤ openWindows n windows :=
  Finset.single_le_sum (f := windows) (fun _ _ => Nat.zero_le _) (Finset.mem_range.mpr hg)

end Windows

variable {kHandleTID0 : Bool} {sl sl' : Slicer} {a : Arrival} {n : ℕ}

/-- The number of open windows after an event of the type. -/
def countWindows (k : ℕ) (type : EventType) : ℕ :=
  if type = .writeErrorsEnd then (k + (2 ^ 32 - 1)) % 2 ^ 32
  else if type = .writeErrorsStart then (k + 1) % 2 ^ 32
  else k

theorem handleWriteErrors_eq_some {ev : Event} (h : sl.handleWriteErrors ev = some sl') :
    sl'.numActiveWriteErrors = countWindows sl.numActiveWriteErrors ev.type ∧
      sl'.numGroups = sl.numGroups := by
  unfold handleWriteErrors at h
  unfold countWindows
  split_ifs at h with hend hstart
  all_goals rw [← Option.some.inj h]
  · rw [if_pos hend]
    exact ⟨rfl, rfl⟩
  · rw [if_neg hend, if_pos hstart]
    exact ⟨rfl, rfl⟩
  · rw [if_neg hend, if_neg hstart]
    exact ⟨rfl, rfl⟩

theorem handleWriteErrors_eq_none {ev : Event} :
    sl.handleWriteErrors ev = none ↔ ev.type ≠ .writeErrorsEnd ∧ ev.type ≠ .writeErrorsStart ∧
      sl.numActiveWriteErrors = 0 := by
  unfold handleWriteErrors
  split_ifs with hend hstart herrors <;> simp_all

theorem processEvent_windows (h : sl.processEvent kHandleTID0 a = .ok sl') :
    sl'.numActiveWriteErrors = countWindows sl.numActiveWriteErrors a.ev.type ∧
      sl'.numGroups = sl.numGroups ∧ a.ev.compUnitId < sl.numGroups := by
  have hout := makes_handleOutOfOrder (G := fun _ => True) sl a.ev
  have hlt : a.ev.compUnitId < sl.numGroups := by
    by_contra hle
    rw [processEvent, if_pos (not_lt.mp hle)] at h
    cases h
  cases hquiet : (sl.handleOutOfOrder a.ev).handleWriteErrors a.ev with
  | some sl₁ =>
    have heq : sl₁ = sl' := by
      rw [processEvent, if_neg (not_le.mpr hlt)] at h
      dsimp only at h
      rw [hquiet] at h
      exact Except.ok.inj h
    obtain ⟨herrors, hgroups⟩ := handleWriteErrors_eq_some (heq ▸ hquiet)
    rw [hout.numActiveWriteErrors] at herrors
    exact ⟨herrors, hgroups.trans hout.numGroups, hlt⟩
  | none =>
    have hmade := makes_processEvent hquiet h
    obtain ⟨hend, hstart, -⟩ := handleWriteErrors_eq_none.mp hquiet
    rw [countWindows, if_neg hend, if_neg hstart]
    exact ⟨hmade.numActiveWriteErrors, hmade.numGroups, hlt⟩

/-- An event of a window is handled wherever its unit has a group. -/
theorem processEvent_window (kHandleTID0 : Bool) (hlt : a.ev.compUnitId < sl.numGroups)
    (htype : a.ev.type = .writeErrorsEnd ∨ a.ev.type = .writeErrorsStart) :
    ∃ sl', sl.processEvent kHandleTID0 a = .ok sl' := by
  rw [processEvent, if_neg (not_le.mpr hlt)]
  dsimp only
  cases hquiet : (sl.handleOutOfOrder a.ev).handleWriteErrors a.ev with
  | some sl₁ => exact ⟨sl₁, rfl⟩
  | none =>
    obtain ⟨hend, hstart, -⟩ := handleWriteErrors_eq_none.mp hquiet
    exact absurd htype (not_or.mpr ⟨hend, hstart⟩)

/-! ## Runs -/

/-- The slicer beside the windows that are open. -/
abbrev Windowed := (ℕ → ℕ) × Except Fault Slicer

def stepWindowed (kHandleTID0 : Bool) (s : Windowed) (a : Arrival) : Windowed :=
  (trackWindows s.1 a.ev, s.2.bind fun sl => sl.processEvent kHandleTID0 a)

def startWindowed (numGroups : ℕ) : Windowed := (fun _ => 0, .ok (init numGroups))

/-- The slicer has counted the open windows. -/
def Counted (numGroups : ℕ) (s : Windowed) : Prop :=
  ∀ sl, s.2 = .ok sl → sl.numActiveWriteErrors = openWindows numGroups s.1

/-- A switch, phase or lifetime event is dropped exactly while a window is open. -/
def DroppedRight (numGroups : ℕ) (s : Windowed) (a : Arrival) : Prop :=
  ∀ sl, s.2 = .ok sl → (a.ev.isSwitch || a.ev.isPhase || a.ev.isThreadLifetime) = true →
    (((sl.handleOutOfOrder a.ev).handleWriteErrors a.ev).isSome = true ↔
      0 < openWindows numGroups s.1)

/-- A window that ends is open in its unit, and the number has room for one that starts. -/
def Matched (numGroups : ℕ) (s : Windowed) (a : Arrival) : Prop :=
  ∀ sl, s.2 = .ok sl → a.ev.compUnitId < numGroups →
    (a.ev.type = .writeErrorsEnd → 0 < s.1 a.ev.compUnitId) ∧
      (a.ev.type = .writeErrorsStart → openWindows numGroups s.1 + 1 < 2 ^ 32)

/-- The slicer has the groups of the run and has counted, below the bound of the number. -/
structure Right (n : ℕ) (s : Windowed) : Prop where
  numGroups : ∀ sl, s.2 = .ok sl → sl.numGroups = n
  counted : Counted n s
  bound : ∀ sl, s.2 = .ok sl → sl.numActiveWriteErrors < 2 ^ 32

theorem stepWindowed_ok {s : Windowed} (h : (stepWindowed kHandleTID0 s a).2 = .ok sl') :
    ∃ sl, s.2 = .ok sl ∧ sl.processEvent kHandleTID0 a = .ok sl' := by
  rw [stepWindowed] at h
  cases hs : s.2 with
  | error f =>
    rw [hs] at h
    cases h
  | ok sl =>
    rw [hs] at h
    exact ⟨sl, rfl, h⟩

theorem right_start (n : ℕ) : Right n (startWindowed n) := by
  refine ⟨fun sl hsl => ?_, fun sl hsl => ?_, fun sl hsl => ?_⟩
  all_goals rw [← Except.ok.inj hsl]
  · rfl
  · simp [init, openWindows, startWindowed]
  · simp [init]

/-- The number and the windows after an event, where the number was right before it. -/
theorem count_step {windows : ℕ → ℕ} {ev : Event} (hlt : ev.compUnitId < n)
    (hbound : openWindows n windows < 2 ^ 32) :
    countWindows (openWindows n windows) ev.type = openWindows n (trackWindows windows ev) ↔
      (ev.type = .writeErrorsEnd → 0 < windows ev.compUnitId) ∧
        (ev.type = .writeErrorsStart → openWindows n windows + 1 < 2 ^ 32) := by
  have hle := le_openWindows windows hlt
  rw [countWindows, trackWindows]
  cases htype : ev.type with
  | writeErrorsEnd =>
    have hupdate := openWindows_update windows hlt (windows ev.compUnitId - 1)
    simp only [if_true, reduceCtorEq, if_false, forall_const, IsEmpty.forall_iff, and_true]
    omega
  | writeErrorsStart =>
    have hupdate := openWindows_update windows hlt (windows ev.compUnitId + 1)
    simp only [if_true, reduceCtorEq, if_false, forall_const, IsEmpty.forall_iff, true_and]
    omega
  | _ => simp

theorem Right.step {s : Windowed} (h : Right n s) (hmatched : Matched n s a) :
    Right n (stepWindowed kHandleTID0 s a) := by
  refine ⟨fun sl' hsl' => ?_, fun sl' hsl' => ?_, fun sl' hsl' => ?_⟩
  all_goals
    obtain ⟨sl, hsl, hstep⟩ := stepWindowed_ok hsl'
    obtain ⟨hcount, hgroups, hlt⟩ := processEvent_windows hstep
    have hbound := h.bound sl hsl
    rw [h.numGroups sl hsl] at hgroups hlt
  · exact hgroups
  · rw [h.counted sl hsl] at hcount hbound
    exact hcount.trans ((count_step hlt hbound).mpr (hmatched sl hsl hlt))
  · rw [hcount, countWindows]
    split_ifs <;> omega

/-- An event that does not match leaves the number wrong. -/
theorem Right.not_counted {s : Windowed} (h : Right n s) (hnot : ¬ Matched n s a) :
    ¬ Counted n (stepWindowed kHandleTID0 s a) := by
  intro hcounted
  refine hnot fun sl hsl hlt => ?_
  have hbound := h.bound sl hsl
  rw [h.counted sl hsl] at hbound
  by_cases htype : a.ev.type = .writeErrorsEnd ∨ a.ev.type = .writeErrorsStart
  · have hgroup : a.ev.compUnitId < sl.numGroups := by
      rw [h.numGroups sl hsl]
      exact hlt
    obtain ⟨sl', hsl'⟩ := processEvent_window kHandleTID0 hgroup htype
    have hstep : (stepWindowed kHandleTID0 s a).2 = .ok sl' := by
      rw [stepWindowed, hsl]
      exact hsl'
    have hcount := (processEvent_windows hsl').1
    rw [h.counted sl hsl, hcounted sl' hstep] at hcount
    exact (count_step hlt hbound).mp hcount.symm
  · rw [not_or] at htype
    exact ⟨fun he => absurd he htype.1, fun hs => absurd hs htype.2⟩

theorem Right.droppedRight {s : Windowed} (h : Right n s) (a : Arrival) : DroppedRight n s a := by
  intro sl hsl htype
  rw [← h.counted sl hsl, ← Option.not_isNone, Bool.not_eq_true', ← Bool.not_eq_true,
    Option.isNone_iff_eq_none, handleWriteErrors_eq_none,
    (makes_handleOutOfOrder (G := fun _ => True) sl a.ev).numActiveWriteErrors]
  have hnot : a.ev.type ≠ .writeErrorsEnd ∧ a.ev.type ≠ .writeErrorsStart := by
    refine ⟨fun he => ?_, fun hs => ?_⟩
    · simp [Event.isSwitch, Event.isSwitchOut, Event.isPhase, Event.isThreadLifetime, he] at htype
    · simp [Event.isSwitch, Event.isSwitchOut, Event.isPhase, Event.isThreadLifetime, hs] at htype
  simp [hnot, Nat.pos_iff_ne_zero]

/-- **The windows are counted right exactly in the runs of matched ends.**  After every
event the number is that of the open windows, and an event is dropped exactly while there
is one, if and only if every window that ends is open in its unit, and there are never as
many windows as the number has values. -/
theorem windows_counted_iff (kHandleTID0 : Bool) (numGroups : ℕ) (as : List Arrival) :
    (Run.Throughout (stepWindowed kHandleTID0) (Counted numGroups) (startWindowed numGroups) as ∧
        Run.Along (stepWindowed kHandleTID0) (DroppedRight numGroups) (startWindowed numGroups) as) ↔
      Run.Along (stepWindowed kHandleTID0) (Matched numGroups) (startWindowed numGroups) as := by
  have hiff : Run.Throughout (stepWindowed kHandleTID0) (Counted numGroups)
      (startWindowed numGroups) as ↔
        Run.Along (stepWindowed kHandleTID0) (Matched numGroups) (startWindowed numGroups) as :=
    Run.throughout_iff_along_of_inv (fun _ _ h hmatched => Right.step h hmatched)
      (fun _ h => h.counted) (fun _ _ h hnot => h.not_counted hnot) (right_start numGroups)
  refine ⟨fun h => hiff.mp h.1, fun h => ⟨hiff.mpr h, ?_⟩⟩
  exact Run.along_of_inv (fun _ _ hs hmatched => Right.step hs hmatched)
    (fun _ a hs _ => hs.droppedRight a) (right_start numGroups) h

/-- The end of a window that was open before the first event, and a thread. -/
def lateEnd : List Arrival :=
  [Arrival.clean ⟨0, .writeErrorsEnd, 0, 0, 0⟩, Arrival.clean ⟨1, .switchIn, 0, 0, 5⟩]

/-- **After an end without a start every event is dropped.** -/
theorem not_windows_counted :
    (∀ a ∈ lateEnd, a.InRange 1) ∧
      (processEvents true (init 1) lateEnd).map
        (fun sl => (sl.numActiveWriteErrors, sl.stats.numDropped)) = .ok (2 ^ 32 - 1, 1) ∧
      ¬ (Run.Throughout (stepWindowed true) (Counted 1) (startWindowed 1) lateEnd ∧
        Run.Along (stepWindowed true) (DroppedRight 1) (startWindowed 1) lateEnd) := by
  refine ⟨by decide, by rfl, fun h => ?_⟩
  have hlast := h.1.last
  have hcount : (lateEnd.foldl (stepWindowed true) (startWindowed 1)).2.map
      numActiveWriteErrors = .ok (2 ^ 32 - 1) := by rfl
  have hwindows : openWindows 1 (lateEnd.foldl (stepWindowed true) (startWindowed 1)).1 = 0 := by
    decide
  cases hsl : (lateEnd.foldl (stepWindowed true) (startWindowed 1)).2 with
  | error f =>
    rw [hsl] at hcount
    cases hcount
  | ok sl =>
    rw [hsl] at hcount
    have heq : sl.numActiveWriteErrors = 2 ^ 32 - 1 := Except.ok.inj hcount
    have hzero := hlast sl hsl
    rw [heq, hwindows] at hzero
    exact absurd hzero (by decide)

end Slicer
end Tagstack
end IntegratedCLI
