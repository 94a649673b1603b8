import IntegratedCLI.Tagstack.IntervalExactness

/-!
# The slice at a time stamp

`findSliceAt` of `Slicer.h` scans the slices for the one that a time stamp is in.  It goes
on where the slice begins before the time stamp or ends at it or after it, so what it would
return is a slice that begins at the time stamp or after it and has ended before it.  A
slice that is not empty is not one (`findSliceAt_eq_none`).
-/

namespace IntegratedCLI
namespace Tagstack

/-- The time stamp is in the interval of the slice. -/
def Slice.Contains (s : Slice) (tstamp : ℕ) : Prop := s.tstamp ≤ tstamp ∧ tstamp < s.tstampEnd

instance (s : Slice) (tstamp : ℕ) : Decidable (s.Contains tstamp) :=
  inferInstanceAs (Decidable (_ ∧ _))

def findSliceAt (slices : List Slice) (tstamp : ℕ) : Option ℕ :=
  slices.findIdx? fun s => !(decide (s.tstamp < tstamp) || decide (tstamp ≤ s.endStamp))

/-- The result is the index of the slice that the time stamp is in, and is none if there is
no such slice. -/
structure LooksUp (slices : List Slice) (tstamp : ℕ) (result : Option ℕ) : Prop where
  found : ∀ i, result = some i → ∃ s, slices[i]? = some s ∧ s.Contains tstamp
  notFound : result = none → ∀ s ∈ slices, ¬ s.Contains tstamp

variable {slices : List Slice}

/-- The scan passes over every slice. -/
theorem findSliceAt_eq_none (h : Ordered slices) (tstamp : ℕ) :
    findSliceAt slices tstamp = none := by
  refine List.findIdx?_eq_none_iff.mpr fun s hs => ?_
  have hend := Request.endStamp_eq (h.ends s hs)
  rw [Bool.not_eq_false', Bool.or_eq_true, decide_eq_true_iff, decide_eq_true_iff, hend]
  rcases Nat.lt_or_ge s.tstamp tstamp with hlt | hge
  · exact Or.inl hlt
  · exact Or.inr (Nat.le_trans hge (Nat.le_add_right s.tstamp s.duration))

/-- **A look up is right** where there is nothing to be found. -/
theorem findSliceAt_iff (h : Ordered slices) (tstamp : ℕ) :
    LooksUp slices tstamp (findSliceAt slices tstamp) ↔ ∀ s ∈ slices, ¬ s.Contains tstamp := by
  rw [findSliceAt_eq_none h]
  exact ⟨fun hlook => hlook.notFound rfl, fun hnone => ⟨fun _ hi => (nomatch hi), fun _ => hnone⟩⟩

/-- A slice from 10 to 20 and one from 30 to 35. -/
def twoSlices : List Slice :=
  [⟨10, 10, 1, .threadYield, .threadYield⟩, ⟨30, 5, 2, .threadYield, .threadYield⟩]

theorem ordered_twoSlices : Ordered twoSlices :=
  ⟨⟨by decide, by decide⟩, by decide⟩

/-- In the gap nothing is found. -/
theorem findSliceAt_gap : LooksUp twoSlices 25 (findSliceAt twoSlices 25) :=
  (findSliceAt_iff ordered_twoSlices 25).mpr (by decide)

/-- In the first slice nothing is found, either. -/
theorem not_findSliceAt_inside :
    Ordered twoSlices ∧ ¬ LooksUp twoSlices 15 (findSliceAt twoSlices 15) := by
  refine ⟨ordered_twoSlices, fun h => ?_⟩
  have hnone : findSliceAt twoSlices 15 = none := by decide
  exact h.notFound hnone ⟨10, 10, 1, .threadYield, .threadYield⟩ List.mem_cons_self (by decide)

end Tagstack
end IntegratedCLI
