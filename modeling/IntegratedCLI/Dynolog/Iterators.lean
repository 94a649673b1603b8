import IntegratedCLI.Dynolog.SeriesWidths

/-!
# Moving the iterators of a series

The operators of the iterators of `MetricSeries`.  An iterator keeps its distance to the
head of the series as a `size_t`, and is moved by an `int`.

`position s i` is the iterator at the sample `i`.  The operators move it to the position
that the sum of its index and of the offset is (`add_position`, `sub_position`), except for
`-=`, which adds the offset, as `+=` does.  Hence `-=` is right for no offset but zero
(`subAssign_position_iff`).
-/

namespace IntegratedCLI
namespace Dynolog
namespace SeriesWidths

open Widths

variable {T : Type}

namespace Iterator

def prev (it : Iterator T) : Iterator T := { it with headDis := toSize (it.headDis - 1) }

/-- The iterator after `++`, and what the postfix operator returns. -/
def postNext (it : Iterator T) : Iterator T × Iterator T := (it.next, it)

def postPrev (it : Iterator T) : Iterator T × Iterator T := (it.prev, it)

/-- `dis + it`. -/
def addTo (dis : ℤ) (it : Iterator T) : Iterator T := it.add dis

/-- `it += dis`. -/
def addAssign (it : Iterator T) (dis : ℤ) : Iterator T :=
  { it with headDis := toSize (it.headDis + toSize dis) }

/-- `it - dis`. -/
def sub (it : Iterator T) (dis : ℤ) : Iterator T :=
  { it with headDis := toSize (it.headDis - toSize dis) }

/-- `it -= dis`. -/
def subAssign (it : Iterator T) (dis : ℤ) : Iterator T :=
  { it with headDis := toSize (it.headDis + toSize dis) }

/-- `it[dis]`. -/
def index (it : Iterator T) (dis : ℤ) : Option T := (it.add dis).deref

def eq (lhs rhs : Iterator T) : Bool := lhs.headDis == rhs.headDis

def ne (lhs rhs : Iterator T) : Bool := lhs.headDis != rhs.headDis

def lt (lhs rhs : Iterator T) : Bool := decide (lhs.headDis < rhs.headDis)

def le (lhs rhs : Iterator T) : Bool := decide (lhs.headDis ≤ rhs.headDis)

def gt (lhs rhs : Iterator T) : Bool := decide (rhs.headDis < lhs.headDis)

def ge (lhs rhs : Iterator T) : Bool := decide (rhs.headDis ≤ lhs.headDis)

/-- The comparisons tell the sign of the difference. -/
structure Compares (lhs rhs : Iterator T) : Prop where
  eq : lhs.eq rhs = true ↔ rhs.distance lhs = 0
  ne : lhs.ne rhs = true ↔ rhs.distance lhs ≠ 0
  lt : lhs.lt rhs = true ↔ rhs.distance lhs < 0
  le : lhs.le rhs = true ↔ rhs.distance lhs ≤ 0
  gt : lhs.gt rhs = true ↔ 0 < rhs.distance lhs
  ge : lhs.ge rhs = true ↔ 0 ≤ rhs.distance lhs

/-- The steps go on and back by one. -/
structure StepsByOne (it : Iterator T) : Prop where
  next : it.next = it.add 1
  prev : it.prev = it.sub 1
  postNext : it.postNext = (it.add 1, it)
  postPrev : it.postPrev = (it.sub 1, it)

/-- What moving an iterator on by an offset does. -/
structure MovesOn (it : Iterator T) (n : ℤ) : Prop where
  distance : it.distance (it.add n) = n
  addTo : addTo n it = it.add n
  addAssign : it.addAssign n = it.add n
  sub : (it.add n).sub n = it
  index : it.index n = (it.add n).deref
  compares : (it.add n).Compares it

/-- And what moving it back does: from the iterator that the offset leads to, so that it
stays within the series. -/
structure Lawful (it : Iterator T) (n : ℤ) : Prop extends it.MovesOn n where
  subAssign : (it.add n).subAssign n = (it.add n).sub n
  undo : (it.addAssign n).subAssign n = it

end Iterator

/-- The iterator at the sample of an index. -/
def position (s : MetricSeries T) (i : ℕ) : Iterator T := ⟨s.data, s.size, s.head, i⟩

variable {s : MetricSeries T} {xs : List T} {i j : ℕ} {n : ℤ}

/-! ## Positions -/

theorem add_position (hij : (j : ℤ) = i + n) (hj : j < 2 ^ 64) :
    (position s i).add n = position s j := by
  have hdis : toSize ((i : ℤ) + toSize n) = j := by
    unfold toSize
    rw [unsigned_add_unsigned, ← hij]
    exact unsigned_natCast hj
  unfold Iterator.add
  simp only [position, hdis]

theorem sub_position (hij : (j : ℤ) = i + n) (hi : i < 2 ^ 64) :
    (position s j).sub n = position s i := by
  have hback : (j : ℤ) - n = i := by omega
  have hdis : toSize ((j : ℤ) - toSize n) = i := by
    unfold toSize
    rw [unsigned_sub_unsigned, hback]
    exact unsigned_natCast hi
  unfold Iterator.sub
  simp only [position, hdis]

/-- A distance that is an `int` is told. -/
theorem distance_position (hij : (j : ℤ) = i + n) (hlow : -2 ^ 31 ≤ n) (hhigh : n < 2 ^ 31) :
    (position s i).distance (position s j) = n := by
  have hdis : (j : ℤ) - i = n := by omega
  unfold Iterator.distance Iterator.steps toInt toSize
  simp only [position, hdis]
  rw [signed_unsigned (by decide), signed_eq hlow hhigh]

theorem compares_position (hij : (j : ℤ) = i + n) (hlow : -2 ^ 31 ≤ n) (hhigh : n < 2 ^ 31) :
    (position s j).Compares (position s i) := by
  have hdis := distance_position (s := s) hij hlow hhigh
  constructor
  · rw [hdis, Iterator.eq, beq_iff_eq]
    show j = i ↔ n = 0
    omega
  · rw [hdis, Iterator.ne, bne_iff_ne]
    show j ≠ i ↔ n ≠ 0
    omega
  · rw [hdis, Iterator.lt, decide_eq_true_iff]
    show j < i ↔ n < 0
    omega
  · rw [hdis, Iterator.le, decide_eq_true_iff]
    show j ≤ i ↔ n ≤ 0
    omega
  · rw [hdis, Iterator.gt, decide_eq_true_iff]
    show i < j ↔ 0 < n
    omega
  · rw [hdis, Iterator.ge, decide_eq_true_iff]
    show i ≤ j ↔ 0 ≤ n
    omega

theorem movesOn_position (hij : (j : ℤ) = i + n) (hj : j < 2 ^ 63) (hlow : -2 ^ 31 ≤ n)
    (hhigh : n < 2 ^ 31) : (position s i).MovesOn n := by
  have hadd : (position s i).add n = position s j := add_position hij (by omega)
  constructor
  · rw [hadd, distance_position hij hlow hhigh]
  · rfl
  · rfl
  · rw [hadd, sub_position hij (by omega)]
  · rfl
  · rw [hadd]
    exact compares_position hij hlow hhigh

theorem stepsByOne (it : Iterator T) : it.StepsByOne := ⟨rfl, rfl, rfl, rfl⟩

/-- The offset is added once more. -/
theorem subAssign_position_iff (hij : (j : ℤ) = i + n) (hj : j < 2 ^ 63) (hlow : -2 ^ 31 ≤ n)
    (hhigh : n < 2 ^ 31) :
    (position s j).subAssign n = position s i ↔ n = 0 := by
  have hdis : toSize ((j : ℤ) + toSize n) = i ↔ n = 0 := by
    unfold toSize
    rw [unsigned_add_unsigned, unsigned]
    omega
  rw [← hdis]
  refine ⟨fun h => congrArg Iterator.headDis h, fun h => ?_⟩
  unfold Iterator.subAssign
  simp only [position, h]

/-- **The iterators are lawful**, all but the operator `-=`, which is right where it does
not move. -/
theorem iterators_lawful_iff (h : s.Holds xs) (hlt : s.size < 2 ^ 63) :
    range (begin_ s) (end_ s) = some (xs.rtake s.maxLength) ∧
    (∀ it : Iterator T, it.StepsByOne) ∧
    ∀ (i j : ℕ) (n : ℤ), i ≤ s.size → j ≤ s.size → (j : ℤ) = i + n → -2 ^ 31 ≤ n → n < 2 ^ 31 →
      (j < s.size → (position s i).index n = (xs.rtake s.maxLength)[j]?) ∧
      (position s i).MovesOn n ∧ ((position s i).Lawful n ↔ n = 0) := by
  rw [← h.contents]
  refine ⟨range_eq h hlt, stepsByOne, fun i j n hi hj hij hlow hhigh => ?_⟩
  have hadd : (position s i).add n = position s j := add_position hij (by omega)
  have hmoves : (position s i).MovesOn n := movesOn_position hij (by omega) hlow hhigh
  have hback : (position s j).subAssign n = position s i ↔ n = 0 :=
    subAssign_position_iff hij (by omega) hlow hhigh
  refine ⟨fun hin => ?_, hmoves, ?_⟩
  · rw [Iterator.index, hadd]
    exact deref_eq h hlt hin
  · constructor
    · intro hlawful
      have hundo := hlawful.undo
      rw [hmoves.addAssign, hadd] at hundo
      exact hback.mp hundo
    · intro hzero
      have hsub := hback.mpr hzero
      refine ⟨hmoves, ?_, ?_⟩
      · rw [hmoves.sub, hadd, hsub]
      · rw [hmoves.addAssign, hadd, hsub]

/-- A ring of two samples that has wrapped around. -/
def wrapped : MetricSeries ℤ := (((make 2).addSample 3).addSample 5).addSample 7

theorem holds_wrapped : wrapped.Holds [3, 5, 7] :=
  (((holds_make (by decide)).addSample).addSample).addSample

/-- From the begin of the ring to its end. -/
theorem iterators_lawful_wrapped :
    (position wrapped 0).MovesOn 2 ∧ ((position wrapped 0).Lawful 2 ↔ (2 : ℤ) = 0) :=
  ((iterators_lawful_iff holds_wrapped (by decide)).2.2 0 2 2 (by decide) (by decide) rfl
    (by decide) (by decide)).2

/-- One step on and one back is two steps on. -/
theorem not_lawful_wrapped :
    wrapped.Holds [3, 5, 7] ∧ ((position wrapped 0).addAssign 1).subAssign 1 = position wrapped 2 ∧
      ¬ (position wrapped 0).Lawful 1 := by
  refine ⟨holds_wrapped, rfl, fun hlawful => ?_⟩
  have hheads := congrArg Iterator.headDis hlawful.undo
  exact absurd hheads (by decide)

end SeriesWidths
end Dynolog
end IntegratedCLI
