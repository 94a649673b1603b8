import IntegratedCLI.Lib.Positions
import IntegratedCLI.Lib.RingMemory
import Mathlib.Data.List.DropRight
import Mathlib.Tactic.Common

/-!
# Series of samples in a ring

A `MetricSeries` keeps the newest samples in a vector whose length is fixed when it is
made: `tail` is where the next sample goes, `head` where the oldest is, and once the
vector is full every sample overwrites the oldest.

The iterators count the distance from the head, and wrap around at `size`, not at the
length of the vector.  `Holds.get?` shows that this is the same: as long as the vector
is not full the head is its first cell.

`Holds s xs` says that `xs` are all samples that were ever added to `s`.
`Holds.contents` reads the series back as the last ones of them.
-/

namespace IntegratedCLI
namespace Dynolog

structure MetricSeries (T : Type) where
  data : List T
  head : ℕ
  tail : ℕ
  size : ℕ
  deriving DecidableEq, Repr

namespace MetricSeries

variable {T : Type}

def make [Inhabited T] (bufferLen : ℕ) : MetricSeries T :=
  ⟨List.replicate bufferLen default, 0, 0, 0⟩

def maxLength (s : MetricSeries T) : ℕ := s.data.length

def idxNext (s : MetricSeries T) (idx : ℕ) : ℕ := (idx + 1) % s.data.length

def addSample (s : MetricSeries T) (sample : T) : MetricSeries T :=
  if s.size = s.data.length then
    { s with
      data := s.data.set s.tail sample
      tail := s.idxNext s.tail
      head := s.idxNext s.head }
  else
    { s with
      data := s.data.set s.tail sample
      tail := s.idxNext s.tail
      size := s.size + 1 }

/-- The cell at a distance from the head. -/
def dataIdx (s : MetricSeries T) (headDis : ℕ) : ℕ := (s.head + headDis) % s.size

/-- The sample at a distance from the head; an empty series has no iterator to read. -/
def get? (s : MetricSeries T) (idx : ℕ) : Option T :=
  if s.size = 0 then none else s.data[s.dataIdx idx]?

def incFromLastSample [Inhabited T] [Add T] (s : MetricSeries T) (delta : T) : MetricSeries T :=
  s.addSample ((s.get? (s.size - 1)).getD default + delta)

/-- The samples from one distance from the head up to another. -/
def raw (s : MetricSeries T) (begin_ end_ : ℕ) : List T :=
  (List.range' begin_ (end_ - begin_)).filterMap s.get?

/-- All samples of the series, `begin()` to `end()`. -/
def contents (s : MetricSeries T) : List T := s.raw 0 s.size

variable {s : MetricSeries T} {xs : List T} {x : T}

theorem data_addSample : (s.addSample x).data = s.data.set s.tail x := by
  rw [addSample]
  split <;> rfl

@[simp] theorem maxLength_addSample : (s.addSample x).maxLength = s.maxLength := by
  rw [maxLength, data_addSample, List.length_set, maxLength]

theorem tail_addSample : (s.addSample x).tail = s.idxNext s.tail := by
  rw [addSample]
  split <;> rfl

theorem head_addSample :
    (s.addSample x).head = if s.size = s.data.length then s.idxNext s.head else s.head := by
  rw [addSample]
  split <;> rfl

theorem size_addSample (h : s.size ≤ s.maxLength) :
    (s.addSample x).size = min (s.size + 1) s.maxLength := by
  rw [maxLength] at h ⊢
  rw [addSample]
  split
  · show s.size = _
    omega
  · show s.size + 1 = _
    omega

/-! ## What a series holds -/

/-- The samples that were added to the series, the overwritten ones included. -/
structure Holds (s : MetricSeries T) (xs : List T) : Prop where
  pos : 0 < s.data.length
  size : s.size = min xs.length s.data.length
  tail : s.tail = xs.length % s.data.length
  head : s.head = (xs.length - s.size) % s.data.length
  cells : RingMemory.Holds (fun i => s.data[i]?) s.data.length (xs.length - s.size) (xs.map some)

theorem holds_make [Inhabited T] {bufferLen : ℕ} (h : 0 < bufferLen) :
    (make bufferLen : MetricSeries T).Holds [] := by
  have hlen : (make bufferLen : MetricSeries T).data.length = bufferLen := List.length_replicate
  refine ⟨by rw [hlen]; exact h, ?_, ?_, ?_, fun i hi => absurd hi (Nat.not_lt_zero i)⟩
  · exact (Nat.zero_min _).symm
  · exact (Nat.zero_mod _).symm
  · exact (Nat.zero_mod _).symm

/-- The cell at the tail is written, and no other. -/
theorem getElem?_set_tail (ht : s.tail = xs.length % s.data.length) {a : ℕ}
    (ha : a < s.data.length) :
    (s.data.set s.tail x)[a]?
      = (([some x] : List (Option T))[RingMemory.offset s.data.length xs.length a]?).getD
          s.data[a]? := by
  rw [List.getElem?_set, ht, RingMemory.offset]
  by_cases h : xs.length % s.data.length = a
  · rw [if_pos h, if_pos (h ▸ ha), if_pos (Nat.le_of_eq h), h, Nat.sub_self]
    rfl
  · have hlt : xs.length % s.data.length < s.data.length := Nat.mod_lt _ (by omega)
    have hfar : ([some x] : List (Option T))[if xs.length % s.data.length ≤ a then
        a - xs.length % s.data.length else a + s.data.length - xs.length % s.data.length]?
          = none := by
      refine List.getElem?_eq_none ?_
      rw [List.length_singleton]
      split <;> omega
    rw [if_neg h, hfar]
    rfl

theorem Holds.addSample (h : s.Holds xs) : (s.addSample x).Holds (xs ++ [x]) := by
  obtain ⟨hpos, hsize, htail, hhead, hcells⟩ := h
  have hlen : (xs.map some).length = xs.length := List.length_map _
  have hcell : RingMemory.Holds (fun i => (s.data.set s.tail x)[i]?) s.data.length
      (xs.length + 1 - min (xs.length + 1) s.data.length) ((xs ++ [x]).map some) := by
    rw [List.map_append]
    refine (hcells.mono ?_).append ?_ ?_ fun a ha => ?_
    · omega
    · omega
    · rw [List.length_append, hlen, List.map_singleton, List.length_singleton]
      omega
    · rw [hlen]
      exact getElem?_set_tail htail ha
  have hnext : ∀ n, (n % s.data.length + 1) % s.data.length = (n + 1) % s.data.length :=
    fun n => Nat.mod_add_mod n s.data.length 1
  have hnew : (xs ++ [x]).length = xs.length + 1 := List.length_append
  have hsize' : (s.addSample x).size = min (xs.length + 1) s.data.length := by
    rw [size_addSample (hsize ▸ Nat.min_le_right _ _), maxLength]
    omega
  constructor
  · rw [data_addSample, List.length_set]
    exact hpos
  · rw [hsize', hnew, data_addSample, List.length_set]
  · rw [tail_addSample, data_addSample, List.length_set, hnew, idxNext, htail, hnext]
  · rw [head_addSample, data_addSample, List.length_set, hnew, hsize']
    split
    · rw [idxNext, hhead, hnext]
      congr 1
      omega
    · rw [hhead]
      congr 1
      omega
  · rw [data_addSample, List.length_set, hnew, hsize']
    exact hcell

theorem Holds.foldl_addSample (h : s.Holds xs) (ys : List T) :
    (ys.foldl MetricSeries.addSample s).Holds (xs ++ ys) := by
  induction ys generalizing s xs with
  | nil => rwa [List.append_nil]
  | cons y ys ih =>
    rw [List.foldl_cons, List.append_cons]
    exact ih h.addSample

theorem Holds.size_le (h : s.Holds xs) : s.size ≤ xs.length :=
  h.size ▸ Nat.min_le_left _ _

theorem Holds.size_le_maxLength (h : s.Holds xs) : s.size ≤ s.maxLength :=
  h.size ▸ Nat.min_le_right _ _

/-- The iterators wrap around at the size, and find what was added. -/
theorem Holds.get? (h : s.Holds xs) {i : ℕ} (hi : i < s.size) :
    s.get? i = xs[xs.length - s.size + i]? := by
  have hsize := h.size
  have hmod : s.dataIdx i = (xs.length - s.size + i) % s.data.length := by
    rw [dataIdx, h.head]
    by_cases hfull : s.size = s.data.length
    · rw [hfull, Nat.mod_add_mod]
    · have hall : xs.length - s.size = 0 := by omega
      rw [hall, Nat.zero_mod, Nat.zero_add, Nat.mod_eq_of_lt hi, Nat.mod_eq_of_lt (by omega)]
  have hlt : xs.length - s.size + i < xs.length := by omega
  have hcell := h.cells (xs.length - s.size + i) (by rwa [List.length_map]) (by omega)
  rw [MetricSeries.get?, if_neg (by omega), hmod, List.getElem?_eq_getElem hlt]
  rw [List.getElem_map] at hcell
  exact hcell

/-- A stretch of the series is that stretch of the samples that are kept. -/
theorem Holds.raw (h : s.Holds xs) {begin_ end_ : ℕ} (hend : end_ ≤ s.size) :
    s.raw begin_ end_
      = ((xs.drop (xs.length - s.size)).drop begin_).take (end_ - begin_) := by
  rw [← Positions.filterMap_getElem?_range']
  refine List.filterMap_congr fun i hi => ?_
  rw [List.mem_range'_1] at hi
  rw [h.get? (by omega), List.getElem?_drop]

theorem Holds.contents_eq (h : s.Holds xs) : s.contents = xs.drop (xs.length - s.size) := by
  rw [MetricSeries.contents, h.raw (Nat.le_refl _), List.drop_zero, Nat.sub_zero,
    List.take_of_length_le]
  have := h.size_le
  rw [List.length_drop]
  omega

/-- **A series holds the newest samples.** -/
theorem Holds.contents (h : s.Holds xs) : s.contents = xs.rtake s.maxLength := by
  have hsize := h.size
  rw [h.contents_eq, List.rtake, maxLength]
  congr 1
  omega

theorem Holds.length_contents (h : s.Holds xs) : s.contents.length = s.size := by
  have := h.size_le
  rw [h.contents_eq, List.length_drop]
  omega

theorem Holds.getElem?_contents (h : s.Holds xs) {i : ℕ} (hi : i < s.size) :
    s.contents[i]? = s.get? i := by
  rw [h.contents_eq, List.getElem?_drop, h.get? hi]

theorem Holds.raw_eq (h : s.Holds xs) {begin_ end_ : ℕ} (hend : end_ ≤ s.size) :
    s.raw begin_ end_ = (s.contents.drop begin_).take (end_ - begin_) := by
  rw [h.raw hend, h.contents_eq]

end MetricSeries

end Dynolog
end IntegratedCLI
