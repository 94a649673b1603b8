import Mathlib.Algebra.Ring.Int.Defs
import IntegratedCLI.Lib.Widths
import IntegratedCLI.Dynolog.MetricSeries

/-!
# Series of more samples than an `int` counts

`MetricSeries` keeps its indices as `size_t` and hands them around as `int`: `idxNext`
takes and returns one, and so is the `difference_type` of its iterators, the distance that
`begin() + idx` goes and that `end() - begin()` is.  Here the functions are as the code has
them, with the conversions.  They are those of the file that they extend as long as the
series holds less than `2 ^ 31` samples (`addSample_eq`, `at_eq`, `range_eq`, `raw_eq`).

From `2 ^ 31` samples on the next index is one past the last `int`, and `raw` gets a
distance that is not the number of its samples, so that it cannot be read.

What the language leaves undefined (an `int` that overflows, a cell past the data, a
remainder by zero) and what throws is `none`.
-/

namespace IntegratedCLI
namespace Dynolog
namespace SeriesWidths

open Widths

variable {T : Type}

/-- A `size_t` as an `int`. -/
def toInt (n : ℕ) : ℤ := signed 32 n

/-- An `int` as a `size_t`, and what an operation on `size_t` wraps around to. -/
def toSize (i : ℤ) : ℕ := unsigned 64 i

/-! ## Iterators -/

structure Iterator (T : Type) where
  data : List T
  size : ℕ
  headIdx : ℕ
  headDis : ℕ

namespace Iterator

def dataIdx (it : Iterator T) : Option ℕ :=
  if it.size = 0 then none else some (toSize (it.headIdx + it.headDis) % it.size)

def deref (it : Iterator T) : Option T :=
  match it.dataIdx with
  | none => none
  | some idx => it.data[idx]?

def next (it : Iterator T) : Iterator T := { it with headDis := toSize (it.headDis + 1) }

def add (it : Iterator T) (dis : ℤ) : Iterator T :=
  { it with headDis := toSize (it.headDis + toSize dis) }

/-- How often the one iterator has to be moved on to be the other. -/
def steps (it last : Iterator T) : ℕ := toSize (last.headDis - it.headDis)

/-- `last - it`, an `int`. -/
def distance (it last : Iterator T) : ℤ := toInt (it.steps last)

/-- The samples of the next so many positions. -/
def read (it : Iterator T) : ℕ → Option (List T)
  | 0 => some []
  | n + 1 =>
    match it.deref, it.next.read n with
    | some sample, some rest => some (sample :: rest)
    | _, _ => none

end Iterator

def begin_ (s : MetricSeries T) : Iterator T := ⟨s.data, s.size, s.head, 0⟩

def end_ (s : MetricSeries T) : Iterator T := ⟨s.data, s.size, s.head, s.size⟩

/-- What a loop from one iterator to another reads. -/
def range (first last : Iterator T) : Option (List T) := first.read (first.steps last)

def at_ (s : MetricSeries T) (idx : ℕ) : Option T := ((begin_ s).add (toInt idx)).deref

/-- `operator[]`. -/
def index (s : MetricSeries T) (idx : ℕ) : Option T := ((begin_ s).add (toInt idx)).deref

/-- A vector of a range: room for as many samples as the distance says, which throws where
that is negative, then all samples of the range one after the other. -/
def raw (first last : Iterator T) : Option (List T) :=
  if first.distance last = first.steps last then range first last else none

/-! ## Samples -/

def idxNext (s : MetricSeries T) (idx : ℤ) : Option ℤ :=
  if idx + 1 = 2 ^ 31 ∨ s.data.length = 0 then none
  else some (toInt (toSize (idx + 1) % s.data.length))

def addSample (s : MetricSeries T) (sample : T) : Option (MetricSeries T) :=
  if s.data.length ≤ s.tail then none
  else if s.size = s.data.length then
    match idxNext s (toInt s.tail), idxNext s (toInt s.head) with
    | some tail, some head =>
      some { s with data := s.data.set s.tail sample, tail := toSize tail, head := toSize head }
    | _, _ => none
  else
    match idxNext s (toInt s.tail) with
    | some tail =>
      some { s with
        data := s.data.set s.tail sample, tail := toSize tail, size := toSize (s.size + 1) }
    | none => none

def make [Zero T] (bufferLen : ℕ) : MetricSeries T := ⟨List.replicate bufferLen 0, 0, 0, 0⟩

def incFromLastSample [Zero T] [Add T] (s : MetricSeries T) (delta : T) :
    Option (MetricSeries T) :=
  if 0 < s.size then
    match at_ s (toSize (s.size - 1)) with
    | some lastSample => addSample s (lastSample + delta)
    | none => none
  else addSample s (0 + delta)

inductive Call (T : Type) where
  | addSample (sample : T)
  | incFromLastSample (delta : T)
  deriving DecidableEq, Repr

def Call.run [Zero T] [Add T] (s : MetricSeries T) : Call T → Option (MetricSeries T)
  | .addSample sample => SeriesWidths.addSample s sample
  | .incFromLastSample delta => SeriesWidths.incFromLastSample s delta

def run [Zero T] [Add T] (capacity : ℕ) (calls : List (Call T)) : Option (MetricSeries T) :=
  calls.foldlM Call.run (make capacity)

/-- The value that a call adds to those that were added before. -/
def Call.value [Add T] (values : List T) : Call T → T
  | .addSample sample => sample
  | .incFromLastSample delta =>
    match values.getLast? with
    | some last => last + delta
    | none => delta

def valuesFrom [Add T] (values : List T) (calls : List (Call T)) : List T :=
  calls.foldl (fun values call => values ++ [call.value values]) values

/-- What a series yields, in every way that it can be read. -/
structure Yields (s : MetricSeries T) (capacity : ℕ) (xs : List T) : Prop where
  size : s.size = min xs.length capacity
  range : range (begin_ s) (end_ s) = some (xs.rtake capacity)
  at_ : ∀ i < s.size, at_ s i = (xs.rtake capacity)[i]?
  index : ∀ i < s.size, index s i = (xs.rtake capacity)[i]?
  raw : raw (begin_ s) (end_ s) = some (xs.rtake capacity)

/-! ## Below `2 ^ 31` samples -/

theorem toInt_eq {n : ℕ} (h : n < 2 ^ 31) : toInt n = n :=
  signed_eq (by omega) (by omega)

theorem toSize_eq {n : ℕ} (h : n < 2 ^ 64) : toSize n = n := unsigned_natCast h

variable {s : MetricSeries T} {xs : List T} {x : T}

theorem idxNext_eq {k : ℕ} (hk : k + 1 < 2 ^ 31) (hpos : 0 < s.data.length) :
    idxNext s (toInt k) = some (s.idxNext k : ℤ) := by
  have hle : (k + 1) % s.data.length ≤ k + 1 := Nat.mod_le _ _
  have hsucc : toSize ((k : ℤ) + 1) = k + 1 := toSize_eq (n := k + 1) (by omega)
  rw [idxNext, toInt_eq (by omega), if_neg (by omega), hsucc, toInt_eq (by omega)]
  rfl

theorem toSize_idxNext {k : ℕ} (hk : k + 1 < 2 ^ 31) : toSize (s.idxNext k : ℤ) = s.idxNext k := by
  have hle : (k + 1) % s.data.length ≤ k + 1 := Nat.mod_le _ _
  exact toSize_eq (by rw [MetricSeries.idxNext]; omega)

/-- The next sample goes where it goes without the conversions. -/
theorem addSample_eq (h : s.Holds xs) (hlt : min (xs.length + 1) s.data.length < 2 ^ 31) :
    addSample s x = some (s.addSample x) := by
  have hpos := h.pos
  have hsize := h.size
  have htail : s.tail < s.data.length := h.tail ▸ Nat.mod_lt _ hpos
  have htail' : s.tail ≤ xs.length := h.tail ▸ Nat.mod_le _ _
  rw [addSample, if_neg (by omega), idxNext_eq (by omega) hpos, MetricSeries.addSample]
  by_cases hfull : s.size = s.data.length
  · have hhead : s.head < s.data.length := h.head ▸ Nat.mod_lt _ hpos
    rw [if_pos hfull, if_pos hfull, idxNext_eq (by omega) hpos]
    simp only [toSize_idxNext (show s.tail + 1 < 2 ^ 31 by omega),
      toSize_idxNext (show s.head + 1 < 2 ^ 31 by omega)]
  · have hsucc : toSize ((s.size : ℤ) + 1) = s.size + 1 := toSize_eq (n := s.size + 1) (by omega)
    rw [if_neg hfull, if_neg hfull]
    simp only [toSize_idxNext (show s.tail + 1 < 2 ^ 31 by omega), hsucc]

/-- An iterator reads what is at its distance from the head. -/
theorem deref_eq (h : s.Holds xs) (hlt : s.size < 2 ^ 63) {i : ℕ} (hi : i < s.size) :
    Iterator.deref ⟨s.data, s.size, s.head, i⟩ = s.contents[i]? := by
  have hpos := h.pos
  have hsize := h.size
  have hsum : s.head + i < 2 ^ 64 := by
    by_cases hfull : s.size = s.data.length
    · have hhead : s.head < s.data.length := h.head ▸ Nat.mod_lt _ hpos
      omega
    · have hall : xs.length - s.size = 0 := by omega
      have hhead : s.head = 0 := by rw [h.head, hall, Nat.zero_mod]
      omega
  have hidx : Iterator.dataIdx ⟨s.data, s.size, s.head, i⟩ = some (s.dataIdx i) := by
    have hcast : toSize ((s.head : ℤ) + (i : ℤ)) = s.head + i := toSize_eq (n := s.head + i) hsum
    rw [Iterator.dataIdx, if_neg (show ¬ s.size = 0 by omega)]
    simp only [hcast]
    rfl
  rw [Iterator.deref, hidx, h.getElem?_contents hi, MetricSeries.get?, if_neg (by omega)]

theorem read_eq (h : s.Holds xs) (hlt : s.size < 2 ^ 63) {i n : ℕ} (hi : i + n ≤ s.size) :
    Iterator.read ⟨s.data, s.size, s.head, i⟩ n = some ((s.contents.drop i).take n) := by
  induction n generalizing i with
  | zero => rw [Iterator.read, List.take_zero]
  | succ n ih =>
    have hcontents := h.length_contents
    have hin : i < s.contents.length := by omega
    have hsucc : toSize ((i : ℤ) + 1) = i + 1 := toSize_eq (n := i + 1) (by omega)
    have hnext : Iterator.next ⟨s.data, s.size, s.head, i⟩ = ⟨s.data, s.size, s.head, i + 1⟩ := by
      rw [Iterator.next]
      simp only [hsucc]
    rw [Iterator.read, deref_eq h hlt (by omega), hnext, ih (by omega),
      List.getElem?_eq_getElem hin, List.drop_eq_getElem_cons hin, List.take_succ_cons]

theorem at_eq (h : s.Holds xs) (hlt : s.size < 2 ^ 31) {i : ℕ} (hi : i < s.size) :
    at_ s i = s.contents[i]? := by
  have hdis : toSize (((0 : ℕ) : ℤ) + (toSize (toInt i) : ℤ)) = i := by
    rw [toInt_eq (by omega), toSize_eq (by omega), Int.natCast_zero, Int.zero_add,
      toSize_eq (by omega)]
  rw [at_, ← deref_eq h (by omega) hi, Iterator.add, begin_]
  simp only [hdis]

theorem steps_eq (hlt : s.size < 2 ^ 64) : (begin_ s).steps (end_ s) = s.size := by
  rw [Iterator.steps]
  show toSize ((s.size : ℤ) - ((0 : ℕ) : ℤ)) = s.size
  rw [Int.natCast_zero, Int.sub_zero, toSize_eq hlt]

theorem range_eq (h : s.Holds xs) (hlt : s.size < 2 ^ 63) :
    range (begin_ s) (end_ s) = some s.contents := by
  rw [range, steps_eq (by omega), begin_, read_eq h hlt (by omega), List.drop_zero,
    List.take_of_length_le h.length_contents.le]

/-- **The values that were added last are yielded**, while an `int` counts them. -/
theorem yields (h : s.Holds xs) (hlt : s.size < 2 ^ 31) : Yields s s.maxLength xs where
  size := h.size
  range := by rw [range_eq h (by omega), h.contents]
  at_ i hi := by rw [at_eq h hlt hi, h.contents]
  index i hi := by rw [← h.contents, ← at_eq h hlt hi]; rfl
  raw := by
    rw [raw, Iterator.distance, steps_eq (by omega), if_pos (toInt_eq hlt),
      range_eq h (by omega), h.contents]

/-- A distance that is not an `int` is not the number of the samples. -/
theorem Yields.size_lt {capacity : ℕ} (h : Yields s capacity xs) (hcapacity : capacity < 2 ^ 64) :
    min xs.length capacity < 2 ^ 31 := by
  have hsize := h.size
  have hraw := h.raw
  rw [SeriesWidths.raw, Iterator.distance, steps_eq (by omega)] at hraw
  split at hraw
  · rename_i hint
    have hlt : toInt s.size < 2 ^ 31 := signed_lt
    omega
  · cases hraw

/-! ## Runs -/

variable [AddZeroClass T] {calls : List (Call T)} {call : Call T}

theorem length_valuesFrom : (valuesFrom xs calls).length = xs.length + calls.length := by
  induction calls generalizing xs with
  | nil => rfl
  | cons call calls ih =>
    rw [valuesFrom, List.foldl_cons, ← valuesFrom, ih, List.length_append, List.length_singleton,
      List.length_cons, Nat.add_assoc, Nat.add_comm 1]

/-- A call adds its value. -/
theorem run_eq (h : s.Holds xs) (hlt : min (xs.length + 1) s.data.length < 2 ^ 31) :
    call.run s = some (s.addSample (call.value xs)) := by
  have hpos := h.pos
  have hsize := h.size
  cases call with
  | addSample sample =>
    rw [Call.run, Call.value, addSample_eq h hlt]
  | incFromLastSample delta =>
    rw [Call.run, incFromLastSample]
    by_cases h0 : 0 < s.size
    · have hlast : (s.size : ℤ) - 1 = (s.size - 1 : ℕ) := by omega
      have hin : xs.length - 1 < xs.length := by omega
      have hread : s.contents[s.size - 1]? = some xs[xs.length - 1] := by
        rw [h.getElem?_contents (by omega), h.get? (by omega), ← List.getElem?_eq_getElem hin]
        congr 1
        omega
      rw [if_pos h0, hlast, toSize_eq (by omega), at_eq h (by omega) (by omega), hread, Call.value,
        List.getLast?_eq_getElem?, List.getElem?_eq_getElem hin]
      simp only [addSample_eq h hlt]
    · have hnil : xs = [] := List.length_eq_zero_iff.mp (by omega)
      rw [if_neg h0, zero_add, addSample_eq h hlt, hnil]
      rfl

/-- **A run holds the values of its calls**, while an `int` counts what is kept. -/
theorem foldlM_run (h : s.Holds xs)
    (hlt : min (xs.length + calls.length) s.maxLength < 2 ^ 31) :
    ∃ s', calls.foldlM Call.run s = some s' ∧ s'.Holds (valuesFrom xs calls)
      ∧ s'.maxLength = s.maxLength := by
  induction calls generalizing s xs with
  | nil => exact ⟨s, rfl, h, rfl⟩
  | cons call calls ih =>
    rw [List.length_cons] at hlt
    have hone : min (xs.length + 1) s.data.length < 2 ^ 31 := by
      rw [MetricSeries.maxLength] at hlt
      omega
    have hlen : (xs ++ [call.value xs]).length = xs.length + 1 := List.length_append
    obtain ⟨s', hrun, hholds, hmax⟩ := ih (s := s.addSample (call.value xs)) h.addSample (by
      rw [hlen, MetricSeries.maxLength_addSample]
      omega)
    refine ⟨s', ?_, hholds, hmax.trans MetricSeries.maxLength_addSample⟩
    rw [List.foldlM_cons, run_eq h hone]
    exact hrun

theorem holds_make {capacity : ℕ} (hpos : 0 < capacity) :
    (make capacity : MetricSeries T).Holds [] :=
  @MetricSeries.holds_make T ⟨0⟩ capacity hpos

/-- **The ring keeps the last values just when an `int` counts them.** -/
theorem run_yields_iff {capacity : ℕ} (hpos : 0 < capacity) (hcapacity : capacity < 2 ^ 64)
    (calls : List (Call T)) :
    (∃ s, run capacity calls = some s ∧ Yields s capacity (valuesFrom [] calls))
      ↔ min calls.length capacity < 2 ^ 31 := by
  have hlen : (valuesFrom [] calls).length = calls.length := by
    rw [length_valuesFrom, List.length_nil, Nat.zero_add]
  constructor
  · rintro ⟨s, -, hyields⟩
    have := hyields.size_lt hcapacity
    rwa [hlen] at this
  · intro hlt
    have hmax : (make capacity : MetricSeries T).maxLength = capacity := List.length_replicate
    obtain ⟨s, hrun, hholds, hmax'⟩ : ∃ s', calls.foldlM Call.run (make capacity) = some s'
        ∧ s'.Holds (valuesFrom [] calls)
        ∧ s'.maxLength = (make capacity : MetricSeries T).maxLength :=
      foldlM_run (holds_make hpos) (by rwa [List.length_nil, Nat.zero_add, hmax])
    rw [hmax] at hmax'
    have hsize : s.size < 2 ^ 31 := by
      rw [hholds.size, hlen, ← MetricSeries.maxLength, hmax']
      exact hlt
    exact ⟨s, hrun, hmax' ▸ yields hholds hsize⟩

/-- A ring of two that wraps around, and counts on from its last sample. -/
theorem run_yields_wrapped :
    ∃ s : MetricSeries ℤ, run 2 [.incFromLastSample 3, .addSample 5, .incFromLastSample 2] = some s
      ∧ Yields s 2 [3, 5, 7] :=
  (run_yields_iff (by decide) (by decide) _).mpr (by decide)

/-- One sample more than the last `int`. -/
theorem not_yields_two_pow :
    ¬ ∃ s : MetricSeries ℤ, run (2 ^ 31) (List.replicate (2 ^ 31) (.addSample 1)) = some s
      ∧ Yields s (2 ^ 31) (valuesFrom [] (List.replicate (2 ^ 31) (.addSample 1))) := by
  rintro ⟨s, -, hyields⟩
  have hlt := hyields.size_lt (by decide)
  rw [length_valuesFrom, List.length_replicate] at hlt
  exact absurd hlt (by decide)

end SeriesWidths
end Dynolog
end IntegratedCLI
