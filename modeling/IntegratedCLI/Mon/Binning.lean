import IntegratedCLI.Lib.Scatter
import IntegratedCLI.Mon.Filter

/-!
# Durations of stacks by interval

`TagStackIdBinner` of `hbt/src/mon`.  The slices of the selected compute units are put into
a matrix with a row for each interval of counts and a column for each bin, which is a stack
or, for the stacks that are rare, one bin for all of them.

The number of rows is that of the count intervals, of all units one after the other.  The
loop that fills the matrix starts at row zero for every unit, and it stays in a row until
something was added to it.  `RowsFit` says when the two agree: only the first unit with
counts has slices, none of its intervals before one with slices is empty, and it has a row
for each.  `rows_iff` says that exactly then the entries are the durations in the intervals.

A hash map is a list of entries.  The order in which the stacks are given their bins is
that of a hash map, and is an argument (`Iteration`).  Messages in the log are left out.
-/

namespace IntegratedCLI
namespace Mon

open Fallible Ringbuffer Tagstack

/-- An `unsigned` of 32 bits. -/
def u32 (n : ℕ) : ℕ := n % 2 ^ 32

/-! ## Frequencies of stacks -/

structure SliceFreq where
  duration : ℕ
  numObs : ℕ
  numIntervals : ℕ
  deriving DecidableEq, Repr

namespace SliceFreq

def zero : SliceFreq := ⟨0, 0, 0⟩

def accum (f other : SliceFreq) : SliceFreq :=
  ⟨u64 (f.duration + other.duration), u64 (f.numObs + other.numObs),
    u64 (f.numIntervals + other.numIntervals)⟩

end SliceFreq

/-- The frequencies of the stacks, by their ids. -/
abbrev Freqs := List (ℕ × SliceFreq)

/-- Add the frequencies of a compute unit. -/
def accumAll (freqs fs : Freqs) : Freqs :=
  fs.foldl (fun freqs f => Dict.put freqs f.1 (((Dict.get? freqs f.1).getD .zero).accum f.2)) freqs

/-- The order in which a hash map is gone through. -/
structure Iteration where
  order : Freqs → Freqs
  perm : ∀ freqs, (order freqs).Perm freqs

namespace CuMonData

def numRows (d : CuMonData) : ℕ := (d.countData.map CountData.numIntervals).getD 0

/-- Count a slice; `acc` has the frequencies, and the stacks seen in the interval. -/
def countSlice (acc : Freqs × List ℕ) (s : Slice) : Freqs × List ℕ :=
  let freq := (Dict.get? acc.1 s.stackId).getD .zero
  let seen := acc.2.contains s.stackId
  (Dict.put acc.1 s.stackId
      ⟨u64 (freq.duration + s.duration), u64 (freq.numObs + 1),
        if seen then freq.numIntervals else u64 (freq.numIntervals + 1)⟩,
    if seen then acc.2 else s.stackId :: acc.2)

def countSlices (freqs : Freqs) (slices : List Slice) : Freqs :=
  (slices.foldl countSlice (freqs, [])).1

def stackIdFreqs (d : CuMonData) : Option Freqs :=
  d.perIntervalSlices.map fun p => p.foldl countSlices []

end CuMonData

namespace MonData

variable {τ μ : Type} (md : MonData τ μ) (cpuSet : Option CpuSet)

/-- The data of the selected compute units, in the order of the iteration. -/
def selected : List CuMonData :=
  (md.perCuMonData.filter fun e => cpuSet.all fun s => s.isSet e.1).map Prod.snd

def numCountIntervals : ℕ :=
  (md.selected cpuSet).foldl (fun n d => u64 (n + d.numRows)) 0

def stackIdFreqs : Freqs :=
  (md.selected cpuSet).foldl (fun freqs d => accumAll freqs (d.stackIdFreqs.getD [])) []

end MonData

/-! ## Bins -/

/-- The bins of the stacks, both ways, and the next bin. -/
structure BinMapper where
  binkeyToBid : List (ℕ × ℕ)
  bidToBinkey : List (ℕ × ℕ)
  nextBinId : ℕ
  deriving DecidableEq, Repr

namespace BinMapper

def init : BinMapper := ⟨[], [], 0⟩

def reserveBinId (m : BinMapper) : ℕ × BinMapper :=
  (m.nextBinId, { m with nextBinId := u32 (m.nextBinId + 1) })

def numBinIds (m : BinMapper) : ℕ := m.nextBinId

/-- Put a stack into a bin, or into a new one. -/
def markBinKey (m : BinMapper) (binkey : ℕ) (bidOpt : Option ℕ) :
    Except FilterFailure BinMapper :=
  match Dict.get? m.binkeyToBid binkey with
  | some bid => if bidOpt.all (· = bid) then pure m else throw .invalidArgument
  | none =>
    let (bid, m) := match bidOpt with
      | some bid => (bid, m)
      | none => m.reserveBinId
    pure { m with
      binkeyToBid := Dict.put m.binkeyToBid binkey bid
      bidToBinkey := m.bidToBinkey ++ [(bid, binkey)] }

/-- The bin of a slice is that of its stack. -/
def bidOf (m : BinMapper) (s : Slice) : Option ℕ := Dict.get? m.binkeyToBid s.stackId

end BinMapper

/-- A row for each interval, and a column for each bin. -/
structure IntervalBinMatrix where
  kNumIntervals : ℕ
  kNumBids : ℕ
  data : List ℕ
  deriving DecidableEq, Repr

namespace IntervalBinMatrix

/-- All entries are zero. -/
def make (numIntervals numBins : ℕ) : IntervalBinMatrix :=
  ⟨u32 numIntervals, u32 numBins, List.replicate (u32 (u32 numIntervals * u32 numBins)) 0⟩

variable (m : IntervalBinMatrix)

def index (i j : ℕ) : ℕ := u32 (i * m.kNumBids + j)

def get (i j : ℕ) : Option ℕ := m.data[m.index i j]?

/-- Nothing is said of a write outside the data. -/
def inc (i j v : ℕ) : Except FilterFailure IntervalBinMatrix :=
  if m.index i j < m.data.length then
    pure { m with data := Scatter.deposit (2 ^ 64) m.data (m.index i j, v) }
  else throw .undefined

end IntervalBinMatrix

/-! ## The binner -/

structure TagStackIdBinner where
  binMapper : BinMapper
  durations : IntervalBinMatrix
  ignoredBid : ℕ
  deriving DecidableEq, Repr

namespace TagStackIdBinner

/-- Whether a stack has a bin of its own. -/
def isFrequent (minDistinctIntervals minDuration : ℕ) (freq : SliceFreq) : Bool :=
  minDistinctIntervals ≤ freq.numIntervals && minDuration ≤ freq.duration

/-- The bins of all stacks; the first one is for those that are rare. -/
def markAll (minDistinctIntervals minDuration : ℕ) (freqs : Freqs) :
    Except FilterFailure BinMapper :=
  let (ignoredBid, m) := BinMapper.init.reserveBinId
  freqs.foldlM
    (fun m f => m.markBinKey f.1
      (if isFrequent minDistinctIntervals minDuration f.2 then none else some ignoredBid)) m

variable (bins : BinMapper)

/-- Add a slice to row `i`; `acc` has the duration of the row. -/
def addSlice (i : ℕ) (acc : ℕ × IntervalBinMatrix) (s : Slice) :
    Except FilterFailure (ℕ × IntervalBinMatrix) :=
  match bins.bidOf s with
  | none => throw .outOfRange
  | some bid =>
    if s.duration = 0 then pure acc
    else do
      let m ← acc.2.inc i bid s.duration
      return (u64 (acc.1 + s.duration), m)

/-- Add an interval to the current row.  A row without a duration is used again. -/
def addInterval (acc : ℕ × IntervalBinMatrix) (slices : List Slice) :
    Except FilterFailure (ℕ × IntervalBinMatrix) :=
  if slices.isEmpty then pure acc
  else do
    let (rowDur, m) ← slices.foldlM (addSlice bins acc.1) (0, acc.2)
    return (if rowDur ≠ 0 then u32 (acc.1 + 1) else acc.1, m)

/-- Add the intervals of a compute unit, from row zero on. -/
def addCu (m : IntervalBinMatrix) (d : CuMonData) : Except FilterFailure IntervalBinMatrix :=
  match d.perIntervalSlices with
  | none => pure m
  | some p => do
    let (_, m) ← p.foldlM (addInterval bins) (0, m)
    return m

/-- The constructor. -/
def make {τ μ : Type} (iteration : Iteration) (md : MonData τ μ) (cpuSet : Option CpuSet)
    (minDistinctIntervals minDuration : ℕ) : Except FilterFailure TagStackIdBinner := do
  let bins ← markAll minDistinctIntervals minDuration
    (iteration.order (md.stackIdFreqs cpuSet))
  let m := IntervalBinMatrix.make (md.numCountIntervals cpuSet) bins.numBinIds
  let m ← (md.selected cpuSet).foldlM (addCu bins) m
  return ⟨bins, m, 0⟩

end TagStackIdBinner

/-! ## The bins of all stacks -/

namespace BinMapper

variable {m : BinMapper} {binkey : ℕ}

/-- The bins are numbered from zero on. -/
def Dense (m : BinMapper) (n : ℕ) : Prop := ∀ k bid, Dict.get? m.binkeyToBid k = some bid → bid < n

/-- A stack that is new gets the bin that it is put into, or the next one. -/
theorem markBinKey_new (bidOpt : Option ℕ) (h : Dict.get? m.binkeyToBid binkey = none) :
    ∃ m', m.markBinKey binkey bidOpt = .ok m'
      ∧ m'.binkeyToBid = Dict.put m.binkeyToBid binkey (bidOpt.getD m.nextBinId)
      ∧ m'.nextBinId = if bidOpt.isSome then m.nextBinId else u32 (m.nextBinId + 1) := by
  simp only [markBinKey, h]
  cases bidOpt with
  | none => exact ⟨_, rfl, rfl, rfl⟩
  | some bid => exact ⟨_, rfl, rfl, rfl⟩

end BinMapper

namespace TagStackIdBinner

variable (minDistinctIntervals minDuration : ℕ)

/-- How many stacks have a bin of their own. -/
def numFrequent (freqs : Freqs) : ℕ :=
  freqs.countP fun f => isFrequent minDistinctIntervals minDuration f.2

/-- Every stack gets a bin, and the bins are numbered from zero on as far as 32 bits go. -/
theorem foldlM_markBinKey {freqs : Freqs} (hnd : (freqs.map Prod.fst).Nodup) {m : BinMapper}
    {n : ℕ} (hn : 0 < n) (hnext : m.nextBinId = u32 n)
    (hnew : ∀ f ∈ freqs, Dict.get? m.binkeyToBid f.1 = none) :
    ∃ m', freqs.foldlM (fun m f => m.markBinKey f.1
        (if isFrequent minDistinctIntervals minDuration f.2 then none else some 0)) m = .ok m'
      ∧ m'.nextBinId = u32 (n + numFrequent minDistinctIntervals minDuration freqs)
      ∧ (∀ k, (Dict.get? m.binkeyToBid k).isSome ∨ k ∈ freqs.map Prod.fst →
          (Dict.get? m'.binkeyToBid k).isSome)
      ∧ (n + numFrequent minDistinctIntervals minDuration freqs < 2 ^ 32 → m.Dense n →
          m'.Dense (n + numFrequent minDistinctIntervals minDuration freqs)) := by
  induction freqs generalizing m n with
  | nil => exact ⟨m, rfl, hnext, by simp, fun _ h => h⟩
  | cons f freqs ih =>
    rw [List.map_cons, List.nodup_cons] at hnd
    have hf := hnew f List.mem_cons_self
    obtain ⟨m₁, hm₁, hput, hnext₁⟩ := BinMapper.markBinKey_new
      (if isFrequent minDistinctIntervals minDuration f.2 then none else some 0) hf
    have hnew₁ : ∀ f' ∈ freqs, Dict.get? m₁.binkeyToBid f'.1 = none := by
      intro f' hf'
      have hne : f'.1 ≠ f.1 := fun he => hnd.1 (he ▸ List.mem_map_of_mem hf')
      rw [hput, Dict.get?, Dict.lookup_put_ne hne]
      exact hnew f' (List.mem_cons_of_mem f hf')
    have hkeys : ∀ k, (Dict.get? m.binkeyToBid k).isSome ∨ k = f.1 →
        (Dict.get? m₁.binkeyToBid k).isSome := by
      intro k hk
      rw [hput, Dict.get?, Dict.lookup_put]
      split
      · rfl
      · rename_i hne
        exact hk.resolve_right hne
    -- the next bin is the one after `n`, or `n` again if the stack is rare
    obtain ⟨n₁, hle, hcount, hbid, hn₁⟩ : ∃ n₁, n ≤ n₁
        ∧ n + numFrequent minDistinctIntervals minDuration (f :: freqs)
          = n₁ + numFrequent minDistinctIntervals minDuration freqs
        ∧ (n₁ < 2 ^ 32 →
          (if isFrequent minDistinctIntervals minDuration f.2 then none else some 0).getD
            m.nextBinId < n₁)
        ∧ m₁.nextBinId = u32 n₁ := by
      rw [numFrequent, numFrequent, List.countP_cons]
      cases hfreq : isFrequent minDistinctIntervals minDuration f.2 with
      | true =>
        refine ⟨n + 1, by omega, by simp; omega, fun h => ?_, ?_⟩
        · simp only [if_true, Option.getD_none, hnext, u32]
          omega
        · rw [hnext₁, hfreq]
          simp [hnext, u32]
      | false =>
        refine ⟨n, le_rfl, by simp, fun _ => by simpa using hn, ?_⟩
        rw [hnext₁, hfreq]
        simpa using hnext
    obtain ⟨m', hm', hnext', hkeys', hdense'⟩ := ih hnd.2 (hn.trans_le hle) hn₁ hnew₁
    rw [List.foldlM_cons, hm₁, hcount]
    refine ⟨m', hm', hnext', fun k hk => hkeys' k ?_, fun hlt hdense => hdense' hlt ?_⟩
    · rw [List.map_cons, List.mem_cons] at hk
      rcases hk with hk | rfl | hk
      · exact .inl (hkeys k (.inl hk))
      · exact .inl (hkeys _ (.inr rfl))
      · exact .inr hk
    · intro k bid hk
      rw [hput, Dict.get?, Dict.lookup_put] at hk
      split at hk
      · obtain rfl := Option.some_inj.mp hk
        exact hbid (by omega)
      · exact (hdense k bid hk).trans_le hle

/-- The number of bins. -/
def numBins (freqs : Freqs) : ℕ :=
  1 + numFrequent minDistinctIntervals minDuration freqs

theorem markAll_spec {freqs : Freqs} (hnd : (freqs.map Prod.fst).Nodup) :
    ∃ bins, markAll minDistinctIntervals minDuration freqs = .ok bins
      ∧ bins.nextBinId = u32 (numBins minDistinctIntervals minDuration freqs)
      ∧ (∀ k ∈ freqs.map Prod.fst, (Dict.get? bins.binkeyToBid k).isSome)
      ∧ (numBins minDistinctIntervals minDuration freqs < 2 ^ 32 →
          bins.Dense (numBins minDistinctIntervals minDuration freqs)) := by
  obtain ⟨bins, hbins, hnext, hkeys, hdense⟩ := foldlM_markBinKey
    minDistinctIntervals minDuration hnd (m := BinMapper.init.reserveBinId.2) one_pos rfl
    (fun _ _ => rfl)
  exact ⟨bins, hbins, hnext, fun k hk => hkeys k (.inr hk),
    fun hlt => hdense hlt fun _ _ h => nomatch h⟩

end TagStackIdBinner

/-! ## The stacks that are counted -/

section Freqs

variable {freqs fs : Freqs} {seen : List ℕ} {slices : List Slice} {p : PerIntervalSlices} {k : ℕ}

theorem nodup_accumAll (h : (freqs.map Prod.fst).Nodup) :
    ((accumAll freqs fs).map Prod.fst).Nodup := by
  induction fs generalizing freqs with
  | nil => exact h
  | cons f fs ih => exact ih (Dict.nodup_put h)

theorem mem_accumAll :
    k ∈ (accumAll freqs fs).map Prod.fst ↔ k ∈ freqs.map Prod.fst ∨ k ∈ fs.map Prod.fst := by
  induction fs generalizing freqs with
  | nil => simp [accumAll]
  | cons f fs ih =>
    rw [accumAll, List.foldl_cons, ← accumAll, ih, Dict.mem_keys_put, List.map_cons, List.mem_cons]
    tauto

theorem mem_foldl_countSlice :
    k ∈ (slices.foldl CuMonData.countSlice (freqs, seen)).1.map Prod.fst
      ↔ k ∈ freqs.map Prod.fst ∨ ∃ s ∈ slices, s.stackId = k := by
  induction slices generalizing freqs seen with
  | nil => simp
  | cons s slices ih =>
    rw [List.foldl_cons, CuMonData.countSlice, ih, Dict.mem_keys_put]
    simp only [List.mem_cons, exists_eq_or_imp]
    tauto

theorem mem_foldl_countSlices : k ∈ (p.foldl CuMonData.countSlices freqs).map Prod.fst
    ↔ k ∈ freqs.map Prod.fst ∨ ∃ slices ∈ p, ∃ s ∈ slices, s.stackId = k := by
  induction p generalizing freqs with
  | nil => simp
  | cons slices p ih =>
    rw [List.foldl_cons, ih, CuMonData.countSlices, mem_foldl_countSlice]
    simp only [List.mem_cons, exists_eq_or_imp, or_assoc]

variable {τ μ : Type} {md : MonData τ μ} {cpuSet : Option CpuSet}

theorem nodup_stackIdFreqs : ((md.stackIdFreqs cpuSet).map Prod.fst).Nodup := by
  have hloop : ∀ (ds : List CuMonData) (freqs : Freqs), (freqs.map Prod.fst).Nodup →
      ((ds.foldl (fun freqs d => accumAll freqs (d.stackIdFreqs.getD [])) freqs).map
        Prod.fst).Nodup := by
    intro ds
    induction ds with
    | nil => exact fun _ h => h
    | cons d ds ih => exact fun freqs h => ih _ (nodup_accumAll h)
  exact hloop _ [] List.nodup_nil

/-- The stacks of all slices of the selected units are counted. -/
theorem mem_stackIdFreqs {d : CuMonData} (hd : d ∈ md.selected cpuSet)
    (hp : d.perIntervalSlices = some p) (hslices : slices ∈ p) {s : Slice} (hs : s ∈ slices) :
    s.stackId ∈ (md.stackIdFreqs cpuSet).map Prod.fst := by
  have hk : s.stackId ∈ (d.stackIdFreqs.getD []).map Prod.fst := by
    rw [CuMonData.stackIdFreqs, hp, Option.map_some, Option.getD_some, mem_foldl_countSlices]
    exact .inr ⟨slices, hslices, s, hs, rfl⟩
  have hloop : ∀ (ds : List CuMonData) (freqs : Freqs),
      s.stackId ∈ freqs.map Prod.fst ∨ d ∈ ds →
        s.stackId ∈ (ds.foldl (fun freqs d => accumAll freqs (d.stackIdFreqs.getD [])) freqs).map
          Prod.fst := by
    intro ds
    induction ds with
    | nil => simp
    | cons d' ds ih =>
      intro freqs h
      refine ih _ ?_
      rw [mem_accumAll]
      rw [List.mem_cons] at h
      rcases h with h | rfl | h
      · exact .inl (.inl h)
      · exact .inl (.inr hk)
      · exact .inr h
  exact hloop _ [] (.inr hd)

end Freqs

/-! ## What is written -/

/-- The writes for an interval in row `i`: the row, the bin and the duration. -/
def writesOf (bins : BinMapper) (e : ℕ × List Slice) : List (ℕ × ℕ × ℕ) :=
  (e.2.filter fun s => s.duration ≠ 0).map fun s => (e.1, (bins.bidOf s).getD 0, s.duration)

/-- The duration of a row. -/
def rowDur (slices : List Slice) : ℕ := (slices.map Slice.duration).sum

/-- The row after an interval was put into row `i`. -/
def nextRow (i : ℕ) (slices : List Slice) : ℕ := if u64 (rowDur slices) ≠ 0 then u32 (i + 1) else i

/-- The intervals with the rows they are put into. -/
def rowsFrom : ℕ → PerIntervalSlices → List (ℕ × List Slice)
  | _, [] => []
  | i, slices :: p => (i, slices) :: rowsFrom (nextRow i slices) p

def incAll (m : IntervalBinMatrix) (ws : List (ℕ × ℕ × ℕ)) :
    Except FilterFailure IntervalBinMatrix :=
  ws.foldlM (fun m w => m.inc w.1 w.2.1 w.2.2) m

section Writes

variable {bins : BinMapper} {m m' : IntervalBinMatrix} {i dur : ℕ} {slices : List Slice}
  {p : PerIntervalSlices} {ws ws' : List (ℕ × ℕ × ℕ)}

theorem incAll_append : incAll m (ws ++ ws') = incAll m ws >>= fun m => incAll m ws' :=
  List.foldlM_append ..

theorem foldlM_addSlice (hbins : ∀ s ∈ slices, (bins.bidOf s).isSome) (hdur : dur < 2 ^ 64) :
    slices.foldlM (TagStackIdBinner.addSlice bins i) (dur, m)
      = incAll m (writesOf bins (i, slices)) >>= fun m => pure (u64 (dur + rowDur slices), m) := by
  induction slices generalizing dur m with
  | nil =>
    rw [List.foldlM_nil, rowDur, List.map_nil, List.sum_nil, Nat.add_zero, u64,
      Nat.mod_eq_of_lt hdur]
    rfl
  | cons s slices ih =>
    obtain ⟨bid, hbid⟩ := Option.isSome_iff_exists.mp (hbins s List.mem_cons_self)
    have hrest := fun s' hs' => hbins s' (List.mem_cons_of_mem s hs')
    by_cases hzero : s.duration = 0
    · have hws : writesOf bins (i, s :: slices) = writesOf bins (i, slices) := by
        rw [writesOf, List.filter_cons_of_neg (by simp [hzero])]
        rfl
      have hstep : TagStackIdBinner.addSlice bins i (dur, m) s = .ok (dur, m) := by
        simp only [TagStackIdBinner.addSlice, hbid, if_pos hzero]
        rfl
      have hsum : rowDur (s :: slices) = rowDur slices := by
        rw [rowDur, List.map_cons, List.sum_cons, hzero, Nat.zero_add, rowDur]
      rw [List.foldlM_cons, hstep, hws, hsum]
      exact ih hrest hdur
    · have hws : writesOf bins (i, s :: slices)
          = (i, bid, s.duration) :: writesOf bins (i, slices) := by
        rw [writesOf, List.filter_cons_of_pos (by simp [hzero]), List.map_cons, hbid]
        rfl
      have hstep : TagStackIdBinner.addSlice bins i (dur, m) s
          = m.inc i bid s.duration >>= fun m => pure (u64 (dur + s.duration), m) := by
        simp only [TagStackIdBinner.addSlice, hbid, if_neg hzero]
      rw [List.foldlM_cons, hstep, hws, incAll, List.foldlM_cons]
      cases m.inc i bid s.duration with
      | error e => rfl
      | ok m₁ =>
        have hsum : u64 (u64 (dur + s.duration) + rowDur slices)
            = u64 (dur + rowDur (s :: slices)) := by
          rw [rowDur, rowDur, List.map_cons, List.sum_cons, u64, u64, u64]
          omega
        have hlt : u64 (dur + s.duration) < 2 ^ 64 := Nat.mod_lt _ (Nat.two_pow_pos 64)
        rw [← hsum]
        exact ih hrest hlt

theorem addInterval_eq (hbins : ∀ s ∈ slices, (bins.bidOf s).isSome) :
    TagStackIdBinner.addInterval bins (i, m) slices
      = incAll m (writesOf bins (i, slices)) >>= fun m => pure (nextRow i slices, m) := by
  cases slices with
  | nil => rfl
  | cons s slices =>
    have hloop := foldlM_addSlice (i := i) (m := m) hbins (Nat.two_pow_pos 64)
    rw [Nat.zero_add] at hloop
    rw [TagStackIdBinner.addInterval, if_neg (by simp), hloop]
    cases incAll m (writesOf bins (i, s :: slices)) with
    | error e => rfl
    | ok m₁ => rfl

theorem foldlM_addInterval (hbins : ∀ slices ∈ p, ∀ s ∈ slices, (bins.bidOf s).isSome) :
    p.foldlM (TagStackIdBinner.addInterval bins) (i, m)
      = incAll m ((rowsFrom i p).flatMap (writesOf bins))
        >>= fun m => pure (p.foldl nextRow i, m) := by
  induction p generalizing i m with
  | nil => rfl
  | cons slices p ih =>
    have hrest := fun sl hsl => hbins sl (List.mem_cons_of_mem slices hsl)
    rw [List.foldlM_cons, addInterval_eq (hbins slices List.mem_cons_self), rowsFrom,
      List.flatMap_cons, incAll_append]
    cases incAll m (writesOf bins (i, slices)) with
    | error e => rfl
    | ok m₁ => exact ih hrest

/-- The writes for the compute units, each from row zero on. -/
def cuWrites (bins : BinMapper) (d : CuMonData) : List (ℕ × ℕ × ℕ) :=
  (rowsFrom 0 (d.perIntervalSlices.getD [])).flatMap (writesOf bins)

theorem addCu_eq {d : CuMonData}
    (hbins : ∀ p ∈ d.perIntervalSlices, ∀ slices ∈ p, ∀ s ∈ slices, (bins.bidOf s).isSome) :
    TagStackIdBinner.addCu bins m d = incAll m (cuWrites bins d) := by
  rw [cuWrites]
  cases hp : d.perIntervalSlices with
  | none =>
    simp only [TagStackIdBinner.addCu, hp]
    rfl
  | some p =>
    simp only [TagStackIdBinner.addCu, hp, foldlM_addInterval (hbins p hp), Option.getD_some]
    cases incAll m ((rowsFrom 0 p).flatMap (writesOf bins)) with
    | error e => rfl
    | ok m₁ => rfl

theorem foldlM_addCu {ds : List CuMonData} (hbins : ∀ d ∈ ds, ∀ p ∈ d.perIntervalSlices,
    ∀ slices ∈ p, ∀ s ∈ slices, (bins.bidOf s).isSome) :
    ds.foldlM (TagStackIdBinner.addCu bins) m = incAll m (ds.flatMap (cuWrites bins)) := by
  induction ds generalizing m with
  | nil => rfl
  | cons d ds ih =>
    have hrest := fun d' hd' => hbins d' (List.mem_cons_of_mem d hd')
    rw [List.foldlM_cons, addCu_eq (hbins d List.mem_cons_self), List.flatMap_cons, incAll_append]
    cases incAll m (cuWrites bins d) with
    | error e => rfl
    | ok m₁ => exact ih hrest

/-- Where the writes go in the data, and what they add. -/
def deposits (m : IntervalBinMatrix) (ws : List (ℕ × ℕ × ℕ)) : List (ℕ × ℕ) :=
  ws.map fun w => (m.index w.1 w.2.1, w.2.2)

/-- The matrix after the writes, if each is in the data. -/
def withDeposits (m : IntervalBinMatrix) (ws : List (ℕ × ℕ × ℕ)) : IntervalBinMatrix :=
  { m with data := (deposits m ws).foldl (Scatter.deposit (2 ^ 64)) m.data }

/-- All writes go through if each is in the data. -/
theorem incAll_eq_ok : incAll m ws = .ok m' ↔
    (∀ w ∈ ws, m.index w.1 w.2.1 < m.data.length) ∧ m' = withDeposits m ws := by
  induction ws generalizing m with
  | nil =>
    rw [incAll, List.foldlM_nil]
    simp [pure, Except.pure, eq_comm, withDeposits, deposits]
  | cons w ws ih =>
    rw [incAll, List.foldlM_cons, IntervalBinMatrix.inc, List.forall_mem_cons]
    by_cases hw : m.index w.1 w.2.1 < m.data.length
    · have hlen : (Scatter.deposit (2 ^ 64) m.data (m.index w.1 w.2.1, w.2.2)).length
          = m.data.length := Scatter.length_deposit _
      rw [if_pos hw]
      refine ih.trans ⟨fun h => ⟨⟨hw, fun v hv => ?_⟩, h.2⟩, fun h => ⟨fun v hv => ?_, h.2⟩⟩
      · exact hlen ▸ h.1 v hv
      · exact hlen.symm ▸ h.1.2 v hv
    · rw [if_neg hw]
      simp [hw, throw, throwThe, MonadExceptOf.throw]
      intro h
      cases h

end Writes

/-! ## Intervals of counts -/

namespace CuMonData

/-- The slices of interval `j`; there are none where there is no such interval. -/
def slicesAt (d : CuMonData) (j : ℕ) : List Slice := ((d.perIntervalSlices.getD [])[j]?).getD []

/-- The slices of each interval of counts. -/
def countIntervals (d : CuMonData) : List (List Slice) := (List.range d.numRows).map d.slicesAt

end CuMonData

/-- The count intervals of the selected units, in the order of the iteration. -/
def MonData.countIntervals {τ μ : Type} (md : MonData τ μ) (cpuSet : Option CpuSet) :
    List (List Slice) :=
  (md.selected cpuSet).flatMap CuMonData.countIntervals

/-- The duration of the slices in the bin. -/
def binDur (bins : BinMapper) (b : ℕ) (slices : List Slice) : ℕ :=
  rowDur (slices.filter fun s => bins.bidOf s = some b)

/-- An interval with the row it is put into, and its place among the intervals of counts. -/
structure Placed where
  row : ℕ
  rank : Option ℕ
  slices : List Slice

/-- The intervals of a unit; `n` intervals of counts come before it. -/
def placeCu (n : ℕ) (d : CuMonData) : List Placed :=
  (rowsFrom 0 (d.perIntervalSlices.getD [])).zipIdx.map fun e =>
    ⟨e.1.1, if e.2 < d.numRows then some (n + e.2) else none, e.1.2⟩

/-- The intervals of all units. -/
def place : ℕ → List CuMonData → List Placed
  | _, [] => []
  | n, d :: ds => placeCu n d ++ place (n + d.numRows) ds

section Placing

variable {n i j : ℕ} {d : CuMonData} {ds : List CuMonData} {p : PerIntervalSlices} {e : Placed}
  {slices : List Slice}

@[simp] theorem length_rowsFrom : (rowsFrom i p).length = p.length := by
  induction p generalizing i with
  | nil => rfl
  | cons slices p ih => rw [rowsFrom, List.length_cons, ih, List.length_cons]

theorem map_snd_rowsFrom : (rowsFrom i p).map Prod.snd = p := by
  induction p generalizing i with
  | nil => rfl
  | cons slices p ih => rw [rowsFrom, List.map_cons, ih]

/-- An interval is put into the row after those before it that have a duration. -/
theorem getElem?_rowsFrom :
    (rowsFrom i p)[j]? = p[j]?.map fun slices => ((p.take j).foldl nextRow i, slices) := by
  induction p generalizing i j with
  | nil => rfl
  | cons slices p ih =>
    cases j with
    | zero => rfl
    | succ j => exact ih

theorem nextRow_le : nextRow i slices ≤ i + 1 := by
  rw [nextRow]
  split
  · exact Nat.mod_le _ _
  · exact Nat.le_succ i

theorem foldl_nextRow_le : p.foldl nextRow i ≤ i + p.length := by
  induction p generalizing i with
  | nil => exact le_rfl
  | cons slices p ih =>
    have := ih (i := nextRow i slices)
    have hnext : nextRow i slices ≤ i + 1 := nextRow_le
    rw [List.foldl_cons, List.length_cons]
    omega

/-- Every interval before is in a row of its own exactly if each has a duration. -/
theorem foldl_nextRow_eq (h : i + p.length < 2 ^ 32) :
    p.foldl nextRow i = i + p.length ↔ ∀ slices ∈ p, u64 (rowDur slices) ≠ 0 := by
  induction p generalizing i with
  | nil => simp
  | cons slices p ih =>
    rw [List.length_cons] at h
    rw [List.foldl_cons, List.length_cons, List.forall_mem_cons]
    by_cases hdur : u64 (rowDur slices) = 0
    · have hrow : nextRow i slices = i := by rw [nextRow, if_neg (not_not.mpr hdur)]
      have := foldl_nextRow_le (i := i) (p := p)
      rw [hrow]
      simp only [hdur, ne_eq, not_true_eq_false, false_and, iff_false]
      omega
    · have hrow : nextRow i slices = i + 1 := by
        rw [nextRow, if_pos hdur, u32, Nat.mod_eq_of_lt (by omega)]
      rw [hrow, ← Nat.add_assoc, Nat.add_right_comm]
      rw [ih (by omega)]
      exact (and_iff_right hdur).symm

theorem mem_placeCu : e ∈ placeCu n d ↔ ∃ j slices, (d.perIntervalSlices.getD [])[j]? = some slices
    ∧ e = ⟨((d.perIntervalSlices.getD []).take j).foldl nextRow 0,
        if j < d.numRows then some (n + j) else none, slices⟩ := by
  rw [placeCu, List.mem_map]
  constructor
  · rintro ⟨⟨⟨row, slices⟩, j⟩, hmem, rfl⟩
    rw [List.mem_zipIdx_iff_getElem?, getElem?_rowsFrom, Option.map_eq_some_iff] at hmem
    obtain ⟨slices', hget, heq⟩ := hmem
    dsimp only at hget heq
    cases heq
    exact ⟨j, slices, hget, rfl⟩
  · rintro ⟨j, slices, hget, rfl⟩
    refine ⟨⟨⟨_, slices⟩, j⟩, ?_, rfl⟩
    rw [List.mem_zipIdx_iff_getElem?, getElem?_rowsFrom, hget]
    rfl

theorem mem_place : e ∈ place n ds ↔ ∃ before d after, ds = before ++ d :: after
    ∧ e ∈ placeCu (n + (before.map CuMonData.numRows).sum) d := by
  induction ds generalizing n with
  | nil => simp [place]
  | cons d ds ih =>
    rw [place, List.mem_append, ih]
    constructor
    · rintro (h | ⟨before, d', after, rfl, h⟩)
      · exact ⟨[], d, ds, rfl, h⟩
      · refine ⟨d :: before, d', after, rfl, ?_⟩
        rwa [List.map_cons, List.sum_cons, ← Nat.add_assoc]
    · rintro ⟨before, d', after, hsplit, h⟩
      cases before with
      | nil =>
        obtain ⟨rfl, rfl⟩ := List.cons.inj hsplit
        exact .inl h
      | cons d'' before =>
        obtain ⟨rfl, rfl⟩ := List.cons.inj hsplit
        rw [List.map_cons, List.sum_cons, ← Nat.add_assoc] at h
        exact .inr ⟨before, d', after, rfl, h⟩

/-- The places of the units after others come after theirs. -/
theorem le_of_mem_rank (h : e ∈ place n ds) : ∀ g ∈ e.rank, n ≤ g := by
  obtain ⟨before, d, after, -, h⟩ := mem_place.mp h
  obtain ⟨j, slices, -, rfl⟩ := mem_placeCu.mp h
  intro g hg
  dsimp only at hg
  split at hg
  · obtain rfl := Option.some_inj.mp hg
    omega
  · cases hg

/-- No interval is put into a row after its place. -/
theorem row_le_rank (h : e ∈ place n ds) : ∀ g ∈ e.rank, e.row ≤ g := by
  obtain ⟨before, d, after, -, h⟩ := mem_place.mp h
  obtain ⟨j, slices, -, rfl⟩ := mem_placeCu.mp h
  intro g hg
  dsimp only at hg
  split at hg
  · obtain rfl := Option.some_inj.mp hg
    have := foldl_nextRow_le (i := 0) (p := (d.perIntervalSlices.getD []).take j)
    rw [List.length_take] at this
    dsimp only
    omega
  · cases hg

/-- What a unit has at a place. -/
theorem sum_placeCu {f : List Slice → ℕ} (hf : f [] = 0) (k : ℕ) :
    ((placeCu n d).map fun e => if e.rank = some (n + k) then f e.slices else 0).sum
      = if k < d.numRows then f (d.slicesAt k) else 0 := by
  rw [placeCu, List.map_map]
  by_cases hk : k < d.numRows
  · have hsum := Scatter.sum_zipIdx (rowsFrom 0 (d.perIntervalSlices.getD [])) (fun e => f e.2) 0 k
    rw [getElem?_rowsFrom, Option.map_map] at hsum
    rw [if_pos hk, CuMonData.slicesAt]
    refine Eq.trans ?_ (hsum.trans ?_)
    · refine congrArg List.sum (List.map_congr_left fun e _ => ?_)
      dsimp only [Function.comp]
      by_cases he : e.2 = k
      · simp [he, hk]
      · simp [he]
    · cases (d.perIntervalSlices.getD [])[k]? with
      | none => exact hf.symm
      | some slices => rfl
  · rw [if_neg hk]
    refine List.sum_eq_zero fun x hx => ?_
    obtain ⟨e, -, rfl⟩ := List.mem_map.mp hx
    dsimp only [Function.comp]
    refine if_neg fun h => ?_
    split at h
    · have := Option.some_inj.mp h
      omega
    · cases h

/-- What all units have at a place is what the interval of counts there has. -/
theorem sum_place {f : List Slice → ℕ} (hf : f [] = 0) (k : ℕ) :
    ((place n ds).map fun e => if e.rank = some (n + k) then f e.slices else 0).sum
      = f ((ds.flatMap CuMonData.countIntervals)[k]?.getD []) := by
  induction ds generalizing n k with
  | nil => exact hf.symm
  | cons d ds ih =>
    have hlen : d.countIntervals.length = d.numRows := by
      rw [CuMonData.countIntervals, List.length_map, List.length_range]
    rw [place, List.map_append, List.sum_append, sum_placeCu hf, List.flatMap_cons]
    by_cases hk : k < d.numRows
    · have hrest : ((place (n + d.numRows) ds).map
          fun e => if e.rank = some (n + k) then f e.slices else 0).sum = 0 := by
        refine List.sum_eq_zero fun x hx => ?_
        obtain ⟨e, he, rfl⟩ := List.mem_map.mp hx
        refine if_neg fun h => ?_
        have := le_of_mem_rank he (n + k) h
        omega
      rw [if_pos hk, hrest, List.getElem?_append_left (by omega), CuMonData.countIntervals]
      simp [hk]
    · rw [if_neg hk, Nat.zero_add, List.getElem?_append_right (by omega), hlen, ← ih]
      rw [show n + d.numRows + (k - d.numRows) = n + k by omega]

/-- A place is that of an interval of counts. -/
theorem rank_lt (h : e ∈ place n ds) :
    ∀ g ∈ e.rank, g < n + (ds.flatMap CuMonData.countIntervals).length := by
  obtain ⟨before, d, after, rfl, hcu⟩ := mem_place.mp h
  obtain ⟨j, slices, -, rfl⟩ := mem_placeCu.mp hcu
  intro g hg
  dsimp only at hg
  split at hg
  · rename_i hj
    obtain rfl := Option.some_inj.mp hg
    have hlen : ∀ ds : List CuMonData,
        (ds.flatMap CuMonData.countIntervals).length = (ds.map CuMonData.numRows).sum := by
      intro ds
      rw [List.length_flatMap]
      refine congrArg List.sum (List.map_congr_left fun d _ => ?_)
      rw [CuMonData.countIntervals, List.length_map, List.length_range]
    rw [hlen, List.map_append, List.sum_append, List.map_cons, List.sum_cons]
    omega
  · cases hg

/-- The writes are those for the intervals with the rows they are put into. -/
theorem flatMap_cuWrites (bins : BinMapper) : ds.flatMap (cuWrites bins)
    = (place n ds).flatMap fun e => writesOf bins (e.row, e.slices) := by
  induction ds generalizing n with
  | nil => rfl
  | cons d ds ih =>
    rw [List.flatMap_cons, ih, place, List.flatMap_append, cuWrites, placeCu, List.flatMap_map]
    congr 1
    have hzip := List.zipIdx_map_fst 0 (rowsFrom 0 (d.perIntervalSlices.getD []))
    conv_lhs => rw [← hzip, List.flatMap_map]

end Placing

/-! ## The condition -/

/-- The matrix has the size it is to have, and of the selected units only the first one that
has rows has slices with a duration, each interval of it with such slices has a row, and
none before it is without a duration. -/
structure RowsFit (ds : List CuMonData) (numBins : ℕ) : Prop where
  bins : numBins < 2 ^ 32
  size : (ds.flatMap CuMonData.countIntervals).length * numBins < 2 ^ 32
  rows : ∀ before d after, ds = before ++ d :: after →
    ∀ j, (∃ s ∈ d.slicesAt j, s.duration ≠ 0) →
      j < d.numRows ∧ (before.map CuMonData.numRows).sum = 0
        ∧ ∀ i < j, u64 (rowDur (d.slicesAt i)) ≠ 0

/-- The rows are right if each interval with a duration is put into its place. -/
theorem rows_iff_place {ds : List CuMonData}
    (hsize : (ds.flatMap CuMonData.countIntervals).length < 2 ^ 32) :
    (∀ before d after, ds = before ++ d :: after →
      ∀ j, (∃ s ∈ d.slicesAt j, s.duration ≠ 0) →
        j < d.numRows ∧ (before.map CuMonData.numRows).sum = 0
          ∧ ∀ i < j, u64 (rowDur (d.slicesAt i)) ≠ 0)
    ↔ ∀ e ∈ place 0 ds, (∃ s ∈ e.slices, s.duration ≠ 0) → e.rank = some e.row := by
  have hplaced : ∀ {before d after j slices}, ds = before ++ d :: after →
      (d.perIntervalSlices.getD [])[j]? = some slices →
      (⟨((d.perIntervalSlices.getD []).take j).foldl nextRow 0,
          if j < d.numRows then some ((before.map CuMonData.numRows).sum + j) else none, slices⟩ :
        Placed) ∈ place 0 ds := by
    intro before d after j slices hsplit hj
    refine mem_place.mpr ⟨before, d, after, hsplit, mem_placeCu.mpr ⟨j, slices, hj, ?_⟩⟩
    rw [Nat.zero_add]
  have hearlier : ∀ {d : CuMonData} {j slices}, (d.perIntervalSlices.getD [])[j]? = some slices →
      ((∀ sl ∈ (d.perIntervalSlices.getD []).take j, u64 (rowDur sl) ≠ 0)
        ↔ ∀ i < j, u64 (rowDur (d.slicesAt i)) ≠ 0) := by
    intro d j slices hj
    have hlt : j < (d.perIntervalSlices.getD []).length := (List.getElem?_eq_some_iff.mp hj).1
    constructor
    · intro h i hi
      have hi' : i < (d.perIntervalSlices.getD []).length := hi.trans hlt
      rw [CuMonData.slicesAt, List.getElem?_eq_getElem hi', Option.getD_some]
      refine h _ (List.mem_take_iff_getElem.mpr ⟨i, by omega, rfl⟩)
    · intro h sl hsl
      obtain ⟨i, hi, rfl⟩ := List.mem_take_iff_getElem.mp hsl
      have := h i (by omega)
      rwa [CuMonData.slicesAt, List.getElem?_eq_getElem (by omega), Option.getD_some] at this
  constructor
  · intro h e he hdur
    obtain ⟨before, d, after, hsplit, hcu⟩ := mem_place.mp he
    obtain ⟨j, slices, hj, rfl⟩ := mem_placeCu.mp hcu
    have hat : d.slicesAt j = slices := by rw [CuMonData.slicesAt, hj, Option.getD_some]
    obtain ⟨hlt, hbefore, hrows⟩ := h before d after hsplit j (hat ▸ hdur)
    have hjlt : j < 2 ^ 32 := by
      have := rank_lt he j (by simp [hlt, hbefore])
      omega
    have hlen : ((d.perIntervalSlices.getD []).take j).length = j := by
      have := (List.getElem?_eq_some_iff.mp hj).1
      rw [List.length_take]
      omega
    have hrow := (foldl_nextRow_eq (i := 0) (by omega)).mpr ((hearlier hj).mpr hrows)
    rw [hlen] at hrow
    simp [hlt, hbefore, hrow]
  · intro h before d after hsplit j hdur
    have hj : ∃ slices, (d.perIntervalSlices.getD [])[j]? = some slices := by
      obtain ⟨s, hs, -⟩ := hdur
      rw [CuMonData.slicesAt] at hs
      cases hget : (d.perIntervalSlices.getD [])[j]? with
      | none => rw [hget] at hs; cases hs
      | some slices => exact ⟨slices, rfl⟩
    obtain ⟨slices, hj⟩ := hj
    have hat : d.slicesAt j = slices := by rw [CuMonData.slicesAt, hj, Option.getD_some]
    have hmem := hplaced hsplit hj
    have hrank := h _ hmem (hat ▸ hdur)
    dsimp only at hrank
    split at hrank
    · rename_i hlt
      have hlen : ((d.perIntervalSlices.getD []).take j).length = j := by
        have := (List.getElem?_eq_some_iff.mp hj).1
        rw [List.length_take]
        omega
      have hrow := Option.some_inj.mp hrank
      have hle := foldl_nextRow_le (i := 0) (p := (d.perIntervalSlices.getD []).take j)
      have hjlt := rank_lt hmem _ (if_pos hlt)
      refine ⟨hlt, by omega, (hearlier hj).mp ((foldl_nextRow_eq (i := 0) (by omega)).mp ?_)⟩
      omega
    · cases hrank

/-! ## The matrix -/

/-- The slices that are added, each with the interval it is in. -/
def added (ps : List Placed) : List (Placed × Slice) :=
  ps.flatMap fun e => (e.slices.filter fun s => s.duration ≠ 0).map fun s => (e, s)

section Matrix

variable {bins : BinMapper} {ps : List Placed} {N : ℕ}

theorem mem_added {x : Placed × Slice} :
    x ∈ added ps ↔ x.1 ∈ ps ∧ x.2 ∈ x.1.slices ∧ x.2.duration ≠ 0 := by
  rw [added, List.mem_flatMap]
  constructor
  · rintro ⟨e, he, hx⟩
    obtain ⟨s, hs, rfl⟩ := List.mem_map.mp hx
    rw [List.mem_filter, decide_eq_true_eq] at hs
    exact ⟨he, hs⟩
  · rintro ⟨he, hs⟩
    refine ⟨x.1, he, List.mem_map.mpr ⟨x.2, ?_, rfl⟩⟩
    rwa [List.mem_filter, decide_eq_true_eq]

theorem writes_eq_added : (ps.flatMap fun e => writesOf bins (e.row, e.slices))
    = (added ps).map fun x => (x.1.row, (bins.bidOf x.2).getD 0, x.2.duration) := by
  rw [added, List.map_flatMap]
  refine List.flatMap_congr fun e _ => ?_
  rw [writesOf, List.map_map]
  rfl

/-- A sum over the slices that are added. -/
theorem sum_added (f : Placed → Slice → ℕ) (hf : ∀ e s, s.duration = 0 → f e s = 0) :
    ((added ps).map fun x => f x.1 x.2).sum = (ps.map fun e => (e.slices.map (f e)).sum).sum := by
  have hfilter : ∀ (e : Placed) (slices : List Slice),
      ((slices.filter fun s => s.duration ≠ 0).map (f e)).sum = (slices.map (f e)).sum := by
    intro e slices
    induction slices with
    | nil => rfl
    | cons s slices ih =>
      by_cases hs : s.duration = 0
      · rw [List.filter_cons_of_neg (by simp [hs]), ih, List.map_cons, List.sum_cons, hf e s hs,
          Nat.zero_add]
      · rw [List.filter_cons_of_pos (by simp [hs]), List.map_cons, List.sum_cons, ih,
          List.map_cons, List.sum_cons]
  induction ps with
  | nil => rfl
  | cons e ps ih =>
    rw [added, List.flatMap_cons, ← added, List.map_append, List.sum_append, ih, List.map_map,
      List.map_cons, List.sum_cons, ← hfilter]
    rfl

/-- The durations of all bins together. -/
theorem sum_binDur {slices : List Slice} (h : ∀ s ∈ slices, ∃ b < N, bins.bidOf s = some b) :
    ∑ b ∈ Finset.range N, binDur bins b slices = rowDur slices := by
  induction slices with
  | nil => simp [binDur, rowDur]
  | cons s slices ih =>
    obtain ⟨b, hb, hs⟩ := h s List.mem_cons_self
    have hsplit : ∀ b', binDur bins b' (s :: slices)
        = (if b = b' then s.duration else 0) + binDur bins b' slices := by
      intro b'
      by_cases hbb : b = b'
      · rw [binDur, List.filter_cons_of_pos (by simp [hs, hbb]), if_pos hbb]
        rfl
      · rw [binDur, List.filter_cons_of_neg (by simp [hs, hbb]), if_neg hbb, Nat.zero_add]
        rfl
    simp only [hsplit, Finset.sum_add_distrib, Finset.sum_ite_eq, Finset.mem_range, if_pos hb]
    rw [ih fun s' hs' => h s' (List.mem_cons_of_mem s hs')]
    rfl

theorem binDur_eq (bins : BinMapper) (b : ℕ) (slices : List Slice) : binDur bins b slices
    = (slices.map fun s => if bins.bidOf s = some b then s.duration else 0).sum := by
  induction slices with
  | nil => rfl
  | cons s slices ih =>
    rw [List.map_cons, List.sum_cons, ← ih]
    by_cases hs : bins.bidOf s = some b
    · rw [binDur, List.filter_cons_of_pos (by simp [hs]), if_pos hs]
      rfl
    · rw [binDur, List.filter_cons_of_neg (by simp [hs]), if_neg hs, Nat.zero_add]
      rfl

/-- A part of the slices lasts no longer than all. -/
theorem binDur_le (bins : BinMapper) (b : ℕ) (slices : List Slice) :
    binDur bins b slices ≤ rowDur slices :=
  ((List.filter_sublist).map _).sum_le_sum fun _ _ => Nat.zero_le _

/-- The matrix that is made for `R` rows and `N` bins, after the slices were added. -/
def filled (R N : ℕ) (bins : BinMapper) (ps : List Placed) : IntervalBinMatrix :=
  withDeposits (.make R N) (ps.flatMap fun e => writesOf bins (e.row, e.slices))

/-- Where a slice is added. -/
def target (N : ℕ) (bins : BinMapper) (x : Placed × Slice) : ℕ :=
  u32 (x.1.row * u32 N + (bins.bidOf x.2).getD 0)

/-- An entry is what has landed there. -/
theorem getElem?_filled {R N : ℕ} {i : ℕ} (hi : i < u32 (u32 R * u32 N)) :
    (filled R N bins ps).data[i]? = some
      (((added ps).map fun x => if target N bins x = i then x.2.duration else 0).sum % 2 ^ 64) := by
  have hzero : ∀ x ∈ (IntervalBinMatrix.make R N).data, x < 2 ^ 64 := by
    intro x hx
    rw [List.eq_of_mem_replicate hx]
    exact Nat.two_pow_pos 64
  rw [filled, withDeposits, Scatter.getElem?_foldl_deposit hzero, IntervalBinMatrix.make,
    List.getElem?_replicate, if_pos hi, Option.map_some, Nat.zero_add, Scatter.landed, deposits,
    writes_eq_added, List.map_map, List.map_map]
  rfl

theorem length_filled {R N : ℕ} : (filled R N bins ps).data.length = u32 (u32 R * u32 N) := by
  have hlen : ∀ (ws : List (ℕ × ℕ)) (data : List ℕ),
      (ws.foldl (Scatter.deposit (2 ^ 64)) data).length = data.length := by
    intro ws
    induction ws with
    | nil => exact fun _ => rfl
    | cons w ws ih => exact fun data => (ih _).trans (Scatter.length_deposit w)
  rw [filled, withDeposits, hlen, IntervalBinMatrix.make, List.length_replicate]

end Matrix

/-! ## Rows and intervals -/

section Rows

variable {bins : BinMapper} {ds : List CuMonData} {N : ℕ}

/-- The matrix is made, and its entries are the durations of the bins in the intervals of
counts. -/
structure Right (ds : List CuMonData) (bins : BinMapper) (N : ℕ) (m : IntervalBinMatrix) : Prop
    where
  numIntervals : m.kNumIntervals = (ds.flatMap CuMonData.countIntervals).length
  numBids : m.kNumBids = N
  size : m.data.length = (ds.flatMap CuMonData.countIntervals).length * N
  entries : ∀ k slices, (ds.flatMap CuMonData.countIntervals)[k]? = some slices →
    ∀ b < N, m.get k b = some (binDur bins b slices)

/-- All slices have a bin. -/
def AllBinned (bins : BinMapper) (ds : List CuMonData) (N : ℕ) : Prop :=
  ∀ d ∈ ds, ∀ slices ∈ d.perIntervalSlices.getD [], ∀ s ∈ slices, ∃ b < N, bins.bidOf s = some b

/-- The durations of all slices together. -/
def totalDur (ds : List CuMonData) : ℕ :=
  (ds.map fun d => ((d.perIntervalSlices.getD []).map rowDur).sum).sum

theorem AllBinned.placed (h : AllBinned bins ds N) {e : Placed} (he : e ∈ place 0 ds) :
    ∀ s ∈ e.slices, ∃ b < N, bins.bidOf s = some b := by
  obtain ⟨before, d, after, rfl, hcu⟩ := mem_place.mp he
  obtain ⟨j, slices, hj, rfl⟩ := mem_placeCu.mp hcu
  exact h d (by simp) slices (List.mem_of_getElem? hj)

theorem sum_rowDur_place (n : ℕ) :
    ((place n ds).map fun e => rowDur e.slices).sum = totalDur ds := by
  induction ds generalizing n with
  | nil => rfl
  | cons d ds ih =>
    have hcu : ((placeCu n d).map fun e => rowDur e.slices)
        = (d.perIntervalSlices.getD []).map rowDur := by
      have hzip := List.zipIdx_map_fst 0 (rowsFrom 0 (d.perIntervalSlices.getD []))
      have hsnd := congrArg (List.map (rowDur ∘ Prod.snd)) hzip
      rw [List.map_map] at hsnd
      rw [placeCu, List.map_map]
      refine hsnd.trans ?_
      rw [← List.map_map, map_snd_rowsFrom]
    rw [place, List.map_append, List.sum_append, ih, hcu]
    rfl

/-- An interval lasts no longer than all together. -/
theorem rowDur_le_totalDur {slices : List Slice}
    (h : slices ∈ ds.flatMap CuMonData.countIntervals) : rowDur slices ≤ totalDur ds := by
  obtain ⟨d, hd, hslices⟩ := List.mem_flatMap.mp h
  obtain ⟨j, -, rfl⟩ := List.mem_map.mp hslices
  have hunit : ((d.perIntervalSlices.getD []).map rowDur).sum ≤ totalDur ds :=
    List.single_le_sum (fun _ _ => Nat.zero_le _) _ (List.mem_map_of_mem hd)
  refine le_trans ?_ hunit
  rw [CuMonData.slicesAt]
  cases hget : (d.perIntervalSlices.getD [])[j]? with
  | none => exact Nat.zero_le _
  | some slices =>
    exact List.single_le_sum (fun _ _ => Nat.zero_le _) _
      (List.mem_map_of_mem (List.mem_of_getElem? hget))

/-- What is added for an interval of counts. -/
theorem sum_rank (w : Slice → ℕ) (hw : ∀ s, s.duration = 0 → w s = 0) (k : ℕ) :
    ((added (place 0 ds)).map fun x => if x.1.rank = some k then w x.2 else 0).sum
      = (((ds.flatMap CuMonData.countIntervals)[k]?.getD []).map w).sum := by
  have hplace := @sum_place 0 ds (fun slices => (slices.map w).sum) rfl k
  rw [Nat.zero_add] at hplace
  rw [← hplace, sum_added (fun e s => if e.rank = some k then w s else 0)
    (fun e s hs => by rw [hw s hs, ite_self])]
  refine congrArg List.sum (List.map_congr_left fun e _ => ?_)
  by_cases hc : e.rank = some k
  · simp only [if_pos hc]
  · simp [hc]

/-- Entries are in different places. -/
theorem row_bin_eq_iff {i b k b' : ℕ} (hb : b < N) (hb' : b' < N) :
    i * N + b = k * N + b' ↔ i = k ∧ b = b' := by
  constructor
  · intro h
    have hdiv := congrArg (· / N) h
    simp only [Nat.add_comm _ b, Nat.add_comm _ b'] at hdiv
    rw [Nat.add_mul_div_right _ _ (by omega), Nat.add_mul_div_right _ _ (by omega),
      Nat.div_eq_of_lt hb, Nat.div_eq_of_lt hb', Nat.zero_add, Nat.zero_add] at hdiv
    subst hdiv
    exact ⟨rfl, by omega⟩
  · rintro ⟨rfl, rfl⟩
    rfl

/-- **Rows that fit are right.** -/
theorem right_of_rowsFit (hN : 0 < N) (hbins : AllBinned bins ds N) (hfit : RowsFit ds N)
    (hdur : ∀ slices ∈ ds.flatMap CuMonData.countIntervals, rowDur slices < 2 ^ 64) :
    (∀ x ∈ added (place 0 ds), target N bins x < u32 (u32 (ds.flatMap
        CuMonData.countIntervals).length * u32 N))
      ∧ Right ds bins N
        (filled (ds.flatMap CuMonData.countIntervals).length N bins (place 0 ds)) := by
  obtain ⟨hNlt, hsize, hrows⟩ := hfit
  generalize hR : (ds.flatMap CuMonData.countIntervals).length = R at hsize ⊢
  have hRlt : R < 2 ^ 32 := (Nat.le_mul_of_pos_right R hN).trans_lt hsize
  have hu : u32 (u32 R * u32 N) = R * N := by
    rw [u32, u32, u32, Nat.mod_eq_of_lt hRlt, Nat.mod_eq_of_lt hNlt, Nat.mod_eq_of_lt hsize]
  rw [rows_iff_place (by omega)] at hrows
  have hplaced : ∀ x ∈ added (place 0 ds), ∃ b < N, bins.bidOf x.2 = some b ∧ x.1.row < R
      ∧ x.1.rank = some x.1.row := by
    intro x hx
    obtain ⟨he, hs, hpos⟩ := mem_added.mp hx
    obtain ⟨b, hb, hbid⟩ := hbins.placed he x.2 hs
    have hrank := hrows x.1 he ⟨x.2, hs, hpos⟩
    have := rank_lt he x.1.row hrank
    exact ⟨b, hb, hbid, by omega, hrank⟩
  have hindex : ∀ k < R, ∀ b < N, k * N + b < R * N := by
    intro k hk b hb
    calc k * N + b < k * N + N := by omega
      _ = (k + 1) * N := (Nat.succ_mul k N).symm
      _ ≤ R * N := Nat.mul_le_mul_right N hk
  have htarget : ∀ x ∈ added (place 0 ds), ∀ b, bins.bidOf x.2 = some b → b < N → x.1.row < R →
      target N bins x = x.1.row * N + b := by
    intro x _ b hbid hb hrow
    have := hindex x.1.row hrow b hb
    rw [target, hbid, Option.getD_some, u32, u32, Nat.mod_eq_of_lt hNlt,
      Nat.mod_eq_of_lt (by omega)]
  refine ⟨fun x hx => ?_, ⟨?_, ?_, ?_, ?_⟩⟩
  · obtain ⟨b, hb, hbid, hrow, -⟩ := hplaced x hx
    rw [htarget x hx b hbid hb hrow, hu]
    exact hindex _ hrow b hb
  · rw [hR]
    exact Nat.mod_eq_of_lt hRlt
  · exact Nat.mod_eq_of_lt hNlt
  · rw [length_filled, hu, hR]
  · intro k slices hk b hb
    have hkR : k < R := hR ▸ (List.getElem?_eq_some_iff.mp hk).1
    have hget : (filled R N bins (place 0 ds)).index k b = k * N + b := by
      have := hindex k hkR b hb
      rw [IntervalBinMatrix.index, show (filled R N bins (place 0 ds)).kNumBids = u32 N from rfl,
        u32, u32, Nat.mod_eq_of_lt hNlt, Nat.mod_eq_of_lt (by omega)]
    rw [IntervalBinMatrix.get, hget, getElem?_filled (hu ▸ hindex k hkR b hb)]
    -- what is added there is what the interval has in the bin
    have hsum : ((added (place 0 ds)).map
        fun x => if target N bins x = k * N + b then x.2.duration else 0).sum
          = binDur bins b slices := by
      have hsame : ((added (place 0 ds)).map
          fun x => if target N bins x = k * N + b then x.2.duration else 0)
            = (added (place 0 ds)).map fun x => if x.1.rank = some k
                then if bins.bidOf x.2 = some b then x.2.duration else 0 else 0 := by
        refine List.map_congr_left fun x hx => ?_
        obtain ⟨b', hb', hbid, hrow, hrank⟩ := hplaced x hx
        rw [htarget x hx b' hbid hb' hrow, hrank, hbid]
        simp only [Option.some_inj, ← ite_and, row_bin_eq_iff hb' hb]
      rw [hsame, sum_rank (fun s => if bins.bidOf s = some b then s.duration else 0)
        (fun s hs => by rw [hs, ite_self]), hk, Option.getD_some, ← binDur_eq]
    have hlt := (binDur_le bins b slices).trans_lt (hdur slices (List.mem_of_getElem? hk))
    rw [hsum, Nat.mod_eq_of_lt hlt]

/-- A row of the matrix has what is added in it. -/
theorem sum_row (hN : 0 < N) (k : ℕ) (ps : List Placed) :
    ∑ b ∈ Finset.range N,
        ((added ps).map fun x => if target N bins x = k * N + b then x.2.duration else 0).sum
      = ((added ps).map fun x => if target N bins x / N = k then x.2.duration else 0).sum := by
  rw [Scatter.sum_rows]
  refine congrArg List.sum (List.map_congr_left fun x _ => ?_)
  have hmod := Nat.mod_lt (target N bins x) hN
  have hdiv := Nat.div_add_mod' (target N bins x) N
  have hcol : ∀ b ∈ Finset.range N,
      (if target N bins x = k * N + b then x.2.duration else 0)
        = if target N bins x % N = b
          then if target N bins x / N = k then x.2.duration else 0 else 0 := by
    intro b hb
    have hiff := row_bin_eq_iff (i := target N bins x / N) (k := k) hmod (Finset.mem_range.mp hb)
    rw [hdiv] at hiff
    by_cases hrow : target N bins x / N = k
    · by_cases hbin : target N bins x % N = b
      · rw [if_pos (hiff.mpr ⟨hrow, hbin⟩), if_pos hbin, if_pos hrow]
      · rw [if_neg fun h => hbin (hiff.mp h).2, if_neg hbin]
    · rw [if_neg fun h => hrow (hiff.mp h).1, if_neg hrow, ite_self]
  rw [Finset.sum_congr rfl hcol, Finset.sum_ite_eq, if_pos (Finset.mem_range.mpr hmod)]

theorem AllBinned.countIntervals (h : AllBinned bins ds N) {slices : List Slice}
    (hmem : slices ∈ ds.flatMap CuMonData.countIntervals) :
    ∀ s ∈ slices, ∃ b < N, bins.bidOf s = some b := by
  obtain ⟨d, hd, hslices⟩ := List.mem_flatMap.mp hmem
  obtain ⟨j, -, rfl⟩ := List.mem_map.mp hslices
  intro s hs
  rw [CuMonData.slicesAt] at hs
  cases hget : (d.perIntervalSlices.getD [])[j]? with
  | none =>
    rw [hget] at hs
    cases hs
  | some slices =>
    rw [hget] at hs
    exact h d hd slices (List.mem_of_getElem? hget) s hs

theorem sum_duration_added :
    ((added (place 0 ds)).map fun x => x.2.duration).sum = totalDur ds := by
  rw [← sum_rowDur_place 0]
  exact sum_added (fun _ s => s.duration) fun _ _ hs => hs

theorem sum_target_le (N i : ℕ) (ps : List Placed) :
    ((added ps).map fun x => if target N bins x = i then x.2.duration else 0).sum
      ≤ ((added ps).map fun x => x.2.duration).sum := by
  refine List.sum_le_sum fun x _ => ?_
  split
  · exact le_rfl
  · exact Nat.zero_le _

/-- **Rows that are right fit**, as long as all durations together are a number of 64
bits. -/
theorem rowsFit_of_right (hN : 0 < N) (hbins : N < 2 ^ 32 → AllBinned bins ds N)
    (htotal : totalDur ds < 2 ^ 64)
    (htargets : ∀ x ∈ added (place 0 ds), target N bins x < u32 (u32 (ds.flatMap
        CuMonData.countIntervals).length * u32 N))
    (hright : Right ds bins N
      (filled (ds.flatMap CuMonData.countIntervals).length N bins (place 0 ds))) :
    RowsFit ds N := by
  obtain ⟨hRu, hNu, hlen, hentries⟩ := hright
  rw [length_filled] at hlen
  have hNlt : N < 2 ^ 32 := by
    rw [← hNu]
    exact Nat.mod_lt _ (Nat.two_pow_pos 32)
  have hsize : (ds.flatMap CuMonData.countIntervals).length * N < 2 ^ 32 := by
    rw [← hlen]
    exact Nat.mod_lt _ (Nat.two_pow_pos 32)
  have hbins := hbins hNlt
  refine ⟨hNlt, hsize, ?_⟩
  generalize hR : (ds.flatMap CuMonData.countIntervals).length = R at *
  have hRlt : R < 2 ^ 32 := (Nat.le_mul_of_pos_right R hN).trans_lt hsize
  rw [rows_iff_place (by omega)]
  -- a slice is added at or above the row that its interval is put into
  have htarget : ∀ x ∈ added (place 0 ds), target N bins x / N ≤ x.1.row := by
    intro x hx
    obtain ⟨he, hs, -⟩ := mem_added.mp hx
    obtain ⟨b, hb, hbid⟩ := hbins.placed he x.2 hs
    have hle : target N bins x ≤ x.1.row * N + b := by
      rw [target, hbid, Option.getD_some, u32, u32, Nat.mod_eq_of_lt hNlt]
      exact Nat.mod_le _ _
    calc target N bins x / N ≤ (x.1.row * N + b) / N := Nat.div_le_div_right hle
      _ = x.1.row := by
        rw [Nat.add_comm, Nat.add_mul_div_right _ _ hN, Nat.div_eq_of_lt hb, Nat.zero_add]
  have hrows : ∀ k < R,
      ((added (place 0 ds)).map fun x => if target N bins x / N = k then x.2.duration else 0).sum
        = ((added (place 0 ds)).map
            fun x => if x.1.rank = some k then x.2.duration else 0).sum := by
    intro k hk
    obtain ⟨slices, hslices⟩ : ∃ slices, (ds.flatMap CuMonData.countIntervals)[k]? = some slices :=
      ⟨_, List.getElem?_eq_getElem (by omega)⟩
    have hentry : ∀ b ∈ Finset.range N,
        ((added (place 0 ds)).map
          fun x => if target N bins x = k * N + b then x.2.duration else 0).sum
            = binDur bins b slices := by
      intro b hb
      have hb := Finset.mem_range.mp hb
      have hlt : k * N + b < R * N := by
        calc k * N + b < k * N + N := by omega
          _ = (k + 1) * N := (Nat.succ_mul k N).symm
          _ ≤ R * N := Nat.mul_le_mul_right N hk
      have hget := hentries k slices hslices b hb
      rw [IntervalBinMatrix.get, IntervalBinMatrix.index, hNu, u32, Nat.mod_eq_of_lt (by omega),
        getElem?_filled (hlen ▸ hlt), Option.some_inj] at hget
      rw [← hget, Nat.mod_eq_of_lt]
      rw [← sum_duration_added] at htotal
      exact (sum_target_le _ _ _).trans_lt htotal
    have hbinned := hbins.countIntervals (List.mem_of_getElem? hslices)
    rw [← sum_row hN, Finset.sum_congr rfl hentry, sum_binDur hbinned,
      sum_rank (fun s => s.duration) (fun _ hs => hs), hslices]
    rfl
  have hranks := @Scatter.rank_eq_of_rows _ (added (place 0 ds)) (fun x => x.2.duration) R
    (fun x => target N bins x / N) (fun x => x.1.rank) ?_ ?_ hrows
  · intro e he hdur
    obtain ⟨s, hs, hpos⟩ := hdur
    have hx : (e, s) ∈ added (place 0 ds) := mem_added.mpr ⟨he, hs, hpos⟩
    have hrank := hranks (e, s) hx hpos
    have hle := row_le_rank he _ hrank
    have := htarget _ hx
    rw [hrank]
    exact congrArg some (le_antisymm this hle)
  · intro x hx
    have := htargets x hx
    rw [hlen] at this
    exact (Nat.div_lt_iff_lt_mul hN).mpr this
  · intro x hx g hg
    obtain ⟨he, -⟩ := mem_added.mp hx
    have := rank_lt he g hg
    exact ⟨(htarget x hx).trans (row_le_rank he g hg), by omega⟩

end Rows

/-! ## The constructor -/

namespace TagStackIdBinner

section Constructor

variable {τ μ : Type} {iteration : Iteration} {md : MonData τ μ} {cpuSet : Option CpuSet}
  {minDistinctIntervals minDuration : ℕ}

theorem u32_numCountIntervals : u32 (md.numCountIntervals cpuSet)
    = u32 ((md.selected cpuSet).flatMap CuMonData.countIntervals).length := by
  have hloop : ∀ (ds : List CuMonData) (n : ℕ),
      u32 (ds.foldl (fun n d => u64 (n + d.numRows)) n)
        = u32 (n + (ds.flatMap CuMonData.countIntervals).length) := by
    intro ds
    induction ds with
    | nil => exact fun _ => rfl
    | cons d ds ih =>
      intro n
      have hlen : d.countIntervals.length = d.numRows := by
        rw [CuMonData.countIntervals, List.length_map, List.length_range]
      rw [List.foldl_cons, ih, List.flatMap_cons, List.length_append, hlen, u32, u32, u64]
      omega
  rw [MonData.numCountIntervals, hloop, Nat.zero_add]

/-- The rows are those of the count intervals, and each entry is the duration of the slices
of the bin in the interval. -/
def RowsAreIntervals (iteration : Iteration) (md : MonData τ μ) (cpuSet : Option CpuSet)
    (minDistinctIntervals minDuration : ℕ) : Prop :=
  ∃ r, make iteration md cpuSet minDistinctIntervals minDuration = .ok r
    ∧ Right (md.selected cpuSet) r.binMapper
      (numBins minDistinctIntervals minDuration (md.stackIdFreqs cpuSet)) r.durations

/-- What the constructor makes. -/
theorem make_spec : ∃ bins : BinMapper,
    (numBins minDistinctIntervals minDuration (md.stackIdFreqs cpuSet) < 2 ^ 32 →
      AllBinned bins (md.selected cpuSet)
        (numBins minDistinctIntervals minDuration (md.stackIdFreqs cpuSet)))
    ∧ ∀ r, make iteration md cpuSet minDistinctIntervals minDuration = .ok r ↔
      (∀ x ∈ added (place 0 (md.selected cpuSet)),
        target (numBins minDistinctIntervals minDuration (md.stackIdFreqs cpuSet)) bins x
          < u32 (u32 ((md.selected cpuSet).flatMap CuMonData.countIntervals).length
            * u32 (numBins minDistinctIntervals minDuration (md.stackIdFreqs cpuSet))))
      ∧ r = ⟨bins, filled ((md.selected cpuSet).flatMap CuMonData.countIntervals).length
          (numBins minDistinctIntervals minDuration (md.stackIdFreqs cpuSet)) bins
          (place 0 (md.selected cpuSet)), 0⟩ := by
  have hperm := iteration.perm (md.stackIdFreqs cpuSet)
  have hnd : ((iteration.order (md.stackIdFreqs cpuSet)).map Prod.fst).Nodup :=
    (hperm.map Prod.fst).nodup_iff.mpr nodup_stackIdFreqs
  have hnum : numBins minDistinctIntervals minDuration (iteration.order (md.stackIdFreqs cpuSet))
      = numBins minDistinctIntervals minDuration (md.stackIdFreqs cpuSet) :=
    congrArg (1 + ·) (hperm.countP_eq _)
  obtain ⟨bins, hbins, hnext, hkeys, hdense⟩ := markAll_spec minDistinctIntervals minDuration hnd
  rw [hnum] at hnext hdense
  generalize numBins minDistinctIntervals minDuration (md.stackIdFreqs cpuSet) = N at *
  have hsome : ∀ d ∈ md.selected cpuSet, ∀ p ∈ d.perIntervalSlices, ∀ slices ∈ p, ∀ s ∈ slices,
      (bins.bidOf s).isSome := by
    intro d hd p hp slices hslices s hs
    refine hkeys _ ?_
    rw [(hperm.map Prod.fst).mem_iff]
    exact mem_stackIdFreqs hd hp hslices hs
  refine ⟨bins, fun hlt d hd slices hslices s hs => ?_, fun r => ?_⟩
  · cases hp : d.perIntervalSlices with
    | none =>
      rw [hp] at hslices
      cases hslices
    | some p =>
      rw [hp] at hslices
      obtain ⟨b, hb⟩ := Option.isSome_iff_exists.mp (hsome d hd p hp slices hslices s hs)
      exact ⟨b, hdense hlt _ b hb, hb⟩
  · have hmatrix : IntervalBinMatrix.make (md.numCountIntervals cpuSet) bins.numBinIds
        = .make ((md.selected cpuSet).flatMap CuMonData.countIntervals).length N := by
      have hN : u32 bins.numBinIds = u32 N := by
        rw [BinMapper.numBinIds, hnext, u32, u32, Nat.mod_mod]
      rw [IntervalBinMatrix.make, IntervalBinMatrix.make, u32_numCountIntervals, hN]
    have hmake : make iteration md cpuSet minDistinctIntervals minDuration
        = incAll (.make ((md.selected cpuSet).flatMap CuMonData.countIntervals).length N)
            ((place 0 (md.selected cpuSet)).flatMap fun e => writesOf bins (e.row, e.slices))
          >>= fun m => pure ⟨bins, m, 0⟩ := by
      rw [make, hbins, ← flatMap_cuWrites, ← foldlM_addCu hsome, ← hmatrix]
      rfl
    have htargets : (∀ w ∈ (place 0 (md.selected cpuSet)).flatMap
          fun e => writesOf bins (e.row, e.slices),
        (IntervalBinMatrix.make ((md.selected cpuSet).flatMap CuMonData.countIntervals).length
          N).index w.1 w.2.1 < (IntervalBinMatrix.make ((md.selected cpuSet).flatMap
            CuMonData.countIntervals).length N).data.length)
        ↔ ∀ x ∈ added (place 0 (md.selected cpuSet)), target N bins x
          < u32 (u32 ((md.selected cpuSet).flatMap CuMonData.countIntervals).length * u32 N) := by
      rw [writes_eq_added, List.forall_mem_map, IntervalBinMatrix.make, List.length_replicate]
      rfl
    rw [hmake, ← htargets]
    constructor
    · intro h
      obtain ⟨m, hm, hr⟩ := bind_eq_ok.mp h
      obtain ⟨hall, rfl⟩ := incAll_eq_ok.mp hm
      exact ⟨hall, (Except.ok.inj hr).symm⟩
    · rintro ⟨hall, rfl⟩
      exact bind_eq_ok.mpr ⟨_, incAll_eq_ok.mpr ⟨hall, rfl⟩, rfl⟩

/-- **Rows are intervals** exactly if they fit, as long as all durations together are a
number of 64 bits; and if they fit and those of each interval are one, in any case. -/
theorem rows_iff (iteration : Iteration) (md : MonData τ μ) (cpuSet : Option CpuSet)
    (minDistinctIntervals minDuration : ℕ) :
    (totalDur (md.selected cpuSet) < 2 ^ 64 →
      (RowsAreIntervals iteration md cpuSet minDistinctIntervals minDuration ↔
        RowsFit (md.selected cpuSet)
          (numBins minDistinctIntervals minDuration (md.stackIdFreqs cpuSet))))
    ∧ ((∀ slices ∈ md.countIntervals cpuSet, rowDur slices < 2 ^ 64) →
      RowsFit (md.selected cpuSet)
          (numBins minDistinctIntervals minDuration (md.stackIdFreqs cpuSet)) →
        RowsAreIntervals iteration md cpuSet minDistinctIntervals minDuration) := by
  obtain ⟨bins, hbins, hmake⟩ :=
    @make_spec _ _ iteration md cpuSet minDistinctIntervals minDuration
  have hpos : 0 < numBins minDistinctIntervals minDuration (md.stackIdFreqs cpuSet) :=
    Nat.add_pos_left one_pos _
  have hfits : (∀ slices ∈ md.countIntervals cpuSet, rowDur slices < 2 ^ 64) →
      RowsFit (md.selected cpuSet)
          (numBins minDistinctIntervals minDuration (md.stackIdFreqs cpuSet)) →
        RowsAreIntervals iteration md cpuSet minDistinctIntervals minDuration := by
    intro hdur hfit
    obtain ⟨htargets, hright⟩ := right_of_rowsFit hpos (hbins hfit.bins) hfit hdur
    exact ⟨_, (hmake _).mpr ⟨htargets, rfl⟩, hright⟩
  refine ⟨fun htotal => ⟨?_, hfits fun slices hmem => ?_⟩, hfits⟩
  · rintro ⟨r, hr, hright⟩
    obtain ⟨htargets, rfl⟩ := (hmake r).mp hr
    exact rowsFit_of_right hpos hbins htotal htargets hright
  · exact (rowDur_le_totalDur hmem).trans_lt htotal

/-- A unit with one interval of counts, and one slice in it. -/
def unitLasting (duration : ℕ) : CuMonData :=
  ⟨some ⟨[], [⟨0, 10, []⟩], by simp⟩, some [[⟨0, duration, 7, .threadYield, .threadYield⟩]]⟩

def oneUnit : MonData Unit Unit :=
  ⟨"", "", (), "cpu", [(0, unitLasting 3)], none, by decide, by decide⟩

def twoUnits : MonData Unit Unit :=
  ⟨"", "", (), "cpu", [(0, unitLasting 3), (1, unitLasting 4)], none, by decide, by decide⟩

theorem rows_iff_oneUnit : totalDur (oneUnit.selected none) < 2 ^ 64 ∧
    (RowsAreIntervals ⟨id, fun _ => .rfl⟩ oneUnit none 0 0 ↔
      RowsFit (oneUnit.selected none) (numBins 0 0 (oneUnit.stackIdFreqs none))) := by
  have htotal : totalDur (oneUnit.selected none) < 2 ^ 64 := by decide
  exact ⟨htotal, (rows_iff ⟨id, fun _ => .rfl⟩ oneUnit none 0 0).1 htotal⟩

/-- The slice of the second unit is added to that of the first one. -/
theorem not_rowsAreIntervals : ¬ RowsAreIntervals ⟨id, fun _ => .rfl⟩ twoUnits none 0 0 := by
  rintro ⟨r, hr, hright⟩
  obtain ⟨r', hr', hget, hdur⟩ : ∃ r', make ⟨id, fun _ => .rfl⟩ twoUnits none 0 0 = .ok r'
      ∧ r'.durations.get 0 1 = some 7
      ∧ binDur r'.binMapper 1 ((unitLasting 3).slicesAt 0) = 3 := ⟨_, rfl, rfl, rfl⟩
  obtain rfl := Except.ok.inj (hr'.symm.trans hr)
  have hentry := hright.entries 0 ((unitLasting 3).slicesAt 0) rfl 1 (by decide)
  rw [hget, hdur] at hentry
  cases hentry

end Constructor

end TagStackIdBinner

end Mon
end IntegratedCLI
