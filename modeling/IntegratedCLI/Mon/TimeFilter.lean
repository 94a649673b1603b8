import IntegratedCLI.Lib.Intervals
import IntegratedCLI.Mon.Filter

/-!
# Which rows a filter by time keeps

`ByTimeStamp::filterCounts` is to keep the rows that overlap with the time from `start`
to `end`, up to a number of them.  It looks for the row that `start` is in and the one
that `end` is in, and keeps what is from the one to the other.

* A time between two rows, or before or behind all of them, is in no row.  Some of these
  cases are told apart before the look-up, and the others read an empty optional.
* The row that `end` is in is kept also where it begins only at `end`.
* More than `maxNumElems` rows are cut down to the first positions of the *data*, not of
  the rows found.

## Main results

* `ByTimeStamp.filterCounts_eq` : the rows that are kept are those from `firstRow` up to
  `lastRow`, or the result is not defined.
* `ByTimeStamp.filtersRight_iff` : when these are the ones that overlap.
-/

namespace IntegratedCLI
namespace Mon

open Fallible Intervals Masks Ringbuffer Tagstack

/-- The rows are intervals in order, possibly with gaps between them. -/
structure RowsOrdered (rows : List CountRow) : Prop
    extends Ordered CountRow.tstamp CountRow.tstampEnd rows where
  length_lt : rows.length < 2 ^ 64

instance (rows : List CountRow) : Decidable (RowsOrdered rows) :=
  decidable_of_iff
    ((∀ r ∈ rows, r.tstamp < r.tstampEnd) ∧
      rows.Pairwise (fun r r' => r.tstampEnd ≤ r'.tstamp) ∧ rows.length < 2 ^ 64)
    ⟨fun h => ⟨⟨h.1, h.2.1⟩, h.2.2⟩, fun h => ⟨h.pos, h.apart, h.length_lt⟩⟩

/-- A time is in the interval of a row. -/
def CountRow.Holds (r : CountRow) (t : ℕ) : Prop := r.tstamp ≤ t ∧ t < r.tstampEnd

instance (r : CountRow) (t : ℕ) : Decidable (r.Holds t) :=
  inferInstanceAs (Decidable (_ ∧ _))

theorem CountRow.tstampEnd_lt (r : CountRow) : r.tstampEnd < 2 ^ 64 :=
  Nat.mod_lt _ (by decide)

namespace RowsOrdered

variable {rows : List CountRow} {r r' : CountRow} {t i j : ℕ}

theorem le_of_lt (h : RowsOrdered rows) (hi : rows[i]? = some r) (hj : rows[j]? = some r')
    (hlt : i < j) : r.tstampEnd ≤ r'.tstamp := by
  obtain ⟨hi', rfl⟩ := List.getElem?_eq_some_iff.mp hi
  obtain ⟨hj', rfl⟩ := List.getElem?_eq_some_iff.mp hj
  exact List.pairwise_iff_getElem.mp h.apart i j hi' hj' hlt

/-- The rows that end by a time are the first ones. -/
theorem lt_countP_ended (h : RowsOrdered rows) (hi : rows[i]? = some r) :
    i < rows.countP (fun r => r.tstampEnd ≤ t) ↔ r.tstampEnd ≤ t := by
  refine (lt_countP_iff (h.apart.imp_of_mem fun {x y} _ hy hxy => ?_) hi).trans
    decide_eq_true_iff
  have hle := h.pos y hy
  simp only [decide_eq_true_eq]
  omega

/-- The rows that begin by a time are the first ones. -/
theorem lt_countP_begun (h : RowsOrdered rows) (hi : rows[i]? = some r) :
    i < rows.countP (fun r => r.tstamp ≤ t) ↔ r.tstamp ≤ t := by
  refine (lt_countP_iff (h.apart.imp_of_mem fun {x y} hx _ hxy => ?_) hi).trans
    decide_eq_true_iff
  have hle := h.pos x hx
  simp only [decide_eq_true_eq]
  omega

/-- All rows end by a time if the last one does. -/
theorem last_le_iff (h : RowsOrdered rows) (hl : rows.getLast? = some r) :
    r.tstampEnd ≤ t ↔ ∀ r' ∈ rows, r'.tstampEnd ≤ t := by
  refine ⟨fun hle r' hr' => ?_, fun hall => hall r (List.mem_of_getLast? hl)⟩
  obtain ⟨ys, rfl⟩ := List.getLast?_eq_some_iff.mp hl
  rcases List.mem_append.mp hr' with hr' | hr'
  · have hbefore := (List.pairwise_append.mp h.apart).2.2 r' hr' r (by simp)
    exact hbefore.trans ((h.pos r (by simp)).le.trans hle)
  · rw [List.mem_singleton.mp hr']
    exact hle

/-- All rows begin at a time or later if the first one does. -/
theorem le_head_iff (h : RowsOrdered rows) (hh : rows.head? = some r) :
    t ≤ r.tstamp ↔ ∀ r' ∈ rows, t ≤ r'.tstamp := by
  obtain ⟨ys, rfl⟩ := List.head?_eq_some_iff.mp hh
  refine ⟨fun hle r' hr' => ?_, fun hall => hall r List.mem_cons_self⟩
  rcases List.mem_cons.mp hr' with rfl | hr'
  · exact hle
  · have hbefore := (List.pairwise_cons.mp h.apart).1 r' hr'
    exact hle.trans ((h.pos r List.mem_cons_self).le.trans hbefore)

/-- A row that a time is in comes after the rows that end by then. -/
theorem countP_ended_of_holds (h : RowsOrdered rows) (hi : rows[i]? = some r) (ht : r.Holds t) :
    rows.countP (fun r => r.tstampEnd ≤ t) = i := by
  have hlt := (List.getElem?_eq_some_iff.mp hi).1
  refine countP_eq_of_lt_iff hlt.le fun j r' hj => ?_
  rw [decide_eq_true_iff]
  constructor
  · intro hle
    by_contra hji
    rcases Nat.lt_or_eq_of_le (Nat.le_of_not_lt hji) with hij | rfl
    · have hap := h.le_of_lt hi hj hij
      have hle' := h.pos r' (List.mem_of_getElem? hj)
      have hin := ht.2
      omega
    · rw [hi] at hj
      cases hj
      exact absurd ht.2 (Nat.not_lt_of_le hle)
  · intro hji
    exact (h.le_of_lt hj hi hji).trans ht.1

/-- A row that a time is in is the last one that begins by then. -/
theorem countP_begun_of_holds (h : RowsOrdered rows) (hi : rows[i]? = some r) (ht : r.Holds t) :
    rows.countP (fun r => r.tstamp ≤ t) = i + 1 := by
  have hlt := (List.getElem?_eq_some_iff.mp hi).1
  refine countP_eq_of_lt_iff hlt fun j r' hj => ?_
  rw [decide_eq_true_iff]
  constructor
  · intro hle
    by_contra hji
    have hap := h.le_of_lt hi hj (Nat.lt_of_not_le fun hle => hji (Nat.lt_succ_of_le hle))
    have hin := ht.2
    omega
  · intro hji
    rcases Nat.lt_or_eq_of_le (Nat.le_of_lt_succ hji) with hji | rfl
    · have hap := h.le_of_lt hj hi hji
      have hle' := h.pos r' (List.mem_of_getElem? hj)
      exact hle'.le.trans (hap.trans ht.1)
    · rw [hi] at hj
      cases hj
      exact ht.1

end RowsOrdered

/-! ## What the look-up finds -/

namespace CountData

variable {c : CountData} {t k : ℕ} {range : ℕ × ℕ}

theorem findCountAt_eq_some (h : c.findCountAt t = some k) :
    ∃ r, c.rows[k]? = some r ∧ r.Holds t := by
  obtain ⟨hk, hr, -⟩ := List.findIdx?_eq_some_iff_getElem.mp h
  exact ⟨_, List.getElem?_eq_getElem hk, by simpa [CountRow.Holds] using hr⟩

theorem findCountAt_eq_none_iff :
    c.findCountAt t = none ↔ ¬ ∃ r ∈ c.rows, r.Holds t := by
  simp [findCountAt, CountRow.Holds, List.findIdx?_eq_none_iff]

theorem getTimeStampRange_eq_some (h : c.getTimeStampRange = some range) :
    ∃ first last, c.rows.head? = some first ∧ c.rows.getLast? = some last ∧
      range = (first.tstamp, last.tstampEnd) := by
  unfold getTimeStampRange at h
  split at h
  · rename_i first last hfirst hlast
    cases h
    exact ⟨first, last, hfirst, hlast, rfl⟩
  · cases h

theorem getTimeStampRange_eq_none (h : c.getTimeStampRange = none) : c.rows = [] := by
  unfold getTimeStampRange at h
  split at h
  · cases h
  · rename_i hnone
    cases hrows : c.rows with
    | nil => rfl
    | cons r rows =>
      exact (hnone r ((r :: rows).getLast (List.cons_ne_nil r rows)) (by rw [hrows]; rfl)
        (by rw [hrows]; exact List.getLast?_eq_some_getLast _)).elim

end CountData

/-! ## The rows that are kept -/

namespace ByTimeStamp

variable (f : ByTimeStamp)

/-- The earliest time to keep. -/
def lower : ℕ := if f.start = kInvalidTimeStamp then 0 else f.start

/-- The time from which on nothing is kept. -/
def upper : ℕ := if f.end = kInvalidTimeStamp then 2 ^ 64 else f.end

/-- A row overlaps with the time from `start` to `end`. -/
def overlaps (r : CountRow) : Bool := max f.lower r.tstamp < min f.upper r.tstampEnd

/-- The step selects what was selected before, overlaps, and is among the first
`maxNumElems` rows that do; and the slices stay as they are. -/
def FiltersRight (sel : CuSel) (d : CuMonData) : Prop :=
  ∃ counts rows flags, sel.selCounts = some counts ∧ d.countData.map CountData.rows = some rows ∧
    f.filterCounts sel d = .ok { sel with selCounts := some flags } ∧
    flags.length = counts.length ∧
    ∀ i r, rows[i]? = some r →
      (flags[i]? = some true ↔ counts[i]? = some true ∧ f.overlaps r = true ∧
        (rows.take i).countP f.overlaps < f.maxNumElems)

/-- What is asked of the fields: a start that is not behind the end, and one element or
more. -/
structure Sensible : Prop where
  start_le_end : f.start ≠ kInvalidTimeStamp → f.end ≠ kInvalidTimeStamp → f.start ≤ f.end
  pos : 1 ≤ f.maxNumElems
  lt : f.maxNumElems < 2 ^ 64

variable (rows : List CountRow)

/-- The rows before this position end before the time to keep. -/
def firstRow : ℕ :=
  if f.start = kInvalidTimeStamp then 0 else rows.countP fun r => r.tstampEnd ≤ f.start

/-- The row before this position is the one that `end` is in, or the first one if no row
begins before `end`. -/
def upTo : ℕ :=
  if f.end = kInvalidTimeStamp then rows.length
  else if ∀ r ∈ rows, f.end ≤ r.tstamp then 1
  else rows.countP fun r => r.tstamp ≤ f.end

/-- There are more rows than are to be kept. -/
def Trims : Prop := f.firstRow rows + f.maxNumElems < f.upTo rows

instance : Decidable (f.Trims rows) := inferInstanceAs (Decidable (_ < _))

/-- The rows from this position on are not kept. -/
def lastRow : ℕ := if f.Trims rows then f.maxNumElems else f.upTo rows

/-- A start that is set and not behind the rows is in one, and an end that is set and not
before the rows is in one. -/
structure Found : Prop where
  start : f.start = kInvalidTimeStamp ∨ (∀ r ∈ rows, r.tstampEnd ≤ f.start) ∨
    ∃ r ∈ rows, r.Holds f.start
  «end» : f.end = kInvalidTimeStamp ∨ (∀ r ∈ rows, f.end ≤ r.tstamp) ∨
    ∃ r ∈ rows, r.Holds f.end

variable {f rows} {c : CountData} {range : ℕ × ℕ} {find : ℕ → Option ℕ} {k s e : ℕ}

theorem deref_eq_ok {α : Type} {o : Option α} {a : α} :
    deref o = .ok a ↔ o = some a := by
  cases o with
  | none => exact iff_of_false (fun h => nomatch h) fun h => nomatch h
  | some b => exact (Except.ok.injEq b a).to_iff.trans (Option.some.injEq b a).to_iff.symm

/-- The look-up of a time that is in a row finds the position of that row. -/
theorem find_of_holds {t : ℕ} (h : ∃ r ∈ c.rows, r.Holds t) :
    ∃ k r, c.findCountAt t = some k ∧ c.rows[k]? = some r ∧ r.Holds t := by
  cases hk : c.findCountAt t with
  | none => exact absurd h (CountData.findCountAt_eq_none_iff.mp hk)
  | some k =>
    obtain ⟨r, hr, ht⟩ := CountData.findCountAt_eq_some hk
    exact ⟨k, r, rfl, hr, ht⟩

/-- The start is found at the first row that does not end before it. -/
theorem startIdx_eq_ok (hrows : RowsOrdered c.rows) (hrange : c.getTimeStampRange = some range) :
    f.startIdx range c.rows.length c.findCountAt = .ok s ↔
      (f.start = kInvalidTimeStamp ∨ (∀ r ∈ c.rows, r.tstampEnd ≤ f.start) ∨
        ∃ r ∈ c.rows, r.Holds f.start) ∧ s = f.firstRow c.rows := by
  obtain ⟨first, last, -, hlast, rfl⟩ := CountData.getTimeStampRange_eq_some hrange
  unfold startIdx firstRow
  split_ifs with hset hbehind
  · simp only [pure, Except.pure, Except.ok.injEq, hset, true_or, true_and, eq_comm]
  · have hall := (hrows.last_le_iff hlast).mp hbehind
    have hcount : (c.rows.countP fun r => r.tstampEnd ≤ f.start) = c.rows.length :=
      List.countP_eq_length.mpr fun r hr => decide_eq_true (hall r hr)
    simp only [pure, Except.pure, Except.ok.injEq, hcount]
    exact ⟨fun h => ⟨.inr (.inl hall), h.symm⟩, fun h => h.2.symm⟩
  · rw [deref_eq_ok]
    constructor
    · intro hs
      obtain ⟨r, hr, ht⟩ := CountData.findCountAt_eq_some hs
      exact ⟨.inr (.inr ⟨r, List.mem_of_getElem? hr, ht⟩),
        (hrows.countP_ended_of_holds hr ht).symm⟩
    · rintro ⟨hin, rfl⟩
      rcases hin with hin | hin | hin
      · exact absurd hin hset
      · exact absurd ((hrows.last_le_iff hlast).mpr hin) hbehind
      · obtain ⟨k, r, hk, hr, ht⟩ := find_of_holds hin
        rw [hk, hrows.countP_ended_of_holds hr ht]

/-- The end is found at the last row that does not begin after it. -/
theorem endIdx_eq_ok (hrows : RowsOrdered c.rows) (hrange : c.getTimeStampRange = some range) :
    f.endIdx range c.rows.length c.findCountAt = .ok e ↔
      (f.end = kInvalidTimeStamp ∨ (∀ r ∈ c.rows, f.end ≤ r.tstamp) ∨
        ∃ r ∈ c.rows, r.Holds f.end) ∧ e + 1 = f.upTo c.rows := by
  obtain ⟨first, last, hfirst, -, rfl⟩ := CountData.getTimeStampRange_eq_some hrange
  have hpos : 0 < c.rows.length := List.length_pos_of_mem (List.mem_of_head? hfirst)
  have hlt := hrows.length_lt
  have hiff := hrows.le_head_iff (t := f.end) hfirst
  unfold endIdx upTo
  simp only [← hiff]
  split_ifs with hset hbefore
  · have hsub : sub64 c.rows.length 1 + 1 = c.rows.length := by
      unfold sub64
      omega
    simp only [pure, Except.pure, Except.ok.injEq, hset, true_or, true_and]
    omega
  · simp only [pure, Except.pure, Except.ok.injEq, hbefore, true_or, or_true, true_and]
    omega
  · rw [deref_eq_ok]
    constructor
    · intro hs
      obtain ⟨r, hr, ht⟩ := CountData.findCountAt_eq_some hs
      refine ⟨.inr (.inr ⟨r, List.mem_of_getElem? hr, ht⟩), ?_⟩
      rw [hrows.countP_begun_of_holds hr ht]
    · rintro ⟨hin, he⟩
      rcases hin with hin | hin | hin
      · exact absurd hin hset
      · exact absurd hin hbefore
      · obtain ⟨k, r, hk, hr, ht⟩ := find_of_holds hin
        rw [hrows.countP_begun_of_holds hr ht] at he
        rw [hk, Nat.succ_injective he]

/-! ## What the step leaves -/

theorem firstRow_le_length : f.firstRow rows ≤ rows.length := by
  unfold firstRow
  split_ifs
  · exact Nat.zero_le _
  · exact List.countP_le_length

theorem upTo_le_length (h : rows ≠ []) : f.upTo rows ≤ rows.length := by
  have hpos := List.length_pos_iff.mpr h
  unfold upTo
  split_ifs
  · exact le_rfl
  · exact hpos
  · exact List.countP_le_length

/-- What is found for the start is not behind what is found for the end. -/
theorem firstRow_le_upTo (hf : f.Sensible) (hrows : RowsOrdered rows) (h : f.Found rows)
    (hne : rows ≠ []) : f.firstRow rows ≤ f.upTo rows := by
  by_cases hend : f.end = kInvalidTimeStamp
  · rw [upTo, if_pos hend]
    exact firstRow_le_length
  by_cases hstart : f.start = kInvalidTimeStamp
  · rw [firstRow, if_pos hstart]
    exact Nat.zero_le _
  have hle := hf.start_le_end hstart hend
  obtain ⟨r₀, rows', rfl⟩ := List.exists_cons_of_ne_nil hne
  have hpos₀ := hrows.pos r₀ List.mem_cons_self
  rw [firstRow, if_neg hstart, upTo, if_neg hend]
  split_ifs with hbefore
  · by_contra hlt
    have hr₀ := hbefore r₀ List.mem_cons_self
    have hended := (hrows.lt_countP_ended (t := f.start) (i := 0) rfl).mp (by omega)
    omega
  · rcases h.end with he | he | ⟨r, hr, he⟩
    · exact absurd he hend
    · exact absurd he hbefore
    · obtain ⟨j, hj⟩ := List.mem_iff_getElem?.mp hr
      rw [hrows.countP_begun_of_holds hj he]
      by_contra hlt
      have hended := (hrows.lt_countP_ended (t := f.start) hj).mp (by omega)
      have hin := he.2
      omega

theorem upTo_pos (h : f.Found rows) (hrows : RowsOrdered rows) (hne : rows ≠ []) :
    1 ≤ f.upTo rows := by
  have hpos := List.length_pos_iff.mpr hne
  unfold upTo
  split_ifs with hend hbefore
  · exact hpos
  · exact le_rfl
  · rcases h.end with he | he | ⟨r, hr, he⟩
    · exact absurd he hend
    · exact absurd he hbefore
    · obtain ⟨j, hj⟩ := List.mem_iff_getElem?.mp hr
      rw [hrows.countP_begun_of_holds hj he]
      exact Nat.le_add_left 1 j

/-- The positions that are looked up, and then cut down. -/
theorem bounds_eq_ok (hf : f.Sensible) (hrows : RowsOrdered c.rows)
    (hrange : c.getTimeStampRange = some range) (h : f.Found c.rows) :
    ∃ e, e + 1 = f.lastRow c.rows ∧
      f.bounds range c.rows.length c.findCountAt = .ok (f.firstRow c.rows, e) := by
  have hne : c.rows ≠ [] := by
    obtain ⟨first, _, hfirst, -, -⟩ := CountData.getTimeStampRange_eq_some hrange
    exact List.ne_nil_of_mem (List.mem_of_head? hfirst)
  have hlt := hrows.length_lt
  have hup := upTo_le_length (f := f) hne
  have hle := firstRow_le_upTo hf hrows h hne
  have hone := upTo_pos h hrows hne
  have hmax := hf.pos
  have hmax' := hf.lt
  obtain ⟨e, he⟩ : ∃ e, e + 1 = f.upTo c.rows := ⟨f.upTo c.rows - 1, by omega⟩
  have hs := (startIdx_eq_ok hrows hrange).mpr ⟨h.start, rfl⟩
  have hend := (endIdx_eq_ok hrows hrange).mpr ⟨h.end, he⟩
  have hdiff : u64 (sub64 e (f.firstRow c.rows) + 1) = f.upTo c.rows - f.firstRow c.rows := by
    unfold sub64 u64
    omega
  have htrims : f.maxNumElems < u64 (sub64 e (f.firstRow c.rows) + 1) ↔ f.Trims c.rows := by
    rw [hdiff]
    unfold Trims
    omega
  have hsub : sub64 f.maxNumElems 1 + 1 = f.maxNumElems := by
    unfold sub64
    omega
  refine ⟨_, ?_, by rw [bounds, hs, hend]; rfl⟩
  simp only [htrims, lastRow]
  split_ifs
  · exact hsub
  · exact he

theorem bounds_not_found (hrows : RowsOrdered c.rows) (hrange : c.getTimeStampRange = some range)
    (h : ¬ f.Found c.rows) {b : ℕ × ℕ} :
    f.bounds range c.rows.length c.findCountAt ≠ .ok b := by
  intro hb
  rw [bounds, bind_eq_ok] at hb
  obtain ⟨s, hs, hb⟩ := hb
  rw [bind_eq_ok] at hb
  obtain ⟨e, he, -⟩ := hb
  exact h ⟨((startIdx_eq_ok hrows hrange).mp hs).1, ((endIdx_eq_ok hrows hrange).mp he).1⟩

variable {sel : CuSel} {d : CuMonData} {counts : List Bool}

theorem range_of_some (hd : d.countData = some c) :
    d.getCountDataTimeStampRange = c.getTimeStampRange ∧ d.findCountAt = c.findCountAt := by
  constructor
  · rw [CuMonData.getCountDataTimeStampRange, hd, Option.bind_some]
  · funext t
    rw [CuMonData.findCountAt, hd, Option.bind_some]

/-- The rows that are left are those from the one found for the start up to the one found
for the end, or up to a number. -/
theorem filterCounts_eq (hf : f.Sensible) (hrows : RowsOrdered c.rows)
    (hd : d.countData = some c) (hs : sel.selCounts = some counts)
    (hlen : counts.length = c.rows.length) (h : f.Found c.rows) :
    f.filterCounts sel d = .ok { sel with
      selCounts :=
        some (fillFrom (f.lastRow c.rows) (fillBefore (f.firstRow c.rows) counts)) } := by
  obtain ⟨hrange, hfind⟩ := range_of_some hd
  unfold filterCounts
  simp only [hd, hs, Option.isSome_some, ne_eq, not_true_eq_false, if_false, hrange, hfind]
  cases hr : c.getTimeStampRange with
  | none =>
    have hnil := CountData.getTimeStampRange_eq_none hr
    have hcounts : counts = [] := List.eq_nil_of_length_eq_zero (by rw [hlen, hnil]; rfl)
    rw [hcounts, fillBefore_nil, fillFrom_nil, ← hcounts, ← hs]
    rfl
  | some range =>
    have hne : c.rows ≠ [] := by
      obtain ⟨first, _, hfirst, -, -⟩ := CountData.getTimeStampRange_eq_some hr
      exact List.ne_nil_of_mem (List.mem_of_head? hfirst)
    obtain ⟨e, he, hb⟩ := bounds_eq_ok hf hrows hr h
    have hlast : f.lastRow c.rows ≤ c.rows.length := by
      have hup := upTo_le_length (f := f) hne
      unfold lastRow
      split_ifs with htrims
      · unfold Trims at htrims
        omega
      · exact hup
    have hlt := hrows.length_lt
    have hu : u64 (e + 1) = f.lastRow c.rows := by
      unfold u64
      omega
    have hfirst : f.firstRow c.rows ≤ c.rows.length := firstRow_le_length
    dsimp only
    rw [hlen, hb, bind_ok, hu, if_neg (by omega)]
    rfl

/-- A time that is looked up and not found is read all the same. -/
theorem filterCounts_ne_ok (hrows : RowsOrdered c.rows) (hd : d.countData = some c)
    (hs : sel.selCounts = some counts) (hlen : counts.length = c.rows.length)
    (h : ¬ f.Found c.rows) {r : CuSel} : f.filterCounts sel d ≠ .ok r := by
  obtain ⟨hrange, hfind⟩ := range_of_some hd
  unfold filterCounts
  simp only [hd, hs, Option.isSome_some, ne_eq, not_true_eq_false, if_false, hrange, hfind]
  cases hr : c.getTimeStampRange with
  | none =>
    have hnil := CountData.getTimeStampRange_eq_none hr
    exact (h ⟨.inr (.inl (by simp [hnil])), .inr (.inl (by simp [hnil]))⟩).elim
  | some range =>
    dsimp only
    rw [hlen, bind_eq_ok]
    rintro ⟨b, hb, -⟩
    exact bounds_not_found hrows hr h hb

/-! ## The rows that overlap -/

variable {r : CountRow} {i : ℕ}

theorem firstRow_le_iff (hrows : RowsOrdered rows) (hi : rows[i]? = some r) :
    f.firstRow rows ≤ i ↔ f.lower < r.tstampEnd := by
  have hpos := hrows.pos r (List.mem_of_getElem? hi)
  unfold firstRow lower
  split_ifs
  · exact iff_of_true (Nat.zero_le _) (by omega)
  · rw [← Nat.not_lt, hrows.lt_countP_ended hi, Nat.not_le]

/-- The rows that overlap come after the rows that end before the start, and begin before
the end. -/
theorem overlaps_iff (hrows : RowsOrdered rows) (hi : rows[i]? = some r) :
    f.overlaps r = true ↔
      f.lower < f.upper ∧ f.firstRow rows ≤ i ∧ r.tstamp < f.upper := by
  have hpos := hrows.pos r (List.mem_of_getElem? hi)
  rw [overlaps, decide_eq_true_iff, firstRow_le_iff hrows hi]
  omega

/-- A row that overlaps is not behind the one found for the end. -/
theorem lt_upTo_of_overlaps (hrows : RowsOrdered rows) (hi : rows[i]? = some r)
    (h : f.overlaps r = true) : i < f.upTo rows := by
  obtain ⟨-, -, hupper⟩ := (overlaps_iff hrows hi).mp h
  unfold upper at hupper
  unfold upTo
  split_ifs at hupper ⊢ with hend hbefore
  · exact (List.getElem?_eq_some_iff.mp hi).1
  · exact absurd (hbefore r (List.mem_of_getElem? hi)) (Nat.not_le_of_lt hupper)
  · exact (hrows.lt_countP_begun hi).mpr hupper.le

/-- From the one found for the start, all rows before the one found for the end overlap. -/
theorem overlaps_of_lt (hrows : RowsOrdered rows) (hi : rows[i]? = some r)
    (hfirst : f.firstRow rows ≤ i) (hup : i + 1 < f.upTo rows) : f.overlaps r = true := by
  have hlower := (firstRow_le_iff hrows hi).mp hfirst
  have hpos := hrows.pos r (List.mem_of_getElem? hi)
  have hstop := r.tstampEnd_lt
  have hupper : r.tstampEnd ≤ f.upper := by
    unfold upTo at hup
    unfold upper
    split_ifs at hup ⊢ with hend hbefore
    · exact hstop.le
    · omega
    · obtain ⟨r', hnext⟩ : ∃ r', rows[i + 1]? = some r' :=
        ⟨_, List.getElem?_eq_getElem (hup.trans_le List.countP_le_length)⟩
      have hbegun := (hrows.lt_countP_begun hnext).mp hup
      exact (hrows.le_of_lt hi hnext (Nat.lt_succ_self i)).trans hbegun
  exact (overlaps_iff hrows hi).mpr ⟨by omega, hfirst, by omega⟩

/-- As many rows overlap before one that is not behind the end as there are from the one
found for the start. -/
theorem countP_overlaps (hrows : RowsOrdered rows) (hi : i < rows.length)
    (hup : i < f.upTo rows) : (rows.take i).countP f.overlaps = i - f.firstRow rows := by
  refine countP_take_eq_sub hi.le fun j x hj hx => ⟨fun h => ?_, fun h => ?_⟩
  · exact ((overlaps_iff hrows hx).mp h).2.1
  · exact overlaps_of_lt hrows hx h (by omega)

/-! ## When they are the rows that are kept -/

/-- The last row found overlaps, or it was not selected; and where there are too many rows,
none was selected that is among the first ones found, but not of the data. -/
structure Aligned (f : ByTimeStamp) (counts : List Bool) (rows : List CountRow) : Prop
    extends f.Found rows where
  last : ¬ f.Trims rows → ∀ i r, rows[i]? = some r → counts[i]? = some true →
    f.firstRow rows ≤ i → i + 1 = f.upTo rows → f.overlaps r = true
  rest : f.Trims rows → ∀ i, counts[i]? = some true → f.firstRow rows ≤ i →
    f.maxNumElems ≤ i → f.firstRow rows + f.maxNumElems ≤ i

/-- Which rows are kept, and which ones overlap and are not too many. -/
theorem kept_iff (hf : f.Sensible) (hrows : RowsOrdered rows) (hi : rows[i]? = some r) :
    (f.firstRow rows ≤ i ∧ i < f.lastRow rows ↔
      f.overlaps r = true ∧ (rows.take i).countP f.overlaps < f.maxNumElems) ↔
    (¬ f.Trims rows → f.firstRow rows ≤ i → i + 1 = f.upTo rows → f.overlaps r = true) ∧
      (f.Trims rows → f.firstRow rows ≤ i → f.maxNumElems ≤ i →
        f.firstRow rows + f.maxNumElems ≤ i) := by
  have hpos := hf.pos
  have hlast : f.Trims rows ∧ f.lastRow rows = f.maxNumElems ∨
      ¬ f.Trims rows ∧ f.lastRow rows = f.upTo rows := by
    unfold lastRow
    split_ifs with htrims
    · exact .inl ⟨htrims, rfl⟩
    · exact .inr ⟨htrims, rfl⟩
  unfold Trims at hlast ⊢
  by_cases hfirst : f.firstRow rows ≤ i
  · have hup := lt_upTo_of_overlaps (f := f) hrows hi
    have hover := overlaps_of_lt hrows hi hfirst
    have hcount := countP_overlaps (f := f) hrows (List.getElem?_eq_some_iff.mp hi).1
    cases ho : f.overlaps r with
    | true =>
      have hlt := hup ho
      rw [hcount hlt]
      rcases hlast with ⟨ht, hl⟩ | ⟨ht, hl⟩
      · simp only [hl, ht, hfirst, true_and, not_true_eq_false, false_imp_iff, true_imp_iff]
        omega
      · simp only [hl, ht, hfirst, true_and, implies_true, false_imp_iff, and_true, iff_true]
        omega
    | false =>
      have hedge : f.upTo rows ≤ i + 1 := by
        by_contra hlt
        simp [hover (Nat.lt_of_not_le hlt)] at ho
      simp only [Bool.false_eq_true, false_and, iff_false, hfirst, true_and, true_imp_iff]
      rcases hlast with ⟨ht, hl⟩ | ⟨ht, hl⟩
      · simp only [hl, ht, not_true_eq_false, false_imp_iff, true_imp_iff, true_and]
        omega
      · simp only [hl, ht, not_false_eq_true, false_imp_iff, true_imp_iff, and_true, imp_false]
        omega
  · have ho : f.overlaps r ≠ true := fun ho => hfirst ((overlaps_iff hrows hi).mp ho).2.1
    simp [ho, hfirst]

/-- A filter keeps exactly the rows that overlap if its times are in rows or beyond all of
them, the last row found overlaps and the number of rows is not counted from the wrong
one. -/
theorem filtersRight_iff (hf : f.Sensible) (hrows : RowsOrdered c.rows)
    (hd : d.countData = some c) (hs : sel.selCounts = some counts)
    (hlen : counts.length = c.rows.length) :
    f.FiltersRight sel d ↔ f.Aligned counts c.rows := by
  have hfilter := filterCounts_eq hf hrows hd hs hlen
  have hflags : ∀ i r, c.rows[i]? = some r →
      (((fillFrom (f.lastRow c.rows) (fillBefore (f.firstRow c.rows) counts))[i]? = some true ↔
        counts[i]? = some true ∧ f.overlaps r = true ∧
          (c.rows.take i).countP f.overlaps < f.maxNumElems) ↔
      (counts[i]? = some true → (f.firstRow c.rows ≤ i ∧ i < f.lastRow c.rows ↔
        f.overlaps r = true ∧ (c.rows.take i).countP f.overlaps < f.maxNumElems))) := by
    intro i r _
    rw [getElem?_fillFrom, getElem?_fillBefore]
    tauto
  constructor
  · rintro ⟨counts', rows, flags, hs', hd', hok, -, hkept⟩
    rw [hs] at hs'
    rw [hd] at hd'
    cases hs'
    cases hd'
    have hfound : f.Found c.rows := by
      by_contra h
      exact filterCounts_ne_ok hrows hd hs hlen h hok
    rw [hfilter hfound] at hok
    cases hok
    have heach := fun i r hi hsel =>
      (kept_iff hf hrows hi).mp ((hflags i r hi).mp (hkept i r hi) hsel)
    refine ⟨hfound, fun ht i r hi hsel hfirst hlast => (heach i r hi hsel).1 ht hfirst hlast,
      fun ht i hsel hfirst hmax => ?_⟩
    obtain ⟨r, hi⟩ : ∃ r, c.rows[i]? = some r :=
      ⟨_, List.getElem?_eq_getElem (hlen ▸ (List.getElem?_eq_some_iff.mp hsel).1)⟩
    exact (heach i r hi hsel).2 ht hfirst hmax
  · intro h
    have hmask := ((below_fillFrom (f.lastRow c.rows) _).trans
      (below_fillBefore (f.firstRow c.rows) counts)).length_eq
    refine ⟨counts, c.rows, _, hs, by rw [hd]; rfl, hfilter h.toFound, hmask, fun i r hi => ?_⟩
    refine (hflags i r hi).mpr fun hsel => (kept_iff hf hrows hi).mpr ⟨?_, ?_⟩
    · exact fun ht hfirst hlast => h.last ht i r hi hsel hfirst hlast
    · exact fun ht hfirst hmax => h.rest ht i hsel hfirst hmax

/-- Three rows, with a gap before the second one. -/
def threeRows : CountData :=
  ⟨["cycles"], [⟨10, 10, [7]⟩, ⟨30, 10, [8]⟩, ⟨40, 10, [9]⟩], by decide⟩

def threeRowsMd : CuMonData := ⟨some threeRows, none⟩

/-- All three rows are selected. -/
def threeRowsSel : CuSel := ⟨some [true, true, true], none⟩

theorem filtersRight_threeRows :
    FiltersRight ⟨10, 35, 5, true, true⟩ threeRowsSel threeRowsMd :=
  (filtersRight_iff ⟨by decide, by decide, by decide⟩
    (show RowsOrdered threeRows.rows by decide) rfl
    (show threeRowsSel.selCounts = some [true, true, true] from rfl) rfl).mpr
    { start := .inr (.inr ⟨⟨10, 10, [7]⟩, by decide, by decide⟩)
      «end» := .inr (.inr ⟨⟨30, 10, [8]⟩, by decide, by decide⟩)
      last := fun _ i r hi _ _ hlast => by
        have hup : upTo ⟨10, 35, 5, true, true⟩ threeRows.rows = 2 := by decide
        obtain rfl : i = 1 := by omega
        cases hi
        decide
      rest := fun ht => absurd ht (by decide) }

/-- An end in the gap is read from an empty optional; the row that begins at the end is
kept; and of one row to keep from the second one on there is none. -/
theorem not_filtersRight_threeRows :
    filterCounts ⟨10, 25, 5, true, true⟩ threeRowsSel threeRowsMd = .error .undefined ∧
      ¬ FiltersRight ⟨10, 25, 5, true, true⟩ threeRowsSel threeRowsMd ∧
      ¬ FiltersRight ⟨10, 40, 5, true, true⟩ threeRowsSel threeRowsMd ∧
      ¬ FiltersRight ⟨30, 45, 1, true, true⟩ threeRowsSel threeRowsMd := by
  have hgap : filterCounts ⟨10, 25, 5, true, true⟩ threeRowsSel threeRowsMd =
      .error .undefined := by decide +kernel
  have hedge : filterCounts ⟨10, 40, 5, true, true⟩ threeRowsSel threeRowsMd =
      .ok ⟨some [true, true, true], none⟩ := by decide +kernel
  have htrim : filterCounts ⟨30, 45, 1, true, true⟩ threeRowsSel threeRowsMd =
      .ok ⟨some [false, false, false], none⟩ := by decide +kernel
  refine ⟨hgap, ?_, ?_, ?_⟩
  · rintro ⟨_, _, _, -, -, hok, -⟩
    rw [hgap] at hok
    cases hok
  · rintro ⟨_, _, _, hs, hd, hok, -, hkept⟩
    rw [hedge] at hok
    cases hs
    cases hd
    cases hok
    exact absurd ((hkept 2 ⟨40, 10, [9]⟩ rfl).mp rfl).2.1 (by decide)
  · rintro ⟨_, _, _, hs, hd, hok, -, hkept⟩
    rw [htrim] at hok
    cases hs
    cases hd
    cases hok
    exact nomatch (hkept 1 ⟨30, 10, [8]⟩ rfl).mpr ⟨rfl, by decide, by decide⟩

end ByTimeStamp

end Mon
end IntegratedCLI
