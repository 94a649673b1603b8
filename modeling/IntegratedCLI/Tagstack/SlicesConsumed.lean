import Mathlib.Data.List.Forall2
import Mathlib.Data.List.TakeWhile
import IntegratedCLI.Lib.Fallible
import IntegratedCLI.Lib.Run
import IntegratedCLI.Ringbuffer.ByteLog
import IntegratedCLI.Tagstack.IntervalSlicer

/-!
# No slice is lost, and none is consumed twice

A slice leaves the ring buffer of an `IntervalSlicer` only when every registered
consumer has consumed it, the mark of a consumer is the number of the slice that its
next read starts with, and nothing is handed to a consumer that it has consumed.

Two things limit this.  A slice that goes beyond the end of an interval is cut there and
not consumed, so the next interval has the rest of it.  And a drop by the writer moves
the tail past slices that `discardConsumed` and the marks go on counting, so the runs
that are considered have none.

## The argument

`Request.intersect_spec` says in closed form what the two loops of a read select.
`Holds` relates the tail, the counter and the marks to the slices that were written:
the counter is the number of slices that are gone.
-/

namespace IntegratedCLI
namespace Tagstack

open Effect Ringbuffer

/-! ## What a read selects -/

namespace Request

variable (q : Request)

/-- The slice ends before the interval. -/
def Before (s : Slice) : Bool := s.endStamp < q.tstamp

/-- The slice belongs to the interval. -/
def Within (s : Slice) : Bool :=
  s.tstamp < q.tstampEnd && (q.trim || decide (s.endStamp ≤ q.tstampEnd))

/-- The slices that are passed over. -/
def skipped (unread : List Slice) : List Slice := unread.takeWhile q.Before

/-- The slices that are handed out. -/
def body (unread : List Slice) : List Slice :=
  (unread.dropWhile q.Before).takeWhile q.Within

/-- The last slice that is handed out goes beyond the end of the interval. -/
def Crosses (unread : List Slice) : Prop :=
  ∃ s, (q.body unread).getLast? = some s ∧ q.tstampEnd < s.endStamp

instance (unread : List Slice) : Decidable (q.Crosses unread) :=
  match h : (q.body unread).getLast? with
  | none => isFalse fun ⟨_, hs, _⟩ => by simp [h] at hs
  | some s => decidable_of_iff (q.tstampEnd < s.endStamp) <| by simp [Crosses, h]

/-- The number of slices that are consumed. -/
def numConsumed (unread : List Slice) : ℕ :=
  (q.skipped unread).length + (q.body unread).length - if q.Crosses unread then 1 else 0

/-- The slices that are handed out follow those that are passed over. -/
theorem body_getElem? (q : Request) {unread : List Slice} {j : ℕ}
    (hj : j < (q.body unread).length) :
    unread[(q.skipped unread).length + j]? = (q.body unread)[j]? := by
  have hsplit : unread = q.skipped unread ++ (q.body unread ++
      (unread.dropWhile q.Before).dropWhile q.Within) := by
    rw [body, List.takeWhile_append_dropWhile, skipped, List.takeWhile_append_dropWhile]
  have hget : (q.skipped unread ++ (q.body unread ++ (unread.dropWhile q.Before).dropWhile
      q.Within))[(q.skipped unread).length + j]? = (q.body unread)[j]? := by
    rw [List.getElem?_append_right (Nat.le_add_right _ _), Nat.add_sub_cancel_left,
      List.getElem?_append_left hj]
  rwa [← hsplit] at hget

/-- A slice that may have been cut at either end. -/
structure Cut (s' s : Slice) : Prop where
  stackId : s'.stackId = s.stackId
  tstamp : s.tstamp ≤ s'.tstamp

variable {q} {unread rest ss : List Slice} {n : ℕ}

theorem numConsumed_le (q : Request) (unread : List Slice) :
    q.numConsumed unread ≤ unread.length := by
  have hbody : (q.body unread).length ≤ (unread.dropWhile q.Before).length :=
    (List.takeWhile_prefix _).length_le
  have hsplit : (q.skipped unread).length + (unread.dropWhile q.Before).length = unread.length := by
    rw [skipped, ← List.length_append, List.takeWhile_append_dropWhile]
  rw [numConsumed]
  omega

theorem Cut.refl (s : Slice) : Cut s s := ⟨rfl, Nat.le_refl _⟩

theorem Cut.trans {s₁ s₂ s₃ : Slice} (h : Cut s₁ s₂) (h' : Cut s₂ s₃) : Cut s₁ s₃ :=
  ⟨h.stackId.trans h'.stackId, h'.tstamp.trans h.tstamp⟩

theorem skip_spec {k : ℕ} (h : q.skip unread k = .ok (rest, n)) :
    rest = unread.dropWhile q.Before ∧ n = k + (q.skipped unread).length := by
  induction unread generalizing k with
  | nil =>
    obtain ⟨rfl, rfl⟩ := Prod.mk.inj (Except.ok.inj h)
    exact ⟨rfl, rfl⟩
  | cons s ss ih =>
    unfold skip at h
    by_cases hb : s.endStamp < q.tstamp
    · rw [if_pos hb] at h
      by_cases hd : s.duration = 0
      · rw [if_pos hd] at h
        cases h
      · rw [if_neg hd] at h
        obtain ⟨hrest, hn⟩ := ih h
        have hs : q.Before s = true := decide_eq_true hb
        rw [skipped, List.takeWhile_cons_of_pos hs, List.dropWhile_cons_of_pos hs]
        refine ⟨hrest, hn.trans ?_⟩
        rw [List.length_cons, skipped]
        omega
    · rw [if_neg hb] at h
      obtain ⟨rfl, rfl⟩ := Prod.mk.inj (Except.ok.inj h)
      have hs : ¬ q.Before s = true := fun hs => hb (of_decide_eq_true hs)
      rw [skipped, List.takeWhile_cons_of_neg hs, List.dropWhile_cons_of_neg hs]
      exact ⟨rfl, rfl⟩

theorem addSlices_spec {p p' : Partition} (h : q.addSlices rest p = some p') :
    p'.slices = p.slices ++ rest.takeWhile q.Within ∧
      p'.numConsumed = p.numConsumed + (rest.takeWhile q.Within).length := by
  induction rest generalizing p with
  | nil =>
    cases h
    exact ⟨(List.append_nil _).symm, rfl⟩
  | cons s ss ih =>
    unfold addSlices at h
    by_cases hstart : s.tstamp < q.tstampEnd
    · rw [if_pos hstart] at h
      split_ifs at h with hgap hend
      · -- the slice goes beyond the end and there is no trimming
        cases h
        have hw : ¬ q.Within s = true := by
          simp only [Bool.and_eq_true, Bool.not_eq_true', decide_eq_true_eq] at hend
          simp only [Within, hend.1, Bool.and_eq_true, decide_eq_true_eq, Bool.false_or, not_and,
            not_le]
          exact fun _ => hend.2
        rw [List.takeWhile_cons_of_neg hw]
        exact ⟨(List.append_nil _).symm, rfl⟩
      · have hw : q.Within s = true := by
          simp only [Bool.and_eq_true, Bool.not_eq_true', decide_eq_true_eq, not_and,
            not_lt] at hend
          simp only [Within, Bool.and_eq_true, decide_eq_true_eq, Bool.or_eq_true]
          refine ⟨hstart, ?_⟩
          cases ht : q.trim with
          | true => exact .inl rfl
          | false => exact .inr (hend ht)
        obtain ⟨hslices, hnum⟩ := ih h
        rw [List.takeWhile_cons_of_pos hw]
        refine ⟨hslices.trans (List.append_assoc _ _ _), hnum.trans ?_⟩
        rw [List.length_cons, Nat.add_right_comm, Nat.add_assoc]
    · rw [if_neg hstart] at h
      cases h
      have hw : ¬ q.Within s = true := by
        simp only [Within, Bool.and_eq_true, decide_eq_true_eq, not_and]
        exact fun hs => absurd hs hstart
      rw [List.takeWhile_cons_of_neg hw]
      exact ⟨(List.append_nil _).symm, rfl⟩

theorem forall₂_cut_refl (ss : List Slice) : List.Forall₂ Cut ss ss := by
  induction ss with
  | nil => exact .nil
  | cons s ss ih => exact .cons (.refl s) ih

theorem trimFirst_cut (ss : List Slice) (d : ℕ) : List.Forall₂ Cut (q.trimFirst ss d).1 ss := by
  cases ss with
  | nil => exact .nil
  | cons f ss =>
    rw [trimFirst]
    split_ifs with hf
    · exact .cons ⟨rfl, hf.le⟩ (forall₂_cut_refl ss)
    · exact forall₂_cut_refl _

theorem trimLast_cut (delta : ℕ) (ss : List Slice) : List.Forall₂ Cut (trimLast delta ss) ss := by
  induction ss with
  | nil => exact .nil
  | cons s ss ih =>
    cases ss with
    | nil => exact .cons ⟨rfl, Nat.le_refl _⟩ .nil
    | cons s' ss => exact .cons (.refl s) ih

theorem trimSlices_cut (p : Partition) (lastSliceEnd : ℕ) :
    List.Forall₂ Cut (q.trimSlices p lastSliceEnd).1 p.slices := by
  have htrans : ∀ {ss₁ ss₂ ss₃ : List Slice}, List.Forall₂ Cut ss₁ ss₂ →
      List.Forall₂ Cut ss₂ ss₃ → List.Forall₂ Cut ss₁ ss₃ := by
    intro ss₁ ss₂ ss₃ h
    induction h generalizing ss₃ with
    | nil => exact id
    | cons hs _ ih =>
      intro h'
      cases h' with
      | cons hs' h' => exact .cons (hs.trans hs') (ih h')
  rw [trimSlices]
  split_ifs
  · exact htrans (trimLast_cut _ _) (trimFirst_cut _ _)
  · exact trimFirst_cut _ _
  · exact forall₂_cut_refl _

theorem finish_cases {p : Partition} {lastSliceEnd : ℕ} {r : Option (List Slice) × ℕ}
    (h : q.finish p lastSliceEnd = .ok r) :
    r = (none, 0) ∨ r = (some (q.trimSlices p lastSliceEnd).1,
      p.numConsumed - if q.tstampEnd < lastSliceEnd then 1 else 0) := by
  rw [finish] at h
  by_cases hmiss : (q.abortOnMissingSlices && decide (lastSliceEnd < q.tstampEnd)) = true
  · rw [if_pos hmiss] at h
    exact .inl (Except.ok.inj h).symm
  · rw [if_neg hmiss] at h
    dsimp only at h
    by_cases hlong : q.duration < (q.trimSlices p lastSliceEnd).2
    · rw [if_pos hlong] at h
      cases h
    · rw [if_neg hlong] at h
      split at h
      · cases h
      · refine .inr ((Except.ok.inj h).symm.trans (congrArg _ ?_))
        split_ifs <;> rfl

/-- A read that returns hands out nothing, or comes to its end with what the loops have
selected. -/
theorem intersect_cases {r : Option (List Slice) × ℕ} (h : q.intersect unread = .ok r) :
    r = (none, 0) ∨ ∃ p s, p.slices = q.body unread ∧
      p.numConsumed = (q.skipped unread).length + (q.body unread).length ∧
      (q.body unread).getLast? = some s ∧ q.finish p s.endStamp = .ok r := by
  obtain ⟨⟨rest, k⟩, hskip, h⟩ := Fallible.bind_eq_ok.mp h
  obtain ⟨rfl, rfl⟩ := skip_spec hskip
  dsimp only at h
  cases hrest : unread.dropWhile q.Before with
  | nil =>
    rw [hrest] at h
    exact .inl (Except.ok.inj h).symm
  | cons s ss =>
    rw [hrest] at h
    dsimp only at h
    split_ifs at h with hmiss
    · exact .inl (Except.ok.inj h).symm
    · cases hp : q.addSlices (s :: ss) ⟨0, s.tstamp, [], 0 + (q.skipped unread).length⟩ with
      | none =>
        rw [hp] at h
        exact .inl (Except.ok.inj h).symm
      | some p =>
        rw [hp] at h
        obtain ⟨hslices, hnum⟩ := addSlices_spec hp
        rw [← hrest] at hslices hnum
        have hslices : p.slices = q.body unread := hslices.trans (List.nil_append _)
        dsimp only at h
        cases hlast : p.slices.getLast? with
        | none =>
          rw [hlast] at h
          exact .inl (Except.ok.inj h).symm
        | some last =>
          rw [hlast] at h
          refine .inr ⟨p, last, hslices, ?_, hslices ▸ hlast, h⟩
          rw [hnum, Nat.zero_add, body]

/-- What a read selects, and how much of it is consumed. -/
theorem intersect_spec (h : q.intersect unread = .ok (some ss, n)) :
    List.Forall₂ Cut ss (q.body unread) ∧ n = q.numConsumed unread ∧ q.body unread ≠ [] := by
  rcases intersect_cases h with h | ⟨p, s, hslices, hnum, hlast, h⟩
  · cases (Prod.mk.inj h).1
  · rcases finish_cases h with h | h
    · cases (Prod.mk.inj h).1
    · obtain ⟨hss, hn⟩ := Prod.mk.inj h
      rw [Option.some.inj hss]
      refine ⟨hslices ▸ trimSlices_cut p _, ?_, fun hnil => by simp [hnil] at hlast⟩
      rw [hn, hnum, numConsumed]
      by_cases hcross : q.tstampEnd < s.endStamp
      · rw [if_pos hcross, if_pos ⟨s, hlast, hcross⟩]
      · rw [if_neg hcross, if_neg]
        rintro ⟨s', hs', hcross'⟩
        rw [Option.some.inj (hlast.symm.trans hs')] at hcross
        exact hcross hcross'

/-- A read that hands out nothing consumes nothing. -/
theorem intersect_none (h : q.intersect unread = .ok (none, n)) : n = 0 := by
  rcases intersect_cases h with h | ⟨p, s, -, -, -, h⟩
  · exact (Prod.mk.inj h).2
  · rcases finish_cases h with h | h
    · exact (Prod.mk.inj h).2
    · cases (Prod.mk.inj h).1

end Request

/-! ## The slicer -/

namespace IntervalSlicer

variable {m : IntervalSlicer} {sent : List Slice}

/-- The slicer after all drops have been of slices that every consumer has consumed. -/
structure Holds (m : IntervalSlicer) (sent : List Slice) : Prop where
  slices : m.slices = sent.drop m.numProcessedSlices
  tail : m.tail = m.numProcessedSlices * kSliceByteSize
  processed_le : m.numProcessedSlices ≤ sent.length
  fits : sent.length * kSliceByteSize < 2 ^ 64
  ahead : ∀ e ∈ m.consumerMarks, m.numProcessedSlices ≤ e.2
  behind : ∀ e ∈ m.consumerMarks, e.2 ≤ sent.length
  keys : (m.consumerMarks.map Prod.fst).Nodup

theorem Holds.usedSize (h : Holds m sent) :
    m.usedSize = (sent.length - m.numProcessedSlices) * kSliceByteSize := by
  rw [IntervalSlicer.usedSize, h.slices, List.length_drop]

theorem Holds.head (h : Holds m sent) : m.head = sent.length * kSliceByteSize := by
  have hle := h.processed_le
  have hfits := h.fits
  rw [IntervalSlicer.head, h.usedSize, h.tail, ← Nat.add_mul, Nat.add_sub_cancel' hle,
    u64_of_lt hfits]

/-- A read goes on where the mark is. -/
theorem Holds.seek (h : Holds m sent) {p : ℕ} (hge : m.numProcessedSlices ≤ p)
    (hle : p ≤ sent.length) : m.seek p = p - m.numProcessedSlices := by
  have hfits := h.fits
  have hpos : u64 (p * kSliceByteSize) = p * kSliceByteSize :=
    u64_of_lt (lt_of_le_of_lt (Nat.mul_le_mul_right _ hle) hfits)
  rw [IntervalSlicer.seek, h.head, h.tail, hpos]
  unfold kSliceByteSize at *
  unfold clamp sub64
  rw [if_neg (by omega), if_neg (by omega)]
  omega

theorem Holds.drop_seek (h : Holds m sent) {p : ℕ} (hge : m.numProcessedSlices ≤ p)
    (hle : p ≤ sent.length) : m.slices.drop (m.seek p) = sent.drop p := by
  rw [h.seek hge hle, h.slices, List.drop_drop, Nat.add_sub_cancel' hge]

/-- Nothing but the flag of the transaction is changed. -/
def SameBut (m m' : IntervalSlicer) : Prop := ∃ f, m' = { m with inReadTx := f }

theorem Holds.sameBut (h : Holds m sent) {m' : IntervalSlicer} (hm : SameBut m m') :
    Holds m' sent := by
  obtain ⟨f, rfl⟩ := hm
  exact ⟨h.slices, h.tail, h.processed_le, h.fits, h.ahead, h.behind, h.keys⟩

theorem startTx_outcome (weak : Bool) (failure : Errno → SlicingFailure) :
    Outcome (startTx weak failure) (fun _ m' => m' = { m with inReadTx := true })
      (fun _ m' => m' = m) m := by
  rw [startTx]
  simp only [outcome_bind, outcome_get]
  split_ifs
  · exact rfl
  · exact rfl
  · exact rfl

/-! ### Discarding -/

/-- Slices are discarded up to the smallest mark, or nothing changes. -/
theorem discardConsumed_outcome (h : Holds m sent) (weak : Bool) :
    Outcome (discardConsumed weak)
      (fun _ m' => Holds m' sent ∧ m'.consumerMarks = m.consumerMarks ∧
        (m'.numProcessedSlices = m.numProcessedSlices ∨ m.consumerMarks ≠ []))
      (fun _ m' => m' = m) m := by
  rw [discardConsumed]
  simp only [outcome_bind, outcome_get]
  cases hmin : (m.consumerMarks.map Prod.snd).min? with
  | none => exact ⟨h, rfl, .inl rfl⟩
  | some n =>
    obtain ⟨hmem, hle⟩ := List.min?_eq_some_iff.mp hmin
    obtain ⟨e, he, rfl⟩ := List.mem_map.mp hmem
    have hge := h.ahead e he
    have hsent := h.behind e he
    dsimp only
    simp only [outcome_bind, outcome_get]
    refine (startTx_outcome weak _).mono ?_ fun _ _ h => h
    rintro - m' rfl
    simp only [outcome_set]
    have hdrop : min m.usedSize (u64 (sub64 e.2 m.numProcessedSlices * kSliceByteSize)) /
        kSliceByteSize = e.2 - m.numProcessedSlices := by
      have hfits := h.fits
      rw [h.usedSize]
      unfold kSliceByteSize at *
      unfold u64 sub64
      omega
    have hsum : m.numProcessedSlices + (e.2 - m.numProcessedSlices) = e.2 :=
      Nat.add_sub_cancel' hge
    refine ⟨⟨?_, ?_, hsent, h.fits, ?_, h.behind, h.keys⟩, rfl,
      .inr (List.ne_nil_of_mem he)⟩
    · show m.slices.drop (min m.usedSize _ / kSliceByteSize) = sent.drop e.2
      rw [hdrop, h.slices, List.drop_drop, hsum]
    · show u64 (m.tail + min m.usedSize _ / kSliceByteSize * kSliceByteSize) = _
      rw [hdrop, h.tail, ← Nat.add_mul, hsum]
      exact u64_of_lt (lt_of_le_of_lt (Nat.mul_le_mul_right _ hsent) h.fits)
    · exact fun e' he' => hle _ (List.mem_map_of_mem he')

/-! ### Reading -/

/-- A read changes nothing but the flag, and returns what it selects of the slices from
the offset on. -/
theorem makeIntervalIntersectingSlices_outcome (weak : Bool) (offset : ℕ) (q : Request) :
    Outcome (makeIntervalIntersectingSlices weak offset q)
      (fun r m' => SameBut m m' ∧ q.intersect (m.slices.drop (m.seek offset)) = .ok r)
      (fun _ m' => SameBut m m') m := by
  have hself : SameBut m m := ⟨m.inReadTx, rfl⟩
  rw [makeIntervalIntersectingSlices]
  split_ifs
  · exact hself
  · simp only [outcome_bind, outcome_get]
    refine (startTx_outcome weak _).mono ?_ fun _ _ h => h ▸ hself
    rintro - m' rfl
    have hread : q.intersect ({ m with inReadTx := true }.slices.drop
        ({ m with inReadTx := true }.seek offset)) =
          q.intersect (m.slices.drop (m.seek offset)) := rfl
    rw [hread]
    cases hr : q.intersect (m.slices.drop (m.seek offset)) with
    | error failure => exact ⟨true, rfl⟩
    | ok r => exact ⟨⟨false, rfl⟩, rfl⟩

/-- The number of slices that a read consumes. -/
def consumedBy (q : Request) (unread : List Slice) (r : Option (List Slice) × ℕ) : ℕ :=
  if r.1.isSome then q.numConsumed unread else 0

theorem consumedBy_le (q : Request) (unread : List Slice) (r : Option (List Slice) × ℕ) :
    consumedBy q unread r ≤ unread.length := by
  rw [consumedBy]
  split_ifs
  · exact q.numConsumed_le unread
  · exact Nat.zero_le _

theorem consumedBy_eq {q : Request} {unread : List Slice} {r : Option (List Slice) × ℕ}
    (h : q.intersect unread = .ok r) : r.2 = consumedBy q unread r := by
  obtain ⟨_ | ss, n⟩ := r
  · exact Request.intersect_none h
  · exact (Request.intersect_spec h).2.1

/-- A consumer moves on. -/
theorem Holds.put_mark (h : Holds m sent) (key : String) {p : ℕ}
    (hge : m.numProcessedSlices ≤ p) (hle : p ≤ sent.length) :
    Holds { m with consumerMarks := Dict.put m.consumerMarks key p } sent where
  slices := h.slices
  tail := h.tail
  processed_le := h.processed_le
  fits := h.fits
  ahead := by
    intro e he
    rcases Dict.mem_put he with rfl | he
    · exact hge
    · exact h.ahead e he
  behind := by
    intro e he
    rcases Dict.mem_put he with rfl | he
    · exact hle
    · exact h.behind e he
  keys := Dict.nodup_put h.keys

/-- The read of a call.  If it returns, the mark moves on by what was consumed, also if
nothing can be discarded after that. -/
theorem consumeSlices_outcome (h : Holds m sent) (weakRead weakDrop : Bool) {key : String} {p : ℕ}
    (hp : Dict.get? m.consumerMarks key = some p) (q : Request)
    {r : Option (List Slice) × ℕ}
    (hr : result (makeIntervalIntersectingSlices weakRead p q) m = .ok r) :
    q.intersect (sent.drop p) = .ok r ∧
    Outcome (consumeSlices weakRead weakDrop key q)
      (fun ss m' => Holds m' sent ∧ ss = r.1.getD [] ∧
        m'.consumerMarks = Dict.put m.consumerMarks key (p + consumedBy q (sent.drop p) r))
      (fun _ m' => Holds m' sent ∧
        m'.consumerMarks = Dict.put m.consumerMarks key (p + consumedBy q (sent.drop p) r))
      m := by
  have hmem := Dict.mem_of_lookup hp
  have hge := h.ahead _ hmem
  have hle := h.behind _ hmem
  have hread := makeIntervalIntersectingSlices_outcome (m := m) weakRead p q
  rw [h.drop_seek hge hle] at hread
  have hread := hread.of_result_ok hr
  have hintersect : q.intersect (sent.drop p) = .ok r := by
    unfold Outcome at hread
    cases hm : makeIntervalIntersectingSlices weakRead p q m with
    | ok r' m' =>
      rw [hm] at hread
      exact hread.1 ▸ hread.2.2
    | error e m' =>
      rw [hm] at hread
      exact hread.elim
  refine ⟨hintersect, ?_⟩
  rw [consumeSlices]
  simp only [outcome_bind, outcome_get]
  rw [hp]
  dsimp only
  rw [outcome_bind]
  refine hread.mono ?_ fun _ _ h => h.elim
  rintro r' m₁ ⟨hr', hsame, -⟩
  rw [hr']
  have hend : p + consumedBy q (sent.drop p) r ≤ sent.length := by
    have hdrop := consumedBy_le q (sent.drop p) r
    rw [List.length_drop] at hdrop
    have hle : p ≤ sent.length := hle
    omega
  have hmark : u64 (p + r.2) = p + consumedBy q (sent.drop p) r := by
    rw [consumedBy_eq hintersect]
    refine u64_of_lt (lt_of_le_of_lt hend (lt_of_le_of_lt ?_ h.fits))
    exact Nat.le_mul_of_pos_right _ (by decide)
  obtain ⟨f, rfl⟩ := hsame
  have hmoved := (h.sameBut ⟨f, rfl⟩).put_mark key (hge.trans (Nat.le_add_right _ _)) hend
  simp only [outcome_bind, outcome_modify, hmark]
  refine (discardConsumed_outcome hmoved weakDrop).mono ?_ ?_
  · rintro - m' ⟨h', hmarks, -⟩
    exact ⟨h', rfl, hmarks⟩
  · rintro - m' rfl
    exact ⟨hmoved, rfl⟩

/-- If the read raises an exception, so does the call, and the mark stays. -/
theorem consumeSlices_outcome_error (weakRead weakDrop : Bool) {key : String} {p : ℕ}
    (hp : Dict.get? m.consumerMarks key = some p) (q : Request) {failure : SlicingFailure}
    (hr : result (makeIntervalIntersectingSlices weakRead p q) m = .error failure) :
    Outcome (consumeSlices weakRead weakDrop key q) (fun _ _ => False)
      (fun _ m' => SameBut m m') m := by
  rw [consumeSlices]
  simp only [outcome_bind, outcome_get]
  rw [hp]
  dsimp only
  rw [outcome_bind]
  refine ((makeIntervalIntersectingSlices_outcome weakRead p q).of_result_error hr).mono ?_ ?_
  · exact fun _ _ h => h.elim
  · exact fun _ _ h => h.2

/-! ### Writing -/

/-- There is room for a slice, or nothing is dropped when there is none. -/
def DropsNothing (m : IntervalSlicer) : Prop :=
  m.kBytesDropIfFull = 0 ∨ kSliceByteSize ≤ m.kDataPoolByteSize - m.usedSize

instance (m : IntervalSlicer) : Decidable m.DropsNothing := by
  rw [DropsNothing]
  infer_instance

theorem tryWrite_outcome (hd : m.DropsNothing) (a : Attempt) (s : Slice) :
    Outcome (tryWrite a s)
      (fun r m' => (∃ e, r = .error e ∧ m' = m) ∨
        ∃ n, r = .ok n ∧ m' = { m with slices := m.slices ++ [s] })
      (fun _ _ => False) m := by
  rw [tryWrite, producerWrite]
  simp only [outcome_bind, outcome_get]
  by_cases hw : a.weakWrite = true
  · rw [if_pos hw, outcome_pure, if_neg fun h => by cases h.1]
    exact .inl ⟨_, rfl, rfl⟩
  · rw [if_neg hw]
    by_cases hroom : m.kDataPoolByteSize - m.usedSize < kSliceByteSize
    · rw [if_pos hroom, outcome_pure, if_neg]
      · exact .inl ⟨_, rfl, rfl⟩
      · rintro ⟨-, hdrop⟩
        rcases hd with hd | hd <;> omega
    · rw [if_neg hroom]
      simp only [outcome_bind, outcome_set, outcome_pure]
      rw [if_neg fun h => by cases h.1]
      exact .inr ⟨_, rfl, rfl⟩

/-- A slice is written, or nothing changes. -/
theorem write_outcome (hd : m.DropsNothing) (a b : Attempt) (s : Slice) :
    Outcome (write a b s)
      (fun r m' => (∃ e, r = .error e ∧ m' = m) ∨
        ∃ n, r = .ok n ∧ m' = { m with slices := m.slices ++ [s] })
      (fun _ m' => m' = m) m := by
  rw [write]
  split_ifs
  · exact rfl
  · rw [outcome_bind]
    refine (tryWrite_outcome hd a s).mono ?_ fun _ _ h => h.elim
    rintro r m' (⟨e, rfl, rfl⟩ | ⟨n, rfl, rfl⟩)
    · exact (tryWrite_outcome hd b s).mono (fun _ _ h => h) fun _ _ h => h.elim
    · exact .inr ⟨n, rfl, rfl⟩

/-- A slice is added. -/
theorem Holds.write (h : Holds m sent) (s : Slice)
    (hfits : m.tail + m.usedSize + kSliceByteSize < 2 ^ 64) :
    Holds { m with slices := m.slices ++ [s] } (sent ++ [s]) where
  slices := by
    show m.slices ++ [s] = (sent ++ [s]).drop m.numProcessedSlices
    rw [List.drop_append_of_le_length h.processed_le, h.slices]
  tail := h.tail
  processed_le := by
    rw [List.length_append]
    exact h.processed_le.trans (Nat.le_add_right _ _)
  fits := by
    have hle := h.processed_le
    rw [h.usedSize, h.tail, ← Nat.add_mul, Nat.add_sub_cancel' hle] at hfits
    rw [List.length_append, List.length_singleton, Nat.add_mul, Nat.one_mul]
    exact hfits
  ahead := h.ahead
  behind := by
    intro e he
    rw [List.length_append]
    exact (h.behind e he).trans (Nat.le_add_right _ _)
  keys := h.keys


end IntervalSlicer

/-! ## Runs -/

/-- What can happen to a slicer.  The flags say which exchanges fail for no reason. -/
inductive SlicerCall where
  | write (a b : IntervalSlicer.Attempt) (s : Slice)
  | registerConsumerMark (key : String)
  | removeConsumerMark (key : String)
  | discardConsumed (weak : Bool)
  | consumeSlices (weakRead weakDrop : Bool) (key : String) (q : Request)
  deriving DecidableEq, Repr

/-- A slicer with the slices that were written, and the number of the slice that each
consumer has come to. -/
structure Tracked where
  slicer : IntervalSlicer
  sent : List Slice
  reached : List (String × ℕ)

namespace Tracked

open IntervalSlicer

def init (logSize numSlicesDropIfFull : ℕ) (hge : 5 ≤ logSize) (hle : logSize ≤ 62) : Tracked :=
  ⟨.init logSize numSlicesDropIfFull hge hle, [], []⟩

variable (t : Tracked)

/-- The number of slices that have left the ring buffer. -/
def gone : ℕ := t.sent.length - t.slicer.slices.length

/-- The number of the slice that a read from an offset starts with. -/
def start (offset : ℕ) : ℕ := t.gone + t.slicer.seek offset

/-- The slices that a read from an offset has before it. -/
def unread (offset : ℕ) : List Slice := t.slicer.slices.drop (t.slicer.seek offset)

/-- What the read of a call returns. -/
def read (weak : Bool) (offset : ℕ) (q : Request) :
    Except SlicingFailure (Option (List Slice) × ℕ) :=
  result (makeIntervalIntersectingSlices weak offset q) t.slicer

/-- A consumer comes as far as its reads have consumed slices. -/
def reachedAfter : SlicerCall → List (String × ℕ)
  | .registerConsumerMark key =>
    if (Dict.get? t.reached key).isSome then t.reached else Dict.put t.reached key t.gone
  | .removeConsumerMark key => Dict.drop t.reached key
  | .consumeSlices weakRead _ key q =>
    match Dict.get? t.slicer.consumerMarks key with
    | none => t.reached
    | some offset =>
      match t.read weakRead offset q with
      | .error _ => t.reached
      | .ok r => Dict.put t.reached key (t.start offset + consumedBy q (t.unread offset) r)
  | .write _ _ _ | .discardConsumed _ => t.reached

def step : SlicerCall → Tracked
  | .write a b s =>
    { t with
      slicer := after (write a b s) t.slicer
      sent := match result (write a b s) t.slicer with
        | .ok (.ok _) => t.sent ++ [s]
        | _ => t.sent }
  | .registerConsumerMark key =>
    { t with
      slicer := after (registerConsumerMark key) t.slicer
      reached := t.reachedAfter (.registerConsumerMark key) }
  | .removeConsumerMark key =>
    { t with
      slicer := after (removeConsumerMark key) t.slicer
      reached := t.reachedAfter (.removeConsumerMark key) }
  | .discardConsumed weak => { t with slicer := after (discardConsumed weak) t.slicer }
  | .consumeSlices weakRead weakDrop key q =>
    { t with
      slicer := after (consumeSlices weakRead weakDrop key q) t.slicer
      reached := t.reachedAfter (.consumeSlices weakRead weakDrop key q) }

/-- The slices that a call returns. -/
def returned : SlicerCall → List Slice
  | .consumeSlices weakRead weakDrop key q =>
    match result (consumeSlices weakRead weakDrop key q) t.slicer with
    | .ok ss => ss
    | .error _ => []
  | _ => []

/-- The numbers of the slices that a call hands out. -/
def handed : SlicerCall → List ℕ
  | .consumeSlices weakRead weakDrop key q =>
    match Dict.get? t.slicer.consumerMarks key with
    | none => []
    | some offset =>
      List.range' (t.start offset + (q.skipped (t.unread offset)).length)
        (t.returned (.consumeSlices weakRead weakDrop key q)).length
  | _ => []

/-- A write does not drop slices, and the counters of the ring buffer do not wrap around. -/
def Keeps : SlicerCall → Prop
  | .write _ _ _ =>
    t.slicer.DropsNothing ∧ t.slicer.tail + t.slicer.usedSize + kSliceByteSize < 2 ^ 64
  | _ => True

instance : ∀ call, Decidable (t.Keeps call)
  | .write _ _ _ => inferInstanceAs (Decidable (_ ∧ _))
  | .registerConsumerMark _ | .removeConsumerMark _ | .discardConsumed _
  | .consumeSlices _ _ _ _ => isTrue trivial

/-- What is right about a call. -/
structure Right (call : SlicerCall) : Prop where
  /-- What has not left is in the ring buffer, in order. -/
  holds : (t.step call).slicer.slices = (t.step call).sent.drop (t.step call).gone
  /-- A slice that leaves has been consumed by every registered consumer. -/
  leaves : ∀ i, t.gone ≤ i → i < (t.step call).gone →
    (t.step call).reached ≠ [] ∧ ∀ e ∈ (t.step call).reached, i < e.2
  /-- The mark of a consumer is what it has come to. -/
  marks : (t.step call).slicer.consumerMarks = (t.step call).reached
  /-- A consumer that stays registered does not go back. -/
  forward : ∀ key p p', Dict.get? t.reached key = some p →
    Dict.get? (t.step call).reached key = some p' → p ≤ p'
  /-- A read starts with what its consumer has come to. -/
  resumes : ∀ key p, Dict.get? t.reached key = some p → t.start p = p
  /-- What is returned are the slices with the numbers, which may have been cut. -/
  returns : List.Forall₂ (fun s' i => ∃ s, t.sent[i]? = some s ∧ Request.Cut s' s)
    (t.returned call) (t.handed call)
  /-- A slice that is handed out has not been consumed before, and is consumed now, unless
  it goes beyond the end of the interval and is cut there. -/
  once : ∀ weakRead weakDrop key q, call = .consumeSlices weakRead weakDrop key q →
    ∀ i ∈ t.handed call, ∃ p p', Dict.get? t.reached key = some p ∧
      Dict.get? (t.step call).reached key = some p' ∧ p ≤ i ∧
      (i < p' ∨ i = p' ∧ q.trim = true ∧ ∃ s, t.sent[i]? = some s ∧ q.tstampEnd < s.endStamp)

/-- The slicer is as it should be, and the marks are what the consumers have come to. -/
structure Inv : Prop where
  holds : Holds t.slicer t.sent
  marks : t.slicer.consumerMarks = t.reached

variable {t}

theorem inv_init (logSize numSlicesDropIfFull : ℕ) (hge : 5 ≤ logSize) (hle : logSize ≤ 62) :
    Inv (init logSize numSlicesDropIfFull hge hle) := by
  refine ⟨⟨rfl, rfl, Nat.le_refl _, ?_, ?_, ?_, List.nodup_nil⟩, rfl⟩
  · exact Nat.two_pow_pos 64
  · exact fun _ he => absurd he List.not_mem_nil
  · exact fun _ he => absurd he List.not_mem_nil

theorem gone_eq (h : Holds t.slicer t.sent) : t.gone = t.slicer.numProcessedSlices := by
  have hle := h.processed_le
  rw [gone, h.slices, List.length_drop]
  omega

/-- If the call has no mark or its read raises, nothing but the flag changes, and nothing
is returned. -/
theorem consumeSlices_error {weakRead : Bool} (weakDrop : Bool) {key : String}
    {q : Request}
    (hr : ∀ p, Dict.get? t.slicer.consumerMarks key = some p →
      ∃ failure, t.read weakRead p q = .error failure) :
    SameBut t.slicer (t.step (.consumeSlices weakRead weakDrop key q)).slicer ∧
      (t.step (.consumeSlices weakRead weakDrop key q)).reached = t.reached ∧
      t.returned (.consumeSlices weakRead weakDrop key q) = [] := by
  have hout : Outcome (IntervalSlicer.consumeSlices weakRead weakDrop key q)
      (fun _ _ => False) (fun _ m' => SameBut t.slicer m') t.slicer := by
    cases hp : Dict.get? t.slicer.consumerMarks key with
    | none =>
      rw [IntervalSlicer.consumeSlices]
      simp only [outcome_bind, outcome_get]
      rw [hp]
      exact ⟨t.slicer.inReadTx, rfl⟩
    | some p =>
      obtain ⟨failure, hr⟩ := hr p hp
      exact consumeSlices_outcome_error weakRead weakDrop hp q hr
  refine ⟨?_, ?_, ?_⟩
  · exact outcome_after.mp (hout.mono (fun _ _ h => h.elim) fun _ _ h => h)
  · show t.reachedAfter (.consumeSlices weakRead weakDrop key q) = t.reached
    rw [reachedAfter]
    cases hp : Dict.get? t.slicer.consumerMarks key with
    | none => rfl
    | some p =>
      obtain ⟨failure, hr⟩ := hr p hp
      dsimp only
      rw [hr]
  · unfold Outcome at hout
    rw [returned, result]
    cases hm : IntervalSlicer.consumeSlices weakRead weakDrop key q t.slicer with
    | ok ss m' =>
      rw [hm] at hout
      exact hout.elim
    | error e m' => rfl

namespace Inv

theorem mark (h : Inv t) {key : String} {p : ℕ} (hp : Dict.get? t.slicer.consumerMarks key = some p) :
    t.gone ≤ p ∧ p ≤ t.sent.length := by
  have hmem := Dict.mem_of_lookup hp
  rw [gone_eq h.holds]
  exact ⟨h.holds.ahead _ hmem, h.holds.behind _ hmem⟩

theorem start (h : Inv t) {key : String} {p : ℕ}
    (hp : Dict.get? t.slicer.consumerMarks key = some p) : t.start p = p := by
  obtain ⟨hge, hle⟩ := h.mark hp
  rw [gone_eq h.holds] at hge
  rw [Tracked.start, gone_eq h.holds, h.holds.seek hge hle, Nat.add_sub_cancel' hge]

theorem unread (h : Inv t) {key : String} {p : ℕ}
    (hp : Dict.get? t.slicer.consumerMarks key = some p) : t.unread p = t.sent.drop p := by
  obtain ⟨hge, hle⟩ := h.mark hp
  rw [gone_eq h.holds] at hge
  exact h.holds.drop_seek hge hle

theorem write (h : Inv t) {a b : Attempt} {s : Slice} (hk : t.Keeps (.write a b s)) :
    Inv (t.step (.write a b s)) ∧ (t.step (.write a b s)).gone = t.gone := by
  have hinv : Inv (t.step (.write a b s)) ∧
      (t.step (.write a b s)).slicer.numProcessedSlices = t.slicer.numProcessedSlices := by
    have hw := write_outcome hk.1 a b s
    unfold Outcome at hw
    rw [step, after, result]
    cases hr : IntervalSlicer.write a b s t.slicer with
    | ok r m' =>
      rw [hr] at hw
      rcases hw with ⟨e, rfl, rfl⟩ | ⟨n, rfl, rfl⟩
      · exact ⟨h, rfl⟩
      · exact ⟨⟨h.holds.write s hk.2, h.marks⟩, rfl⟩
    | error e m' =>
      rw [hr] at hw
      have hw : m' = t.slicer := hw
      subst hw
      exact ⟨h, rfl⟩
  rw [gone_eq hinv.1.holds, gone_eq h.holds]
  exact hinv

theorem registerConsumerMark (h : Inv t) (key : String) :
    Inv (t.step (.registerConsumerMark key)) ∧
      (t.step (.registerConsumerMark key)).gone = t.gone := by
  have hafter : after (IntervalSlicer.registerConsumerMark key) t.slicer =
      { t.slicer with consumerMarks := t.reachedAfter (.registerConsumerMark key) } := by
    rw [reachedAfter, ← h.marks, gone_eq h.holds]
    unfold after IntervalSlicer.registerConsumerMark
    rw [run_get]
    split_ifs <;> rfl
  have hinv : Inv (t.step (.registerConsumerMark key)) := by
    rw [step, hafter]
    refine ⟨?_, rfl⟩
    rw [reachedAfter, ← h.marks, gone_eq h.holds]
    split_ifs
    · exact h.holds
    · exact h.holds.put_mark key (Nat.le_refl _) h.holds.processed_le
  refine ⟨hinv, ?_⟩
  rw [gone_eq hinv.holds, gone_eq h.holds, step, hafter]

theorem removeConsumerMark (h : Inv t) (key : String) :
    Inv (t.step (.removeConsumerMark key)) ∧
      (t.step (.removeConsumerMark key)).gone = t.gone := by
  have hafter : after (IntervalSlicer.removeConsumerMark key) t.slicer =
      { t.slicer with consumerMarks := Dict.drop t.slicer.consumerMarks key } := rfl
  have hmem : ∀ e ∈ Dict.drop t.slicer.consumerMarks key, e ∈ t.slicer.consumerMarks :=
    fun e he => List.mem_of_mem_filter he
  have hinv : Inv (t.step (.removeConsumerMark key)) := by
    rw [step, hafter]
    refine ⟨⟨h.holds.slices, h.holds.tail, h.holds.processed_le, h.holds.fits, ?_, ?_, ?_⟩, ?_⟩
    · exact fun e he => h.holds.ahead e (hmem e he)
    · exact fun e he => h.holds.behind e (hmem e he)
    · exact h.holds.keys.sublist (List.filter_sublist.map Prod.fst)
    · exact congrArg (Dict.drop · key) h.marks
  refine ⟨hinv, ?_⟩
  rw [gone_eq hinv.holds, gone_eq h.holds, step, hafter]

theorem discardConsumed (h : Inv t) (weak : Bool) :
    Inv (t.step (.discardConsumed weak)) ∧
      ((t.step (.discardConsumed weak)).gone = t.gone ∨ t.reached ≠ []) := by
  let Good (m' : IntervalSlicer) : Prop := Holds m' t.sent ∧ m'.consumerMarks = t.reached ∧
    (m'.numProcessedSlices = t.slicer.numProcessedSlices ∨ t.reached ≠ [])
  have hd : Outcome (IntervalSlicer.discardConsumed weak) (fun _ => Good) (fun _ => Good)
      t.slicer := by
    refine (discardConsumed_outcome h.holds weak).mono ?_ ?_
    · exact fun _ m' hm' => ⟨hm'.1, hm'.2.1.trans h.marks, h.marks ▸ hm'.2.2⟩
    · rintro - m' rfl
      exact ⟨h.holds, h.marks, .inl rfl⟩
  obtain ⟨hholds, hmarks, hgone⟩ := outcome_after.mp hd
  have hinv : Inv (t.step (.discardConsumed weak)) := ⟨hholds, hmarks⟩
  refine ⟨hinv, ?_⟩
  rw [gone_eq hinv.holds, gone_eq h.holds]
  exact hgone

/-- A consumer whose read returns comes to the end of what the read has consumed. -/
theorem consumeSlices_ok (h : Inv t) {weakRead : Bool} (weakDrop : Bool) {key : String} {p : ℕ}
    (hp : Dict.get? t.slicer.consumerMarks key = some p) {q : Request}
    {r : Option (List Slice) × ℕ} (hr : t.read weakRead p q = .ok r) :
    Inv (t.step (.consumeSlices weakRead weakDrop key q)) ∧
      (t.step (.consumeSlices weakRead weakDrop key q)).reached =
        Dict.put t.reached key (p + consumedBy q (t.sent.drop p) r) := by
  have hreached : t.reachedAfter (.consumeSlices weakRead weakDrop key q) =
      Dict.put t.reached key (p + consumedBy q (t.sent.drop p) r) := by
    rw [reachedAfter, hp]
    dsimp only
    rw [hr, h.start hp, h.unread hp]
  obtain ⟨-, hout⟩ := consumeSlices_outcome h.holds weakRead weakDrop hp q hr
  let Good (m' : IntervalSlicer) : Prop := Holds m' t.sent ∧
    m'.consumerMarks = t.reachedAfter (.consumeSlices weakRead weakDrop key q)
  have hgood : Outcome (IntervalSlicer.consumeSlices weakRead weakDrop key q) (fun _ => Good)
      (fun _ => Good) t.slicer := by
    refine hout.mono ?_ ?_
    · exact fun _ m' hm' => ⟨hm'.1, by rw [hreached, ← h.marks, hm'.2.2]⟩
    · exact fun _ m' hm' => ⟨hm'.1, by rw [hreached, ← h.marks, hm'.2]⟩
  have hafter := outcome_after.mp hgood
  exact ⟨⟨hafter.1, hafter.2⟩, hreached⟩

end Inv

theorem put_ne_nil {d : List (String × ℕ)} {key : String} {p : ℕ} : Dict.put d key p ≠ [] :=
  List.ne_nil_of_mem (Dict.mem_put_self d key p)

/-- The read of a call returns, or the call raises an exception. -/
theorem consumeSlices_cases (t : Tracked) (weakRead : Bool) (key : String) (q : Request) :
    (∃ p r, Dict.get? t.slicer.consumerMarks key = some p ∧ t.read weakRead p q = .ok r) ∨
      ∀ p, Dict.get? t.slicer.consumerMarks key = some p →
        ∃ failure, t.read weakRead p q = .error failure := by
  cases hp : Dict.get? t.slicer.consumerMarks key with
  | none => exact .inr fun p h => by cases h
  | some p =>
    cases hr : t.read weakRead p q with
    | ok r => exact .inl ⟨p, r, rfl, hr⟩
    | error failure => exact .inr fun p' h => ⟨failure, Option.some.inj h ▸ hr⟩

theorem Inv.step (h : Inv t) {call : SlicerCall} (hk : t.Keeps call) :
    Inv (t.step call) ∧ ((t.step call).gone = t.gone ∨ (t.step call).reached ≠ []) := by
  cases call with
  | write a b s => exact (h.write hk).imp id Or.inl
  | registerConsumerMark key => exact (h.registerConsumerMark key).imp id Or.inl
  | removeConsumerMark key => exact (h.removeConsumerMark key).imp id Or.inl
  | discardConsumed weak => exact h.discardConsumed weak
  | consumeSlices weakRead weakDrop key q =>
    rcases consumeSlices_cases t weakRead key q with ⟨p, r, hp, hr⟩ | hr
    · obtain ⟨hinv, hreached⟩ := h.consumeSlices_ok weakDrop hp hr
      refine ⟨hinv, .inr ?_⟩
      rw [hreached]
      exact put_ne_nil
    · obtain ⟨hsame, hreached, -⟩ := consumeSlices_error weakDrop hr
      have hinv : Inv (t.step (.consumeSlices weakRead weakDrop key q)) := by
        refine ⟨h.holds.sameBut hsame, ?_⟩
        obtain ⟨f, hf⟩ := hsame
        rw [hreached, hf]
        exact h.marks
      refine ⟨hinv, .inl ?_⟩
      rw [gone_eq hinv.holds, gone_eq h.holds]
      obtain ⟨f, hf⟩ := hsame
      rw [hf]

theorem Inv.forward (h : Inv t) (call : SlicerCall) {key : String} {p p' : ℕ}
    (hp : Dict.get? t.reached key = some p)
    (hp' : Dict.get? (t.step call).reached key = some p') : p ≤ p' := by
  have hsame : (t.step call).reached = t.reached → p ≤ p' := by
    intro hreached
    rw [hreached, hp] at hp'
    exact (Option.some.inj hp').le
  have hput : ∀ k v, Dict.get? (Dict.put t.reached k v) key = some p' → (k = key → p ≤ v) →
      p ≤ p' := by
    intro k v hput hle
    have hput := (Dict.lookup_put t.reached k key v).symm.trans hput
    split_ifs at hput with hk
    · exact (hle hk.symm).trans (Option.some.inj hput).le
    · exact (Option.some.inj (hp.symm.trans hput)).le
  cases call with
  | write a b s => exact hsame rfl
  | registerConsumerMark k =>
    have hp' : Dict.get? (t.reachedAfter (.registerConsumerMark k)) key = some p' := hp'
    rw [reachedAfter] at hp'
    split_ifs at hp' with hk
    · exact (Option.some.inj (hp.symm.trans hp')).le
    · refine hput k t.gone hp' fun hkey => ?_
      rw [hkey, hp] at hk
      exact absurd rfl hk
  | removeConsumerMark k =>
    have hmem : (key, p') ∈ t.reached := List.mem_of_mem_filter (Dict.mem_of_lookup hp')
    have hlookup := Dict.lookup_of_mem (h.marks ▸ h.holds.keys) hmem
    exact (Option.some.inj (hp.symm.trans hlookup)).le
  | discardConsumed weak => exact hsame rfl
  | consumeSlices weakRead weakDrop k q =>
    rcases consumeSlices_cases t weakRead k q with ⟨o, r, ho, hr⟩ | hr
    · rw [(h.consumeSlices_ok weakDrop ho hr).2] at hp'
      refine hput k _ hp' fun hkey => ?_
      rw [h.marks, hkey, hp] at ho
      rw [Option.some.inj ho]
      exact Nat.le_add_right _ _
    · exact hsame (consumeSlices_error weakDrop hr).2.1

/-- A call returns what its read has handed out, or nothing. -/
theorem Inv.returned (h : Inv t) {weakRead : Bool} (weakDrop : Bool) {key : String} {p : ℕ}
    (hp : Dict.get? t.slicer.consumerMarks key = some p) {q : Request}
    {r : Option (List Slice) × ℕ} (hr : t.read weakRead p q = .ok r) :
    t.returned (.consumeSlices weakRead weakDrop key q) = [] ∨
      ∃ ss, r.1 = some ss ∧ t.returned (.consumeSlices weakRead weakDrop key q) = ss := by
  obtain ⟨-, hout⟩ := consumeSlices_outcome h.holds weakRead weakDrop hp q hr
  unfold Outcome at hout
  rw [Tracked.returned, result]
  cases hm : IntervalSlicer.consumeSlices weakRead weakDrop key q t.slicer with
  | ok ss m' =>
    rw [hm] at hout
    obtain ⟨-, hss, -⟩ := hout
    dsimp only
    rw [hss]
    cases hr1 : r.1 with
    | none => exact .inl rfl
    | some ss => exact .inr ⟨ss, rfl, rfl⟩
  | error e m' => exact .inl rfl

/-- What a call hands out. -/
theorem Inv.handed (h : Inv t) {weakRead : Bool} (weakDrop : Bool) {key : String} {p : ℕ}
    (hp : Dict.get? t.slicer.consumerMarks key = some p) {q : Request}
    {r : Option (List Slice) × ℕ} (hr : t.read weakRead p q = .ok r) :
    (t.returned (.consumeSlices weakRead weakDrop key q) = [] ∧
      t.handed (.consumeSlices weakRead weakDrop key q) = []) ∨
    (r.1.isSome = true ∧
      List.Forall₂ Request.Cut (t.returned (.consumeSlices weakRead weakDrop key q))
        (q.body (t.sent.drop p)) ∧
      t.handed (.consumeSlices weakRead weakDrop key q) =
        List.range' (p + (q.skipped (t.sent.drop p)).length) (q.body (t.sent.drop p)).length) := by
  have hhanded : t.handed (.consumeSlices weakRead weakDrop key q) =
      List.range' (p + (q.skipped (t.sent.drop p)).length)
        (t.returned (.consumeSlices weakRead weakDrop key q)).length := by
    rw [Tracked.handed, hp]
    dsimp only
    rw [h.start hp, h.unread hp]
  rcases h.returned weakDrop hp hr with hnil | ⟨ss, hss, hret⟩
  · refine .inl ⟨hnil, ?_⟩
    rw [hhanded, hnil]
    rfl
  · have hintersect := (consumeSlices_outcome h.holds weakRead weakDrop hp q hr).1
    obtain ⟨slices, n⟩ := r
    subst hss
    obtain ⟨hcut, -, -⟩ := Request.intersect_spec hintersect
    refine .inr ⟨rfl, hret ▸ hcut, ?_⟩
    rw [hhanded, hret, hcut.length_eq]

theorem Inv.returns (h : Inv t) (call : SlicerCall) :
    List.Forall₂ (fun s' i => ∃ s, t.sent[i]? = some s ∧ Request.Cut s' s)
      (t.returned call) (t.handed call) := by
  cases call with
  | write a b s => exact .nil
  | registerConsumerMark key => exact .nil
  | removeConsumerMark key => exact .nil
  | discardConsumed weak => exact .nil
  | consumeSlices weakRead weakDrop key q =>
    rcases consumeSlices_cases t weakRead key q with ⟨p, r, hp, hr⟩ | hr
    · rcases h.handed weakDrop hp hr with ⟨hret, hhanded⟩ | ⟨-, hcut, hhanded⟩
      · rw [hret, hhanded]
        exact .nil
      · rw [hhanded]
        refine List.forall₂_iff_get.mpr ⟨?_, ?_⟩
        · rw [List.length_range', hcut.length_eq]
        · intro j hj hj'
          have hjb : j < (q.body (t.sent.drop p)).length := hcut.length_eq ▸ hj
          have hget := q.body_getElem? hjb
          rw [List.getElem?_drop, List.getElem?_eq_getElem hjb, ← Nat.add_assoc] at hget
          refine ⟨_, ?_, (List.forall₂_iff_get.mp hcut).2 j hj hjb⟩
          rw [List.get_eq_getElem, List.getElem_range', Nat.one_mul]
          exact hget
    · have hret := (consumeSlices_error weakDrop hr).2.2
      rw [hret]
      have hhanded : t.handed (.consumeSlices weakRead weakDrop key q) = [] := by
        rw [Tracked.handed, hret]
        split <;> rfl
      rw [hhanded]
      exact .nil

theorem Inv.once (h : Inv t) (weakRead weakDrop : Bool) (key : String) (q : Request) :
    ∀ i ∈ t.handed (.consumeSlices weakRead weakDrop key q), ∃ p p',
      Dict.get? t.reached key = some p ∧
      Dict.get? (t.step (.consumeSlices weakRead weakDrop key q)).reached key = some p' ∧ p ≤ i ∧
      (i < p' ∨ i = p' ∧ q.trim = true ∧
        ∃ s, t.sent[i]? = some s ∧ q.tstampEnd < s.endStamp) := by
  intro i hi
  rcases consumeSlices_cases t weakRead key q with ⟨p, r, hp, hr⟩ | hr
  · rcases h.handed weakDrop hp hr with ⟨-, hhanded⟩ | ⟨hsome, -, hhanded⟩
    · rw [hhanded] at hi
      exact absurd hi List.not_mem_nil
    · rw [hhanded, List.mem_range'_1] at hi
      refine ⟨p, p + consumedBy q (t.sent.drop p) r, h.marks ▸ hp, ?_, by omega, ?_⟩
      · rw [(h.consumeSlices_ok weakDrop hp hr).2]
        exact Dict.lookup_put_self
      · rw [consumedBy, if_pos hsome, Request.numConsumed]
        split_ifs with hcross
        · by_cases hlt : i < p + ((q.skipped (t.sent.drop p)).length +
              (q.body (t.sent.drop p)).length - 1)
          · exact .inl hlt
          · -- the last slice, which crosses the end of the interval
            obtain ⟨s, hs, hend⟩ := hcross
            have hlast : (q.body (t.sent.drop p)).length - 1 < (q.body (t.sent.drop p)).length := by
              omega
            have hget := q.body_getElem? hlast
            rw [← List.getLast?_eq_getElem?, hs, List.getElem?_drop] at hget
            have hi' : i = p + ((q.skipped (t.sent.drop p)).length +
              ((q.body (t.sent.drop p)).length - 1)) := by omega
            have hmem : s ∈ q.body (t.sent.drop p) := List.mem_of_getLast? hs
            have hwithin : q.Within s = true := List.mem_takeWhile_imp hmem
            refine .inr ⟨by omega, ?_, s, hi' ▸ hget, hend⟩
            simp only [Request.Within, Bool.and_eq_true, Bool.or_eq_true, decide_eq_true_eq]
              at hwithin
            exact hwithin.2.resolve_right (by omega)
        · exact .inl (by omega)
  · have hhanded : t.handed (.consumeSlices weakRead weakDrop key q) = [] := by
      rw [Tracked.handed, (consumeSlices_error weakDrop hr).2.2]
      split <;> rfl
    rw [hhanded] at hi
    exact absurd hi List.not_mem_nil

theorem Inv.right (h : Inv t) {call : SlicerCall} (hk : t.Keeps call) : t.Right call := by
  obtain ⟨hinv, hgone⟩ := h.step hk
  constructor
  · rw [gone_eq hinv.holds]
    exact hinv.holds.slices
  · intro i hge hlt
    refine ⟨hgone.resolve_left (by omega), fun e he => ?_⟩
    rw [← hinv.marks] at he
    rw [gone_eq hinv.holds] at hlt
    exact lt_of_lt_of_le hlt (hinv.holds.ahead e he)
  · exact hinv.marks
  · exact fun key p p' => h.forward call
  · exact fun key p hp => h.start (h.marks ▸ hp)
  · exact h.returns call
  · rintro weakRead weakDrop key q rfl
    exact h.once weakRead weakDrop key q

/-- **No slice is lost, and none is consumed twice.**  In every sequence of calls in which
no write drops slices and the counters do not wrap around, every call is right. -/
theorem consumed_once (logSize numSlicesDropIfFull : ℕ) (hge : 5 ≤ logSize) (hle : logSize ≤ 62)
    (calls : List SlicerCall)
    (hk : Run.Along step Keeps (init logSize numSlicesDropIfFull hge hle) calls) :
    Run.Along step Right (init logSize numSlicesDropIfFull hge hle) calls := by
  have h : Inv (init logSize numSlicesDropIfFull hge hle) := inv_init _ _ _ _
  generalize init logSize numSlicesDropIfFull hge hle = t at h hk
  induction calls generalizing t with
  | nil => trivial
  | cons call calls ih => exact ⟨h.right hk.1, ih _ (h.step hk.1).1 hk.2⟩

/-- A slice of ten units of time that starts at the time stamp. -/
def sliceAt (tstamp : ℕ) : Slice := ⟨tstamp, 10, 1, .threadYield, .threadYield⟩

/-- A try to write that does not fail for no reason. -/
def sure : Attempt := ⟨false, false⟩

/-- Two consumers of two slices, and an interval that ends in the middle of the second. -/
def twoConsumers : List SlicerCall :=
  [.registerConsumerMark "a", .registerConsumerMark "b", .write sure sure (sliceAt 5),
    .write sure sure (sliceAt 15), .consumeSlices false false "a" ⟨5, 15, true, true⟩,
    .consumeSlices false false "b" ⟨5, 20, true, true⟩]

theorem consumed_once_twoConsumers :
    Run.Along step Right (init 7 0 (by decide) (by decide)) twoConsumers :=
  consumed_once 7 0 _ _ _ (by decide +kernel)

/-- A ring buffer of four slices is full, and the first slice is dropped for a fifth.
Both consumers go on from the second slice. -/
def afterDrop : List SlicerCall :=
  [.registerConsumerMark "a", .registerConsumerMark "b", .write sure sure (sliceAt 0),
    .write sure sure (sliceAt 10), .write sure sure (sliceAt 20), .write sure sure (sliceAt 30),
    .consumeSlices false false "a" ⟨0, 10, false, false⟩, .write sure sure (sliceAt 40),
    .consumeSlices false false "a" ⟨10, 10, false, false⟩,
    .consumeSlices false false "b" ⟨10, 10, false, false⟩]

/-- A slice that goes beyond the end of an interval is handed out for the next as well; and
after a drop a slice leaves that a consumer has not come to. -/
theorem not_consumed_once :
    (∃ t : Tracked, t = twoConsumers.foldl step (init 7 0 (by decide) (by decide)) ∧
      1 ∈ (twoConsumers.take 4 |>.foldl step (init 7 0 (by decide) (by decide))).handed
        (.consumeSlices false false "a" ⟨5, 15, true, true⟩) ∧
      1 ∈ t.handed (.consumeSlices false false "a" ⟨20, 5, true, true⟩)) ∧
    ∃ t : Tracked, t = afterDrop.foldl step (init 7 1 (by decide) (by decide)) ∧
      ∃ q, t.gone ≤ 2 ∧ 2 < (t.step (.consumeSlices false false "b" q)).gone ∧
        ("a", 2) ∈ (t.step (.consumeSlices false false "b" q)).reached := by
  refine ⟨⟨_, rfl, by decide +kernel, by decide +kernel⟩, _, rfl, ⟨20, 10, false, false⟩, ?_⟩
  decide +kernel

end Tracked

end Tagstack
end IntegratedCLI
