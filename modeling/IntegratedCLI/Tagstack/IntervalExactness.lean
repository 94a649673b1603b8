import IntegratedCLI.Lib.Intervals
import IntegratedCLI.Tagstack.SlicesConsumed

/-!
# The slices of an interval, exactly

`makeIntervalIntersectingSlices` with `trim` set, on a ring of slices in order.  What it
is to return are the parts of the slices that are in the interval, and how many slices
are over by its end; `ReadsExactly` says so, and `readsExactly_iff` when it does.

A slice that ends just where the interval begins is taken for one that intersects it,
and what is left of it after trimming has no duration.  This is the only way to go
wrong, unless the end of the interval is not a time stamp.
-/

namespace IntegratedCLI
namespace Tagstack

open Effect Ringbuffer Intervals

/-- The slices are in order, are not empty, and end at time stamps. -/
structure Ordered (ss : List Slice) : Prop where
  ordered : Intervals.Ordered Slice.tstamp Slice.tstampEnd ss
  ends : ∀ s ∈ ss, s.tstampEnd < 2 ^ 64

theorem Ordered.sublist {ss ts : List Slice} (h : Ordered ss) (hs : ts.Sublist ss) : Ordered ts :=
  ⟨h.ordered.sublist hs, fun s hmem => h.ends s (hs.subset hmem)⟩

/-- Where a slice is, with its stack. -/
def Slice.span (s : Slice) : ℕ × ℕ × ℕ := (s.tstamp, s.duration, s.stackId)

namespace Request

variable (q : Request)

/-- The end of the interval, which may be beyond the time stamps. -/
def stop : ℕ := q.tstamp + q.duration

/-- The slice has a part in the interval. -/
def Meets (s : Slice) : Prop := max q.tstamp s.tstamp < min q.stop s.tstampEnd

instance (s : Slice) : Decidable (q.Meets s) := inferInstanceAs (Decidable (_ < _))

/-- The part of the slice that is in the interval. -/
def part (s : Slice) : ℕ × ℕ × ℕ :=
  (max q.tstamp s.tstamp, overlap Slice.tstamp Slice.tstampEnd q.tstamp q.stop s, s.stackId)

/-- The parts of the slices that are in the interval. -/
def parts (ss : List Slice) : List (ℕ × ℕ × ℕ) := (ss.filter fun s => q.Meets s).map q.part

/-- The slices leave no hole in the interval. -/
def Covered (ss : List Slice) : Prop := Covers Slice.tstamp Slice.tstampEnd q.tstamp q.stop ss

/-- There is nothing to return. -/
def Missing (ss : List Slice) : Prop :=
  if q.abortOnMissingSlices then ¬ q.Covered ss else ∀ s ∈ ss, ¬ q.Meets s

/-- What a call is to return: nothing if slices are missing, and else the parts of the slices
and how many slices end by the end of the interval. -/
def ReadsExactly (ss : List Slice) (r : Except SlicingFailure (Option (List Slice) × ℕ)) : Prop :=
  ∃ out, r = .ok out ∧ (out.1 = none ↔ q.Missing ss) ∧
    ∀ slices, out.1 = some slices →
      slices.map Slice.span = q.parts ss ∧
        out.2 = ss.countP fun s => decide (s.tstampEnd ≤ q.stop)

/-! ## The loops -/

variable {q} {ss rest : List Slice} {n : ℕ}

theorem endStamp_eq {s : Slice} (h : s.tstampEnd < 2 ^ 64) : s.endStamp = s.tstampEnd :=
  Nat.mod_eq_of_lt h

/-- Slices that are not empty are passed over without an exception. -/
theorem skip_eq (h : ∀ s ∈ q.skipped ss, s.duration ≠ 0) :
    q.skip ss n = .ok (ss.dropWhile q.Before, n + (q.skipped ss).length) := by
  induction ss generalizing n with
  | nil => rfl
  | cons s ss ih =>
    unfold skip
    by_cases hb : s.endStamp < q.tstamp
    · have hbefore : q.Before s = true := decide_eq_true hb
      rw [skipped, List.takeWhile_cons_of_pos hbefore] at h
      have hs := h s List.mem_cons_self
      rw [if_pos hb, if_neg hs, ih fun t ht => h t (List.mem_cons_of_mem s ht), skipped,
        skipped, List.takeWhile_cons_of_pos hbefore, List.dropWhile_cons_of_pos hbefore,
        List.length_cons, Nat.add_assoc, Nat.add_comm 1]
    · have hbefore : ¬ q.Before s = true := fun hs => hb (of_decide_eq_true hs)
      rw [if_neg hb, skipped, List.takeWhile_cons_of_neg hbefore,
        List.dropWhile_cons_of_neg hbefore]
      rfl

theorem within_iff (htrim : q.trim = true) {s : Slice} :
    q.Within s = true ↔ s.tstamp < q.tstampEnd := by
  simp [Within, htrim]

/-- The slices that the loop compares with the ones before them: those that it adds, and the
one after them if it begins in the interval. -/
def tried (q : Request) (rest : List Slice) : List Slice :=
  rest.takeWhile q.Within ++
    ((rest.dropWhile q.Within).head?.filter fun s => s.tstamp < q.tstampEnd).toList

theorem tried_cons_of_within {s : Slice} (hs : q.Within s = true) :
    q.tried (s :: rest) = s :: q.tried rest := by
  rw [tried, tried, List.takeWhile_cons_of_pos hs, List.dropWhile_cons_of_pos hs, List.cons_append]

theorem tried_cons_of_not {s : Slice} (hs : ¬ q.Within s = true) :
    q.tried (s :: rest) = if s.tstamp < q.tstampEnd then [s] else [] := by
  rw [tried, List.takeWhile_cons_of_neg hs, List.dropWhile_cons_of_neg hs]
  rw [List.nil_append, List.head?_cons, Option.filter_some]
  by_cases hlt : s.tstamp < q.tstampEnd
  · rw [if_pos (decide_eq_true hlt), if_pos hlt]
    rfl
  · rw [if_neg (by simpa using hlt), if_neg hlt]
    rfl

/-- The loop that adds slices finds a hole, or adds the slices that belong to the interval. -/
theorem addSlices_eq {p : Partition} (hp : p.slicesDuration < 2 ^ 64) :
    q.addSlices rest p =
      let ts := rest.takeWhile q.Within
      if q.abortOnMissingSlices = true ∧
        ¬ Contiguous Slice.tstamp Slice.endStamp p.lastEnd (q.tried rest) then none
      else some ⟨u64 (p.slicesDuration + (ts.map Slice.duration).sum),
        stopOf Slice.endStamp p.lastEnd ts, p.slices ++ ts, p.numConsumed + ts.length⟩ := by
  have hu : u64 p.slicesDuration = p.slicesDuration := u64_of_lt hp
  induction rest generalizing p with
  | nil =>
    have hnot : ¬ (q.abortOnMissingSlices = true ∧
        ¬ Contiguous Slice.tstamp Slice.endStamp p.lastEnd (q.tried [])) := fun hc => hc.2 trivial
    simp [addSlices, hnot, stopOf, hu]
  | cons s ss ih =>
    unfold addSlices
    by_cases hstart : s.tstamp < q.tstampEnd
    · rw [if_pos hstart]
      -- The slice is compared with the one before it, whether it is added or not.
      have htried : ∃ ts, q.tried (s :: ss) = s :: ts := by
        by_cases hw : q.Within s = true
        · exact ⟨_, tried_cons_of_within hw⟩
        · exact ⟨[], by rw [tried_cons_of_not hw, if_pos hstart]⟩
      obtain ⟨ts, htried⟩ := htried
      by_cases hgap : (q.abortOnMissingSlices && p.lastEnd != s.tstamp) = true
      · obtain ⟨habort, hne⟩ := Bool.and_eq_true_iff.mp hgap
        have hhole : ¬ Contiguous Slice.tstamp Slice.endStamp p.lastEnd (q.tried (s :: ss)) := by
          rw [htried]
          exact fun hc => by simp [hc.1] at hne
        rw [if_pos hgap]
        exact (if_pos ⟨habort, hhole⟩).symm
      · have hsame : q.abortOnMissingSlices = true → s.tstamp = p.lastEnd := by
          intro habort
          have heq : p.lastEnd = s.tstamp := by simpa [habort] using hgap
          exact heq.symm
        rw [if_neg hgap]
        by_cases hcross : (!q.trim && decide (q.tstampEnd < s.endStamp)) = true
        · have hw : ¬ q.Within s = true := by
            simp only [Bool.and_eq_true, Bool.not_eq_true', decide_eq_true_eq] at hcross
            simp [Within, hcross.1, hcross.2]
          have hnot : ¬ (q.abortOnMissingSlices = true ∧
              ¬ Contiguous Slice.tstamp Slice.endStamp p.lastEnd (q.tried (s :: ss))) := by
            rw [tried_cons_of_not hw, if_pos hstart]
            exact fun hc => hc.2 ⟨hsame hc.1, trivial⟩
          rw [if_pos hcross, List.takeWhile_cons_of_neg hw]
          simp [hnot, stopOf, hu]
        · have hw : q.Within s = true := by
            cases htrim : q.trim with
            | true => simp [Within, htrim, hstart]
            | false =>
              simp only [htrim, Bool.not_false, Bool.true_and, decide_eq_true_eq, not_lt] at hcross
              simp [Within, htrim, hstart, hcross]
          have hiff : (q.abortOnMissingSlices = true ∧
                ¬ Contiguous Slice.tstamp Slice.endStamp p.lastEnd (q.tried (s :: ss))) ↔
              q.abortOnMissingSlices = true ∧
                ¬ Contiguous Slice.tstamp Slice.endStamp s.endStamp (q.tried ss) := by
            refine and_congr_right fun habort => not_congr ?_
            rw [tried_cons_of_within hw, Contiguous, and_iff_right (hsame habort)]
          rw [if_neg hcross, ih (u64_lt _) (u64_of_lt (u64_lt _)), List.takeWhile_cons_of_pos hw]
          dsimp only
          rw [stopOf_cons, List.map_cons, List.sum_cons, u64_u64_add]
          simp only [hiff, List.append_assoc, List.singleton_append, List.length_cons,
            Nat.add_assoc, Nat.add_comm 1]
    · have hw : ¬ q.Within s = true := by simp [Within, hstart]
      have hnot : ¬ (q.abortOnMissingSlices = true ∧
          ¬ Contiguous Slice.tstamp Slice.endStamp p.lastEnd (q.tried (s :: ss))) := by
        rw [tried_cons_of_not hw, if_neg hstart]
        exact fun hc => hc.2 trivial
      rw [if_neg hstart, List.takeWhile_cons_of_neg hw]
      simp [hnot, stopOf, hu]

/-- With trimming it compares the ones that it adds. -/
theorem tried_eq (htrim : q.trim = true) (rest : List Slice) :
    q.tried rest = rest.takeWhile q.Within := by
  induction rest with
  | nil => rfl
  | cons s ss ih =>
    by_cases hw : q.Within s = true
    · rw [tried_cons_of_within hw, List.takeWhile_cons_of_pos hw, ih]
    · have hlt : ¬ s.tstamp < q.tstampEnd := by rwa [← within_iff htrim]
      rw [tried_cons_of_not hw, List.takeWhile_cons_of_neg hw, if_neg hlt]

/-- A read that passes over no empty slice, with the loops done. -/
theorem intersect_run (h : ∀ s ∈ q.skipped ss, s.duration ≠ 0) :
    q.intersect ss =
      match ss.dropWhile q.Before with
      | [] => .ok (none, 0)
      | f :: fs =>
        if (q.abortOnMissingSlices && decide (q.tstamp < f.tstamp)) = true then .ok (none, 0)
        else if q.abortOnMissingSlices = true ∧
          ¬ Contiguous Slice.tstamp Slice.endStamp f.tstamp (q.tried (f :: fs)) then .ok (none, 0)
        else
          match (q.body ss).getLast? with
          | none => .ok (none, 0)
          | some z => q.finish ⟨u64 ((q.body ss).map Slice.duration).sum,
              stopOf Slice.endStamp f.tstamp (q.body ss), q.body ss,
              (q.skipped ss).length + (q.body ss).length⟩ z.endStamp := by
  unfold intersect
  rw [skip_eq h, Fallible.bind_ok]
  cases hrest : ss.dropWhile q.Before with
  | nil => rfl
  | cons f fs =>
    have hbody : (f :: fs).takeWhile q.Within = q.body ss := by rw [body, hrest]
    dsimp only
    rw [addSlices_eq (Nat.two_pow_pos 64)]
    simp only [hbody, Nat.zero_add, List.nil_append]
    split_ifs with hlate hhole
    · rfl
    · rfl
    · dsimp only
      cases (q.body ss).getLast? <;> rfl

/-! ## Trimming -/

/-- The slice from the start of the interval on. -/
def fromStart (q : Request) (s : Slice) : Slice :=
  if s.tstamp < q.tstamp then
    { s with duration := s.tstampEnd - q.tstamp, tstamp := q.tstamp, swinType := .analysis }
  else s

@[simp] theorem fromStart_tstamp (q : Request) (s : Slice) :
    (q.fromStart s).tstamp = max q.tstamp s.tstamp := by
  unfold fromStart
  split_ifs with h
  · exact (Nat.max_eq_left h.le).symm
  · exact (Nat.max_eq_right (Nat.le_of_not_lt h)).symm

@[simp] theorem fromStart_stackId (q : Request) (s : Slice) :
    (q.fromStart s).stackId = s.stackId := by
  unfold fromStart
  split_ifs <;> rfl

/-- A slice that does not go beyond the end of the interval is its part in the interval once
its start is trimmed. -/
theorem span_fromStart {s : Slice} (hs : q.tstamp ≤ s.tstampEnd) (hstop : s.tstampEnd ≤ q.stop) :
    (q.fromStart s).span = q.part s := by
  unfold fromStart Slice.span part overlap
  unfold Slice.tstampEnd at *
  split_ifs
  · simp only [Prod.mk.injEq, and_true]
    omega
  · simp only [Prod.mk.injEq, and_true]
    omega

theorem duration_fromStart {s : Slice} (hs : q.tstamp ≤ s.tstampEnd) (hstop : s.tstampEnd ≤ q.stop) :
    (q.fromStart s).duration = overlap Slice.tstamp Slice.tstampEnd q.tstamp q.stop s :=
  congrArg (fun p : ℕ × ℕ × ℕ => p.2.1) (span_fromStart hs hstop)

/-- What is left of a slice that goes beyond the end of the interval when its end is trimmed as
well. -/
theorem sub64_fromStart {s : Slice} (hs : s.tstamp < q.stop) (hdur : 0 < q.duration)
    (hcross : q.stop < s.tstampEnd) (hend : s.tstampEnd < 2 ^ 64) :
    sub64 (q.fromStart s).duration (sub64 s.tstampEnd q.stop) =
        overlap Slice.tstamp Slice.tstampEnd q.tstamp q.stop s ∧
      (q.fromStart s).duration = overlap Slice.tstamp Slice.tstampEnd q.tstamp q.stop s +
        (s.tstampEnd - q.stop) := by
  unfold fromStart overlap sub64
  unfold Slice.tstampEnd stop at *
  split_ifs
  · dsimp only
    omega
  · omega

/-- Trimming the first slice trims every slice, as only the first one begins before the
interval. -/
theorem trimFirst_eq (h : Ordered ss) (hs : ∀ s ∈ ss, q.tstamp ≤ s.tstampEnd) :
    q.trimFirst ss (u64 (ss.map Slice.duration).sum) =
      (ss.map q.fromStart, u64 ((ss.map q.fromStart).map Slice.duration).sum) := by
  cases ss with
  | nil => rfl
  | cons f ss =>
    have hf := hs f List.mem_cons_self
    have hend := h.ends f List.mem_cons_self
    have hrest : ss.map q.fromStart = ss := by
      refine (List.map_congr_left fun s hs => ?_).trans (List.map_id ss)
      have hle := h.ordered.head_le hs
      exact if_neg (by omega)
    simp only [trimFirst, List.map_cons, List.sum_cons, hrest, endStamp_eq hend]
    unfold fromStart
    by_cases hlt : f.tstamp < q.tstamp
    · have hover : sub64 f.tstampEnd q.tstamp = f.tstampEnd - q.tstamp := by
        unfold sub64
        omega
      have hsum : sub64 (u64 (f.duration + (ss.map Slice.duration).sum))
            (sub64 f.duration (f.tstampEnd - q.tstamp)) =
          u64 (f.tstampEnd - q.tstamp + (ss.map Slice.duration).sum) := by
        unfold Slice.tstampEnd at *
        unfold sub64 u64
        omega
      simp only [if_pos hlt, hover, hsum]
    · simp only [if_neg hlt]

theorem trimLast_append (delta : ℕ) (ss : List Slice) (z : Slice) :
    trimLast delta (ss ++ [z]) =
      ss ++ [{ z with duration := sub64 z.duration delta, swoutType := .analysis }] := by
  induction ss with
  | nil => rfl
  | cons s ss ih =>
    cases ss with
    | nil => rfl
    | cons s' ss => exact congrArg (s :: ·) ih

/-- Trimming leaves of each slice its part in the interval. -/
theorem trimSlices_eq (htrim : q.trim = true) (hdur : 0 < q.duration) (hq : q.stop < 2 ^ 64)
    {z : Slice}
    (h : Ordered (ss ++ [z])) (hs : ∀ s ∈ ss ++ [z], q.tstamp ≤ s.tstampEnd ∧ s.tstamp < q.stop)
    {p : Partition} (hslices : p.slices = ss ++ [z])
    (hsum : p.slicesDuration = u64 ((ss ++ [z]).map Slice.duration).sum) :
    (q.trimSlices p z.tstampEnd).1.map Slice.span = (ss ++ [z]).map q.part ∧
      (q.trimSlices p z.tstampEnd).2 = u64 ((ss ++ [z]).map
        (overlap Slice.tstamp Slice.tstampEnd q.tstamp q.stop)).sum := by
  have hstop : q.tstampEnd = q.stop := Nat.mod_eq_of_lt hq
  have hz := hs z (by simp)
  have hzend := h.ends z (by simp)
  -- The slices before the last one do not go beyond the end.
  have hinside : ∀ s ∈ ss, s.tstampEnd ≤ q.stop := fun s hmem =>
    ((List.pairwise_append.mp h.ordered.apart).2.2 s hmem z (by simp)).trans hz.2.le
  have hparts : (ss.map q.fromStart).map Slice.span = ss.map q.part := by
    rw [List.map_map]
    exact List.map_congr_left fun s hmem => span_fromStart (hs s (by simp [hmem])).1 (hinside s hmem)
  have hdurations : (ss.map q.fromStart).map Slice.duration =
      ss.map (overlap Slice.tstamp Slice.tstampEnd q.tstamp q.stop) := by
    rw [List.map_map]
    exact List.map_congr_left fun s hmem =>
      duration_fromStart (hs s (by simp [hmem])).1 (hinside s hmem)
  unfold trimSlices
  rw [if_pos htrim, hslices, hsum, trimFirst_eq h fun s hmem => (hs s hmem).1, hstop]
  simp only [List.map_append, List.map_cons, List.map_nil, List.sum_append, List.sum_cons,
    List.sum_nil, Nat.add_zero, hdurations]
  by_cases hcross : q.stop < z.tstampEnd
  · obtain ⟨hsub, hdur⟩ := sub64_fromStart hz.2 hdur hcross hzend
    rw [if_pos hcross, trimLast_append]
    simp only [List.map_append, List.map_cons, List.map_nil, hparts]
    refine ⟨?_, ?_⟩
    · simp [Slice.span, part, hsub]
    · rw [hdur]
      unfold sub64 u64
      omega
  · rw [if_neg hcross]
    simp only [List.map_append, List.map_cons, List.map_nil, hparts,
      span_fromStart hz.1 (Nat.le_of_not_lt hcross),
      duration_fromStart hz.1 (Nat.le_of_not_lt hcross), and_self]

/-! ## What is selected -/

theorem before_iff (h : Ordered ss) {s : Slice} (hs : s ∈ ss) :
    q.Before s = true ↔ s.tstampEnd < q.tstamp := by
  rw [Before, decide_eq_true_iff, endStamp_eq (h.ends s hs)]

/-- The slices that are passed over are all that end before the interval. -/
theorem dropWhile_before (h : Ordered ss) :
    ss.dropWhile q.Before = ss.filter fun s => decide (q.tstamp ≤ s.tstampEnd) := by
  have hdown : ss.Pairwise fun s t => q.Before t = true → q.Before s = true := by
    refine h.ordered.apart.imp_of_mem fun hs ht hle ht' => ?_
    rw [before_iff h hs]
    have hlt := (before_iff h ht).mp ht'
    have hpos := h.ordered.pos _ ht
    omega
  rw [dropWhile_eq_filter hdown]
  refine List.filter_congr fun s hs => ?_
  have hbefore : q.Before s = decide (s.tstampEnd < q.tstamp) := by
    rw [Bool.eq_iff_iff, before_iff h hs, decide_eq_true_iff]
  rw [hbefore, ← decide_not]
  exact decide_eq_decide.mpr Nat.not_lt

/-- A slice before one that belongs to the interval does so too. -/
theorem within_of_after (htrim : q.trim = true) (h : Ordered rest) :
    rest.Pairwise fun s t => q.Within t = true → q.Within s = true := by
  refine h.ordered.apart.imp_of_mem fun hs _ hle ht => ?_
  rw [within_iff htrim] at ht ⊢
  exact ((h.ordered.pos _ hs).le.trans hle).trans_lt ht

/-- What is handed out are the slices that touch the interval. -/
theorem body_eq (htrim : q.trim = true) (h : Ordered ss) : q.body ss =
    ss.filter fun s => decide (s.tstamp < q.tstampEnd) && decide (q.tstamp ≤ s.tstampEnd) := by
  have hdown := within_of_after htrim (h.sublist (List.dropWhile_sublist q.Before))
  rw [body, takeWhile_eq_filter hdown, dropWhile_before h, List.filter_filter]
  refine List.filter_congr fun s _ => ?_
  rw [Bool.eq_iff_iff, Bool.and_eq_true, Bool.and_eq_true, within_iff htrim,
    decide_eq_true_iff (p := s.tstamp < q.tstampEnd)]

theorem mem_body (htrim : q.trim = true) (h : Ordered ss) {s : Slice} :
    s ∈ q.body ss ↔ s ∈ ss ∧ s.tstamp < q.tstampEnd ∧ q.tstamp ≤ s.tstampEnd := by
  rw [body_eq htrim h, List.mem_filter, Bool.and_eq_true, decide_eq_true_iff, decide_eq_true_iff]

theorem body_sublist (q : Request) (ss : List Slice) : (q.body ss).Sublist ss :=
  (List.takeWhile_sublist _).trans (List.dropWhile_sublist _)

theorem tstampEnd_eq (hq : q.stop < 2 ^ 64) : q.tstampEnd = q.stop := Nat.mod_eq_of_lt hq

/-- Whether there is a hole in the interval is seen from the slices that touch it. -/
theorem covered_iff_body (htrim : q.trim = true) (hq : q.stop < 2 ^ 64) (h : Ordered ss) :
    q.Covered ss ↔ Covers Slice.tstamp Slice.tstampEnd q.tstamp q.stop (q.body ss) := by
  have hstop := tstampEnd_eq hq
  constructor
  · intro hc t ht ht'
    obtain ⟨s, hs, hle, hlt⟩ := hc t ht ht'
    exact ⟨s, (mem_body htrim h).mpr ⟨hs, by omega, by omega⟩, hle, hlt⟩
  · intro hc t ht ht'
    obtain ⟨s, hs, hin⟩ := hc t ht ht'
    exact ⟨s, ((mem_body htrim h).mp hs).1, hin⟩

/-- A read of slices in order, with the loops done. -/
theorem intersect_eq (htrim : q.trim = true) (h : Ordered ss) :
    q.intersect ss =
      match ss.dropWhile q.Before with
      | [] => .ok (none, 0)
      | f :: _ =>
        if (q.abortOnMissingSlices && decide (q.tstamp < f.tstamp)) = true then .ok (none, 0)
        else if q.abortOnMissingSlices = true ∧
          ¬ Contiguous Slice.tstamp Slice.tstampEnd f.tstamp (q.body ss) then .ok (none, 0)
        else
          match (q.body ss).getLast? with
          | none => .ok (none, 0)
          | some z => q.finish ⟨u64 ((q.body ss).map Slice.duration).sum,
              stopOf Slice.tstampEnd f.tstamp (q.body ss), q.body ss,
              (q.skipped ss).length + (q.body ss).length⟩ z.tstampEnd := by
  have hdurations : ∀ s ∈ q.skipped ss, s.duration ≠ 0 := by
    intro s hs
    have hpos := h.ordered.pos s ((List.takeWhile_sublist _).subset hs)
    unfold Slice.tstampEnd at hpos
    omega
  have hends : ∀ s ∈ q.body ss, s.endStamp = s.tstampEnd := fun s hs =>
    endStamp_eq (h.ends s ((body_sublist q ss).subset hs))
  rw [intersect_run hdurations]
  cases hrest : ss.dropWhile q.Before with
  | nil => rfl
  | cons f fs =>
    have hbody : q.tried (f :: fs) = q.body ss := by rw [tried_eq htrim, body, hrest]
    dsimp only
    rw [hbody]
    simp only [contiguous_congr hends, stopOf_congr hends]
    cases hlast : (q.body ss).getLast? with
    | none => rfl
    | some z => simp only [hends z (List.mem_of_getLast? hlast)]

/-- Nothing is returned if slices are missing, and else of each slice that touches the interval
its part in the interval, and how many slices end by the end of the interval. -/
def Selects (q : Request) (ss : List Slice) (out : Option (List Slice) × ℕ) : Prop :=
  (out.1 = none ↔ if q.abortOnMissingSlices then ¬ q.Covered ss else q.body ss = []) ∧
    ∀ slices, out.1 = some slices → slices.map Slice.span = (q.body ss).map q.part ∧
      out.2 = ss.countP fun s => decide (s.tstampEnd ≤ q.stop)

theorem selects_nothing
    (h : if q.abortOnMissingSlices then ¬ q.Covered ss else q.body ss = []) :
    q.Selects ss (none, 0) :=
  ⟨iff_of_true rfl h, fun slices hslices => by cases hslices⟩

section Within

variable (htrim : q.trim = true) (hdur : 0 < q.duration) (hq : q.stop < 2 ^ 64)
include htrim hdur hq

/-- There is no hole if the first slice begins by the start of the interval, and from there
the loop finds none up to the end. -/
theorem covered_iff (h : Ordered ss) {f : Slice} (hf : ss.dropWhile q.Before = f :: rest) :
    q.Covered ss ↔ f.tstamp ≤ q.tstamp ∧
      Contiguous Slice.tstamp Slice.tstampEnd f.tstamp (q.body ss) ∧
      q.stop ≤ stopOf Slice.tstampEnd f.tstamp (q.body ss) := by
  have hstop := tstampEnd_eq hq
  have hlt : q.tstamp < q.stop := Nat.lt_add_of_pos_right hdur
  have hord := h.ordered.sublist (body_sublist q ss)
  have hmem : f ∈ ss.dropWhile q.Before := hf ▸ List.mem_cons_self
  have hend : q.tstamp ≤ f.tstampEnd := by
    rw [dropWhile_before h] at hmem
    simpa using (List.mem_filter.mp hmem).2
  rw [covered_iff_body htrim hq h]
  by_cases hin : f.tstamp < q.stop
  · have hbody : q.body ss = f :: rest.takeWhile q.Within := by
      rw [body, hf, List.takeWhile_cons_of_pos ((within_iff htrim).mpr (hstop ▸ hin))]
    have hbelow : ∀ s ∈ q.body ss, s.tstamp < q.stop := fun s hs =>
      hstop ▸ ((mem_body htrim h).mp hs).2.1
    have habove : ∀ s ∈ q.body ss, f.tstamp ≤ s.tstamp := by
      rw [hbody] at hord ⊢
      intro s hs
      rcases List.mem_cons.mp hs with rfl | hs
      · exact le_rfl
      · exact hord.head_lt.le.trans (hord.head_le hs)
    rw [← covers_iff_contiguous hord habove hbelow]
    rw [hbody] at hord ⊢
    rw [covers_cons hord hend hlt, covers_cons hord hord.head_lt.le hin, and_iff_right le_rfl]
  · have hbody : q.body ss = [] := by
      rw [body, hf, List.takeWhile_cons_of_neg]
      rw [within_iff htrim, hstop]
      exact hin
    rw [hbody, covers_nil]
    exact iff_of_false (by omega) fun hc => by omega

/-- How many slices end by the end of the interval: the ones that are passed over and the
ones that are handed out, the last one perhaps apart. -/
theorem countP_eq (h : Ordered ss) {z : Slice} {ts : List Slice} (hbody : q.body ss = ts ++ [z]) :
    (ss.countP fun s => decide (s.tstampEnd ≤ q.stop)) =
      (q.skipped ss).length + ts.length + if q.stop < z.tstampEnd then 0 else 1 := by
  have hstop := tstampEnd_eq hq
  have hord : Ordered (ts ++ [z]) := hbody ▸ h.sublist (body_sublist q ss)
  have hz : z.tstamp < q.stop := by
    have hmem := (mem_body htrim h).mp (by simp [hbody] : z ∈ q.body ss)
    exact hstop ▸ hmem.2.1
  have hsplit : ss = q.skipped ss ++ ((ts ++ [z]) ++
      (ss.dropWhile q.Before).dropWhile q.Within) := by
    rw [← hbody, body, List.takeWhile_append_dropWhile, skipped, List.takeWhile_append_dropWhile]
  have hskipped : ((q.skipped ss).countP fun s => decide (s.tstampEnd ≤ q.stop)) =
      (q.skipped ss).length := by
    refine List.countP_eq_length.mpr fun s hs => ?_
    have hbefore := (before_iff h ((List.takeWhile_sublist _).subset hs)).mp
      (List.mem_takeWhile_imp hs)
    have hlt : q.tstamp < q.stop := Nat.lt_add_of_pos_right hdur
    exact decide_eq_true (by omega)
  have hinside : (ts.countP fun s => decide (s.tstampEnd ≤ q.stop)) = ts.length := by
    refine List.countP_eq_length.mpr fun s hs => decide_eq_true ?_
    exact ((List.pairwise_append.mp hord.ordered.apart).2.2 s hs z (by simp)).trans hz.le
  have hafter : (((ss.dropWhile q.Before).dropWhile q.Within).countP fun s =>
      decide (s.tstampEnd ≤ q.stop)) = 0 := by
    have hrest := h.sublist (List.dropWhile_sublist q.Before)
    rw [dropWhile_eq_filter (within_of_after htrim hrest)]
    refine List.countP_eq_zero.mpr fun s hs => ?_
    obtain ⟨hmem, hnot⟩ := List.mem_filter.mp hs
    have hpos := hrest.ordered.pos s hmem
    have hlate : ¬ s.tstamp < q.tstampEnd := by
      rw [← within_iff htrim]
      simpa using hnot
    simp only [decide_eq_true_eq]
    omega
  conv_lhs => rw [hsplit]
  rw [List.countP_append, List.countP_append, List.countP_append, hskipped, hinside, hafter,
    List.countP_singleton]
  by_cases hcross : q.stop < z.tstampEnd
  · simp [hcross]
  · simp [hcross, Nat.le_of_not_lt hcross, Nat.add_assoc]

/-- After the loops have found no hole: the interval is covered if the last slice goes on to
its end. -/
theorem finish_selects (h : Ordered ss) {z : Slice} {ts : List Slice} {p : Partition}
    (hbody : q.body ss = ts ++ [z]) (hslices : p.slices = ts ++ [z])
    (hsum : p.slicesDuration = u64 ((ts ++ [z]).map Slice.duration).sum)
    (hnum : p.numConsumed = (q.skipped ss).length + (ts.length + 1))
    (hcover : q.abortOnMissingSlices = true → (q.Covered ss ↔ q.stop ≤ z.tstampEnd)) :
    ∃ out, q.finish p z.tstampEnd = .ok out ∧ q.Selects ss out := by
  have hstop := tstampEnd_eq hq
  have hsome : q.body ss ≠ [] := by simp [hbody]
  have hord : Ordered (ts ++ [z]) := hbody ▸ h.sublist (body_sublist q ss)
  have hin : ∀ s ∈ ts ++ [z], q.tstamp ≤ s.tstampEnd ∧ s.tstamp < q.stop := by
    rw [← hbody]
    intro s hs
    obtain ⟨-, hlt, hle⟩ := (mem_body htrim h).mp hs
    exact ⟨hle, hstop ▸ hlt⟩
  obtain ⟨hspans, htotal⟩ := trimSlices_eq htrim hdur hq hord hin hslices hsum
  have hle := sum_overlap_le (a := q.tstamp) (b := q.stop) hord.ordered
  have hlen : q.stop - q.tstamp = q.duration := Nat.add_sub_cancel_left _ _
  have htotal' : (q.trimSlices p z.tstampEnd).2 =
      ((ts ++ [z]).map (overlap Slice.tstamp Slice.tstampEnd q.tstamp q.stop)).sum := by
    rw [htotal]
    refine u64_of_lt (hle.trans_lt ?_)
    omega
  unfold finish
  rw [hstop]
  by_cases hmiss : (q.abortOnMissingSlices && decide (z.tstampEnd < q.stop)) = true
  · obtain ⟨habort, hlt⟩ := Bool.and_eq_true_iff.mp hmiss
    refine ⟨(none, 0), if_pos hmiss, selects_nothing ?_⟩
    rw [if_pos habort, hcover habort]
    have := of_decide_eq_true hlt
    omega
  · have hcovered : q.abortOnMissingSlices = true → q.Covered ss := by
      intro habort
      simp only [habort, Bool.true_and, decide_eq_true_eq, Nat.not_lt] at hmiss
      exact (hcover habort).mpr hmiss
    have hexact : (q.trim && q.abortOnMissingSlices &&
        (q.trimSlices p z.tstampEnd).2 != q.duration) = false := by
      cases habort : q.abortOnMissingSlices with
      | false => simp
      | true =>
        have hc := (covered_iff_body htrim hq h).mp (hcovered habort)
        rw [hbody] at hc
        have hge := le_sum_overlap hord.ordered hc
        have heq : (q.trimSlices p z.tstampEnd).2 = q.duration := by omega
        simp [heq]
    rw [if_neg hmiss]
    dsimp only
    rw [if_neg (by omega), hexact, if_neg Bool.false_ne_true]
    refine ⟨_, rfl, ?_, ?_⟩
    · refine iff_of_false (by simp) ?_
      split_ifs with habort
      · exact not_not_intro (hcovered habort)
      · exact hsome
    · rintro slices ⟨⟩
      rw [countP_eq htrim hdur hq h hbody, hbody]
      refine ⟨hspans, ?_⟩
      dsimp only
      rw [hnum]
      split_ifs <;> omega

/-- What a read does when the interval ends at a time stamp. -/
theorem intersect_selects (h : Ordered ss) :
    ∃ out, q.intersect ss = .ok out ∧ q.Selects ss out := by
  have hnothing : q.body ss = [] →
      if q.abortOnMissingSlices then ¬ q.Covered ss else q.body ss = [] := by
    intro hnil
    split_ifs
    · rw [covered_iff_body htrim hq h, hnil, covers_nil]
      unfold stop
      omega
    · exact hnil
  rw [intersect_eq htrim h]
  cases hrest : ss.dropWhile q.Before with
  | nil =>
    refine ⟨(none, 0), rfl, selects_nothing (hnothing ?_)⟩
    rw [body, hrest]
    rfl
  | cons f fs =>
    have hiff := covered_iff htrim hdur hq h hrest
    dsimp only
    by_cases hlate : (q.abortOnMissingSlices && decide (q.tstamp < f.tstamp)) = true
    · obtain ⟨habort, hlt⟩ := Bool.and_eq_true_iff.mp hlate
      refine ⟨(none, 0), if_pos hlate, selects_nothing ?_⟩
      rw [if_pos habort, hiff]
      have hlt := of_decide_eq_true hlt
      omega
    · rw [if_neg hlate]
      by_cases hhole : q.abortOnMissingSlices = true ∧
          ¬ Contiguous Slice.tstamp Slice.tstampEnd f.tstamp (q.body ss)
      · refine ⟨(none, 0), if_pos hhole, selects_nothing ?_⟩
        rw [if_pos hhole.1, hiff]
        exact fun hc => hhole.2 hc.2.1
      · rw [if_neg hhole]
        rcases List.eq_nil_or_concat (q.body ss) with hnil | ⟨ts, z, hts⟩
        · refine ⟨(none, 0), ?_, selects_nothing (hnothing hnil)⟩
          rw [hnil]
          rfl
        · rw [List.concat_eq_append] at hts
          have hlast : (q.body ss).getLast? = some z := by simp [hts]
          rw [hlast]
          refine finish_selects htrim hdur hq h hts hts (by rw [hts]) (by simp [hts]) ?_
          intro habort
          have hearly : f.tstamp ≤ q.tstamp := by simpa [habort] using hlate
          have hgapless : Contiguous Slice.tstamp Slice.tstampEnd f.tstamp (q.body ss) := by
            simpa [habort] using hhole
          rw [hiff, and_iff_right hearly, and_iff_right hgapless, stopOf, hlast, Option.elim_some]

end Within

/-! ## When a read is exact -/

/-- No slice ends just where the interval begins, or slices are missing that must not.  An
interval whose end is not a time stamp is taken for one that ends early: then nothing
is to begin before that end and reach into the interval, and nothing to be returned. -/
def Clear (q : Request) (ss : List Slice) : Prop :=
  if q.stop < 2 ^ 64 then
    (∀ s ∈ ss, s.tstampEnd ≠ q.tstamp) ∨ q.abortOnMissingSlices = true ∧ ¬ q.Covered ss
  else
    (∀ s ∈ ss, q.tstamp ≤ s.tstampEnd → q.tstampEnd ≤ s.tstamp) ∧
      (q.abortOnMissingSlices = true ∨ ∀ s ∈ ss, s.tstampEnd ≤ q.tstamp)

theorem meets_iff (hdur : 0 < q.duration) {s : Slice} (hs : s.tstamp < s.tstampEnd) :
    q.Meets s ↔ q.tstamp < s.tstampEnd ∧ s.tstamp < q.stop := by
  unfold Meets stop
  omega

/-- A part has a duration. -/
theorem overlap_pos {s : Slice} (hs : q.Meets s) :
    0 < overlap Slice.tstamp Slice.tstampEnd q.tstamp q.stop s := by
  unfold Meets at hs
  unfold overlap
  omega

/-- With no slice that ends where the interval begins, the slices that touch the interval are
the ones with a part in it. -/
theorem body_eq_meets (htrim : q.trim = true) (hdur : 0 < q.duration) (hq : q.stop < 2 ^ 64)
    (h : Ordered ss) (hclear : ∀ s ∈ ss, s.tstampEnd ≠ q.tstamp) :
    q.body ss = ss.filter fun s => q.Meets s := by
  rw [body_eq htrim h]
  refine List.filter_congr fun s hs => ?_
  have hne := hclear s hs
  rw [tstampEnd_eq hq, Bool.eq_iff_iff, Bool.and_eq_true, decide_eq_true_iff, decide_eq_true_iff,
    decide_eq_true_iff, meets_iff hdur (h.ordered.pos s hs)]
  omega

theorem selects_exact (htrim : q.trim = true) (hdur : 0 < q.duration) (hq : q.stop < 2 ^ 64)
    (h : Ordered ss) {out : Option (List Slice) × ℕ} (hout : q.Selects ss out) :
    q.ReadsExactly ss (.ok out) ↔ q.Clear ss := by
  unfold Clear
  rw [if_pos hq]
  constructor
  · rintro ⟨_, ⟨⟩, -, hsome⟩
    by_contra hnot
    obtain ⟨hend, hmiss⟩ := not_or.mp hnot
    push Not at hend
    obtain ⟨s, hs, hend⟩ := hend
    have hpos := h.ordered.pos s hs
    have hbody : s ∈ q.body ss := by
      rw [mem_body htrim h, tstampEnd_eq hq]
      unfold stop
      exact ⟨hs, by omega, by omega⟩
    -- Something is returned, with the part of this slice, which has no duration.
    have hne : out.1 ≠ none := by
      rw [Ne, hout.1]
      split_ifs with habort
      · exact fun hc => hmiss ⟨habort, hc⟩
      · exact List.ne_nil_of_mem hbody
    obtain ⟨slices, hslices⟩ := Option.ne_none_iff_exists'.mp hne
    have hparts := (hout.2 slices hslices).1.symm.trans (hsome slices hslices).1
    have hpart : q.part s ∈ q.parts ss := hparts ▸ List.mem_map_of_mem hbody
    obtain ⟨s', hs', heq⟩ := List.mem_map.mp hpart
    have hlong := overlap_pos (of_decide_eq_true (List.mem_filter.mp hs').2)
    have hzero := (congrArg (fun p : ℕ × ℕ × ℕ => p.2.1) heq).symm
    unfold part at hzero
    unfold overlap at hzero hlong
    dsimp only at hzero
    omega
  · rintro (hclear | ⟨habort, hmiss⟩)
    · have hbody := body_eq_meets htrim hdur hq h hclear
      refine ⟨out, rfl, hout.1.trans ?_, fun slices hslices => ?_⟩
      · unfold Missing
        split_ifs
        · exact Iff.rfl
        · rw [hbody, List.filter_eq_nil_iff]
          simp
      · rw [parts, ← hbody]
        exact hout.2 slices hslices
    · have hnone : out.1 = none := hout.1.mpr (by rwa [if_pos habort])
      refine ⟨out, rfl, iff_of_true hnone ?_, fun slices hslices => ?_⟩
      · unfold Missing
        rwa [if_pos habort]
      · rw [hnone] at hslices
        cases hslices

/-! ## An interval whose end is not a time stamp -/

/-- Slices that end at time stamps do not cover such an interval. -/
theorem not_covered (hdur : 0 < q.duration) (hq : ¬ q.stop < 2 ^ 64) (h : Ordered ss) :
    ¬ q.Covered ss := by
  intro hc
  unfold stop at hq
  obtain ⟨s, hs, -, hlt⟩ := hc (q.stop - 1) (by unfold stop; omega) (by unfold stop; omega)
  have hend := h.ends s hs
  unfold stop at hlt
  omega

theorem missing_iff (hdur : 0 < q.duration) (hq : ¬ q.stop < 2 ^ 64) (h : Ordered ss) :
    q.Missing ss ↔ q.abortOnMissingSlices = true ∨ ∀ s ∈ ss, s.tstampEnd ≤ q.tstamp := by
  have hmeets : (∀ s ∈ ss, ¬ q.Meets s) ↔ ∀ s ∈ ss, s.tstampEnd ≤ q.tstamp := by
    refine forall₂_congr fun s hs => ?_
    have hpos := h.ordered.pos s hs
    have hend := h.ends s hs
    rw [meets_iff hdur hpos]
    omega
  unfold Missing
  split_ifs with habort
  · exact iff_of_true (not_covered hdur hq h) (Or.inl habort)
  · rw [hmeets, or_iff_right habort]

theorem exact_nothing : q.ReadsExactly ss (.ok (none, 0)) ↔ q.Missing ss := by
  constructor
  · rintro ⟨_, ⟨⟩, hmiss, -⟩
    exact hmiss.mp rfl
  · intro hmiss
    exact ⟨(none, 0), rfl, iff_of_true rfl hmiss, fun slices hslices => by cases hslices⟩

/-- If nothing that reaches into the interval begins before the end as it is taken to be,
nothing is returned. -/
theorem intersect_none_beyond (htrim : q.trim = true) (h : Ordered ss)
    (hnone : ∀ s ∈ ss, q.tstamp ≤ s.tstampEnd → q.tstampEnd ≤ s.tstamp) :
    q.intersect ss = .ok (none, 0) := by
  have hbody : q.body ss = [] := by
    refine List.eq_nil_iff_forall_not_mem.mpr fun s hs => ?_
    obtain ⟨hmem, hlt, hle⟩ := (mem_body htrim h).mp hs
    exact absurd hlt (Nat.not_lt.mpr (hnone s hmem hle))
  rw [intersect_eq htrim h, hbody]
  cases ss.dropWhile q.Before with
  | nil => rfl
  | cons f fs =>
    dsimp only
    split_ifs <;> rfl

/-- What is not missing is returned, unless the durations do not fit. -/
theorem finish_some {p : Partition} {last : ℕ} {out : Option (List Slice) × ℕ}
    (hmiss : ¬ (q.abortOnMissingSlices && decide (last < q.tstampEnd)) = true)
    (h : q.finish p last = .ok out) : out.1 = some (q.trimSlices p last).1 := by
  unfold finish at h
  rw [if_neg hmiss] at h
  dsimp only at h
  split_ifs at h <;> cases h <;> rfl

/-- If the first slice begins before the end as it is taken to be, it alone is handed out, with
the whole interval as what is left of it. -/
theorem not_exact_beyond (htrim : q.trim = true) (ht : q.tstamp < 2 ^ 64)
    (hd : q.duration < 2 ^ 64) (hq : ¬ q.stop < 2 ^ 64) (h : Ordered ss) {s : Slice}
    (hs : s ∈ ss) (hend : q.tstamp ≤ s.tstampEnd) (hstart : s.tstamp < q.tstampEnd) :
    ¬ q.ReadsExactly ss (q.intersect ss) := by
  have hearly : q.tstampEnd + 2 ^ 64 = q.stop := by
    unfold tstampEnd u64 stop at *
    omega
  have hmem : s ∈ ss.dropWhile q.Before := by
    rw [dropWhile_before h, List.mem_filter]
    exact ⟨hs, decide_eq_true hend⟩
  have hrest := h.sublist (List.dropWhile_sublist q.Before)
  rw [intersect_eq htrim h, body]
  cases hfs : ss.dropWhile q.Before with
  | nil => simp [hfs] at hmem
  | cons f fs =>
    rw [hfs] at hmem hrest
    have hpos := hrest.ordered.head_lt
    have hfend := hrest.ends f List.mem_cons_self
    have hfq : q.tstamp ≤ f.tstampEnd := by
      have hmem : f ∈ ss.dropWhile q.Before := hfs ▸ List.mem_cons_self
      rw [dropWhile_before h] at hmem
      simpa using (List.mem_filter.mp hmem).2
    have hfstart : f.tstamp < q.tstampEnd := by
      rcases List.mem_cons.mp hmem with rfl | hmem
      · exact hstart
      · have hle := hrest.ordered.head_le hmem
        omega
    unfold stop at hearly hq
    -- The slice after the first one begins after the start of the interval.
    have honly : (f :: fs).takeWhile q.Within = [f] := by
      rw [List.takeWhile_cons_of_pos ((within_iff htrim).mpr hfstart)]
      cases fs with
      | nil => rfl
      | cons g gs =>
        have hle := hrest.ordered.head_le (List.mem_cons_self (a := g))
        rw [List.takeWhile_cons_of_neg]
        rw [within_iff htrim]
        omega
    have hpresent : ¬ (q.abortOnMissingSlices && decide (f.tstampEnd < q.tstampEnd)) = true := by
      simp only [Bool.and_eq_true, decide_eq_true_eq, not_and]
      omega
    have hfirst : ¬ (q.abortOnMissingSlices && decide (q.tstamp < f.tstamp)) = true := by
      simp only [Bool.and_eq_true, decide_eq_true_eq, not_and]
      omega
    rw [honly]
    dsimp only
    rw [if_neg hfirst, if_neg fun hhole => hhole.2 ⟨rfl, trivial⟩]
    rintro ⟨out, hrun, -, hsome⟩
    obtain ⟨hparts, -⟩ := hsome _ (finish_some hpresent hrun)
    have hwhole : (q.tstamp, q.duration, f.stackId) ∈ q.parts ss := by
      have hlt : f.tstamp < q.tstamp := by omega
      have hcross : q.tstampEnd < f.tstampEnd := by omega
      have hleft : sub64 (sub64 f.tstampEnd q.tstamp) (sub64 f.tstampEnd q.tstampEnd) =
          q.duration := by
        unfold sub64
        omega
      rw [← hparts]
      simp [trimSlices, htrim, trimFirst, trimLast, Slice.span, hlt, hcross, hleft,
        endStamp_eq hfend]
    -- No part is that long.
    obtain ⟨x, hx, heq⟩ := List.mem_map.mp hwhole
    have hxend := h.ends x (List.mem_filter.mp hx).1
    have hlong := (congrArg (fun p : ℕ × ℕ × ℕ => p.2.1) heq)
    unfold part overlap stop at hlong
    dsimp only at hlong
    omega

/-- **A read is exact precisely if it is clear**, for any interval and any slices in order. -/
theorem readsExactly_intersect (htrim : q.trim = true) (hdur : 0 < q.duration)
    (ht : q.tstamp < 2 ^ 64) (hd : q.duration < 2 ^ 64) (h : Ordered ss) :
    q.ReadsExactly ss (q.intersect ss) ↔ q.Clear ss := by
  by_cases hq : q.stop < 2 ^ 64
  · obtain ⟨out, hrun, hout⟩ := intersect_selects htrim hdur hq h
    rw [hrun]
    exact selects_exact htrim hdur hq h hout
  · unfold Clear
    rw [if_neg hq, ← missing_iff hdur hq h]
    by_cases hnone : ∀ s ∈ ss, q.tstamp ≤ s.tstampEnd → q.tstampEnd ≤ s.tstamp
    · rw [intersect_none_beyond htrim h hnone, exact_nothing, and_iff_right hnone]
    · refine iff_of_false ?_ fun hc => hnone hc.1
      push Not at hnone
      obtain ⟨s, hs, hend, hstart⟩ := hnone
      exact not_exact_beyond htrim ht hd hq h hs hend hstart

end Request

namespace IntervalSlicer

variable {m : IntervalSlicer} {q : Request}

/-- A call that starts its transaction reads the slices from the offset on. -/
theorem makeIntervalIntersectingSlices_result (htx : m.inReadTx = false) (hdur : 0 < q.duration)
    (offset : ℕ) : result (makeIntervalIntersectingSlices false offset q) m =
      q.intersect (m.slices.drop (m.seek offset)) := by
  have hstart : startTx false (fun _ => .assertion) m = .ok ⟨⟩ { m with inReadTx := true } := by
    unfold startTx
    rw [run_get, htx]
    rfl
  unfold result makeIntervalIntersectingSlices
  rw [if_neg (by omega), run_bind_ok hstart, run_get]
  have hsame : q.intersect ({ m with inReadTx := true }.slices.drop
      ({ m with inReadTx := true }.seek offset)) = q.intersect (m.slices.drop (m.seek offset)) := rfl
  simp only [hsame]
  cases q.intersect (m.slices.drop (m.seek offset)) <;> rfl

/-- **Interval slicing is exact precisely if the read is clear**, for every ring of slices in
order that is read from its start. -/
theorem readsExactly_iff (m : IntervalSlicer) (q : Request) (offset : ℕ) (h : Ordered m.slices)
    (htx : m.inReadTx = false) (hstart : m.seek offset = 0) (htrim : q.trim = true)
    (hdur : 0 < q.duration) (ht : q.tstamp < 2 ^ 64) (hd : q.duration < 2 ^ 64) :
    q.ReadsExactly m.slices (result (makeIntervalIntersectingSlices false offset q) m) ↔
      q.Clear m.slices := by
  rw [makeIntervalIntersectingSlices_result htx hdur, hstart, List.drop_zero]
  exact Request.readsExactly_intersect htrim hdur ht hd h

/-- Three slices, with a gap before the last one. -/
def threeSlices : IntervalSlicer where
  logSize := 10
  kBytesDropIfFull := 0
  slices := [⟨10, 5, 1, .analysis, .analysis⟩, ⟨15, 5, 2, .analysis, .analysis⟩,
    ⟨30, 5, 3, .analysis, .analysis⟩]
  tail := 0
  inReadTx := false
  numProcessedSlices := 0
  consumerMarks := []
  logSize_ge := by decide
  logSize_le := by decide

theorem ordered_threeSlices : Ordered threeSlices.slices :=
  ⟨⟨by decide, by decide⟩, by decide⟩

theorem readsExactly_threeSlices :
    (⟨12, 20, true, false⟩ : Request).ReadsExactly threeSlices.slices
      (result (makeIntervalIntersectingSlices false 0 ⟨12, 20, true, false⟩) threeSlices) :=
  (readsExactly_iff threeSlices ⟨12, 20, true, false⟩ 0 ordered_threeSlices rfl (by decide) rfl
    (by decide) (by decide) (by decide)).mpr (by
      unfold Request.Clear
      rw [if_pos (by decide)]
      exact Or.inl (by decide))

/-- From the end of the second slice on there is none for ten time units, and a slice of no
duration is returned. -/
theorem slice_of_no_duration :
    (∀ s ∈ threeSlices.slices, ¬ (⟨20, 10, true, false⟩ : Request).Meets s) ∧
      result (makeIntervalIntersectingSlices false 0 ⟨20, 10, true, false⟩) threeSlices =
        .ok (some [⟨20, 0, 2, .analysis, .analysis⟩], 2) ∧
      ¬ (⟨20, 10, true, false⟩ : Request).ReadsExactly threeSlices.slices
        (result (makeIntervalIntersectingSlices false 0 ⟨20, 10, true, false⟩) threeSlices) := by
  have hrun : result (makeIntervalIntersectingSlices false 0 ⟨20, 10, true, false⟩) threeSlices =
      .ok (some [⟨20, 0, 2, .analysis, .analysis⟩], 2) := by decide +kernel
  refine ⟨by decide, hrun, ?_⟩
  rw [hrun]
  rintro ⟨_, ⟨⟩, -, hsome⟩
  exact absurd (hsome _ rfl).1 (by decide)

end IntervalSlicer

end Tagstack
end IntegratedCLI
