import IntegratedCLI.Tagstack.IntervalExactness

/-!
# Transactions that stay open

`makeIntervalIntersectingSlices`, `consumeSlices` and `toStream` each start a read
transaction on the ring of slices.  The flag for it is in the ring, and while it is set
no consumer can start a transaction.

An exception leaves `makeIntervalIntersectingSlices` with the transaction open.
`Request.Sound` says that it raises none, in terms of the slices and the interval, and
`toStream` has nothing that ends its transaction.  `closed_iff` puts the three together.
-/

namespace IntegratedCLI
namespace Tagstack

open Effect Ringbuffer Intervals

namespace Request

variable (q : Request)

/-- How much of the first slice is trimmed off. -/
def cutAtStart (ts : List Slice) : ℕ :=
  if q.trim then ts.head?.elim 0 fun f => q.tstamp - f.tstamp else 0

/-- How much of the last slice is trimmed off. -/
def cutAtEnd (ts : List Slice) : ℕ :=
  if q.trim then ts.getLast?.elim 0 fun z => z.endStamp - q.tstampEnd else 0

/-- The durations of the slices without what is trimmed off, as a 64 bit number. -/
def total (ts : List Slice) : ℤ :=
  ((ts.map Slice.duration).sum - q.cutAtStart ts - q.cutAtEnd ts) % 2 ^ 64

/-- As far as the loops look, no slice is missing that must not. -/
def Complete (unread : List Slice) : Prop :=
  q.abortOnMissingSlices = true →
    ∃ f fs z, unread.dropWhile q.Before = f :: fs ∧ (q.body unread).getLast? = some z ∧
      f.tstamp ≤ q.tstamp ∧
      Contiguous Slice.tstamp Slice.endStamp f.tstamp (q.tried (f :: fs)) ∧
      q.tstampEnd ≤ z.endStamp

/-- The slices that are passed over are not empty, and those that are handed out fit into the
interval, and fill it if none must be missing and they are trimmed. -/
structure Sound (unread : List Slice) : Prop where
  skipped : ∀ s ∈ q.skipped unread, s.duration ≠ 0
  fits : q.body unread ≠ [] → q.Complete unread →
    q.total (q.body unread) ≤ q.duration ∧
      (q.trim = true → q.abortOnMissingSlices = true → q.total (q.body unread) = q.duration)

end Request

namespace IntervalSlicer

/-- Print the slices, from the oldest on.  The transaction is not ended. -/
def toStream (weak : Bool) : Op (List Slice) := do
  startTx weak fun _ => .assertion
  let m ← get
  return m.slices

/-- The calls that read slices. -/
inductive Read where
  | makeIntervalIntersectingSlices (weak : Bool) (offset : ℕ) (q : Request)
  | consumeSlices (weakRead weakDrop : Bool) (key : String) (q : Request)
  | toStream (weak : Bool)

/-- The time stamp of a request is a 64 bit number. -/
def Read.Fits64 : Read → Prop
  | .makeIntervalIntersectingSlices _ _ q => q.tstamp < 2 ^ 64
  | .consumeSlices _ _ _ q => q.tstamp < 2 ^ 64
  | .toStream _ => True

/-- The state after a call, whether it returns or throws. -/
def afterRead (m : IntervalSlicer) : Read → IntervalSlicer
  | .makeIntervalIntersectingSlices weak offset q =>
    after (IntervalSlicer.makeIntervalIntersectingSlices weak offset q) m
  | .consumeSlices weakRead weakDrop key q =>
    after (IntervalSlicer.consumeSlices weakRead weakDrop key q) m
  | .toStream weak => after (IntervalSlicer.toStream weak) m

/-- A read from the offset starts no transaction, or raises no exception in it. -/
def ReadEnds (m : IntervalSlicer) (weak : Bool) (offset : ℕ) (q : Request) : Prop :=
  q.duration = 0 ∨ weak = true ∨ q.Sound (m.slices.drop (m.seek offset))

/-- The call ends its transaction. -/
def Ends (m : IntervalSlicer) : Read → Prop
  | .makeIntervalIntersectingSlices weak offset q => m.ReadEnds weak offset q
  | .consumeSlices weakRead _ key q =>
    ∀ offset, Dict.get? m.consumerMarks key = some offset → m.ReadEnds weakRead offset q
  | .toStream weak => weak = true

end IntervalSlicer

/-! ## Exceptions -/

namespace Request

variable {q : Request} {unread rest : List Slice} {n : ℕ}

theorem skip_error (h : ∃ s ∈ q.skipped unread, s.duration = 0) :
    q.skip unread n = .error .assertion := by
  induction unread generalizing n with
  | nil =>
    obtain ⟨s, hs, -⟩ := h
    cases hs
  | cons s ss ih =>
    obtain ⟨t, ht, hzero⟩ := h
    unfold skip
    by_cases hb : s.endStamp < q.tstamp
    · have hbefore : q.Before s = true := decide_eq_true hb
      rw [skipped, List.takeWhile_cons_of_pos hbefore] at ht
      rw [if_pos hb]
      split_ifs with hs
      · rfl
      · rcases List.mem_cons.mp ht with rfl | ht
        · exact absurd hzero hs
        · exact ih ⟨t, ht, hzero⟩
    · have hbefore : ¬ q.Before s = true := fun hs => hb (of_decide_eq_true hs)
      rw [skipped, List.takeWhile_cons_of_neg hbefore] at ht
      cases ht

/-- What is left of the sum of the durations once the start of the first slice is trimmed. -/
theorem trimFirst_total {f : Slice} {ts : List Slice} (hq : q.tstamp < 2 ^ 64)
    (sum : ℕ) :
    ((q.trimFirst (f :: ts) (u64 sum)).2 : ℤ) = (sum - (q.tstamp - f.tstamp : ℕ)) % 2 ^ 64 := by
  rw [trimFirst]
  split_ifs with hlt
  · dsimp only
    unfold Slice.endStamp Slice.tstampEnd sub64 u64
    omega
  · unfold u64
    omega

/-- The sum that is checked at the end. -/
theorem trimSlices_total {p : Partition} {f z : Slice} (hq : q.tstamp < 2 ^ 64)
    (hhead : p.slices.head? = some f) (hlast : p.slices.getLast? = some z)
    (hsum : p.slicesDuration = u64 (p.slices.map Slice.duration).sum) :
    ((q.trimSlices p z.endStamp).2 : ℤ) = q.total p.slices := by
  obtain ⟨ts, hts⟩ : ∃ ts, p.slices = f :: ts := by
    cases hp : p.slices with
    | nil => simp [hp] at hhead
    | cons g gs => exact ⟨gs, by simp_all⟩
  unfold total cutAtStart cutAtEnd trimSlices
  rw [hhead, hlast, hsum]
  cases htrim : q.trim with
  | false =>
    simp only [Bool.false_eq_true, if_false]
    unfold u64
    omega
  | true =>
    have hfirst := @trimFirst_total q f ts hq (p.slices.map Slice.duration).sum
    rw [← hts] at hfirst
    simp only [if_true, Option.elim_some]
    split_ifs with hcross
    · dsimp only
      generalize (q.trimFirst p.slices (u64 (p.slices.map Slice.duration).sum)).2 = r at hfirst ⊢
      have hz : z.endStamp < 2 ^ 64 := u64_lt _
      unfold sub64
      omega
    · rw [hfirst]
      omega

/-- The checks at the end. -/
theorem finish_ok_iff {p : Partition} {last : ℕ} :
    (∃ out, q.finish p last = .ok out) ↔
      (q.abortOnMissingSlices = true → q.tstampEnd ≤ last) →
        (q.trimSlices p last).2 ≤ q.duration ∧
          (q.trim = true → q.abortOnMissingSlices = true →
            (q.trimSlices p last).2 = q.duration) := by
  unfold finish
  by_cases hmiss : (q.abortOnMissingSlices && decide (last < q.tstampEnd)) = true
  · rw [if_pos hmiss]
    obtain ⟨habort, hlt⟩ := Bool.and_eq_true_iff.mp hmiss
    have hlt := of_decide_eq_true hlt
    exact iff_of_true ⟨_, rfl⟩ fun h => absurd (h habort) (by omega)
  · have hpresent : q.abortOnMissingSlices = true → q.tstampEnd ≤ last := by
      intro habort
      simpa [habort] using hmiss
    rw [if_neg hmiss]
    dsimp only
    constructor
    · rintro ⟨out, hout⟩ -
      by_cases hlong : q.duration < (q.trimSlices p last).2
      · rw [if_pos hlong] at hout
        cases hout
      · rw [if_neg hlong] at hout
        split at hout
        · cases hout
        · rename_i hne
          refine ⟨Nat.le_of_not_lt hlong, fun htrim habort => ?_⟩
          simpa [htrim, habort] using hne
    · intro h
      obtain ⟨hle, heq⟩ := h hpresent
      rw [if_neg (Nat.not_lt.mpr hle), if_neg]
      · exact ⟨_, rfl⟩
      · intro hne
        simp only [Bool.and_eq_true, bne_iff_ne] at hne
        exact hne.2 (heq hne.1.1 hne.1.2)

/-- The slices from the first one on that does not end before the interval are the ones that are
handed out and further ones. -/
theorem head_body {f : Slice} {fs : List Slice} (hrest : unread.dropWhile q.Before = f :: fs)
    (hne : q.body unread ≠ []) : (q.body unread).head? = some f := by
  unfold body at hne ⊢
  rw [hrest] at hne ⊢
  by_cases hw : q.Within f = true
  · rw [List.takeWhile_cons_of_pos hw]
    rfl
  · rw [List.takeWhile_cons_of_neg hw] at hne
    exact absurd rfl hne

/-- **A read raises no exception exactly if it is sound.** -/
theorem intersect_ok_iff (hq : q.tstamp < 2 ^ 64) :
    (∃ out, q.intersect unread = .ok out) ↔ q.Sound unread := by
  by_cases hskip : ∀ s ∈ q.skipped unread, s.duration ≠ 0
  · have hvacuous : ¬ q.Complete unread ∨ q.body unread = [] → q.Sound unread := by
      rintro (hmiss | hnil)
      · exact ⟨hskip, fun _ hc => absurd hc hmiss⟩
      · exact ⟨hskip, fun hne => absurd hnil hne⟩
    rw [intersect_run hskip]
    cases hrest : unread.dropWhile q.Before with
    | nil =>
      refine iff_of_true ⟨_, rfl⟩ (hvacuous (Or.inr ?_))
      rw [body, hrest]
      rfl
    | cons f fs =>
      dsimp only
      by_cases hlate : (q.abortOnMissingSlices && decide (q.tstamp < f.tstamp)) = true
      · obtain ⟨habort, hlt⟩ := Bool.and_eq_true_iff.mp hlate
        have hlt := of_decide_eq_true hlt
        rw [if_pos hlate]
        refine iff_of_true ⟨_, rfl⟩ (hvacuous (Or.inl fun hc => ?_))
        obtain ⟨f', fs', z, hf, -, hle, -⟩ := hc habort
        cases hrest.symm.trans hf
        omega
      · rw [if_neg hlate]
        by_cases hhole : q.abortOnMissingSlices = true ∧
            ¬ Contiguous Slice.tstamp Slice.endStamp f.tstamp (q.tried (f :: fs))
        · rw [if_pos hhole]
          refine iff_of_true ⟨_, rfl⟩ (hvacuous (Or.inl fun hc => ?_))
          obtain ⟨f', fs', z, hf, -, -, hgapless, -⟩ := hc hhole.1
          cases hrest.symm.trans hf
          exact hhole.2 hgapless
        · rw [if_neg hhole]
          cases hlast : (q.body unread).getLast? with
          | none => exact iff_of_true ⟨_, rfl⟩ (hvacuous (Or.inr (List.getLast?_eq_none_iff.mp hlast)))
          | some z =>
            have hne : q.body unread ≠ [] := by
              rintro hnil
              simp [hnil] at hlast
            have hcomplete : q.Complete unread ↔
                (q.abortOnMissingSlices = true → q.tstampEnd ≤ z.endStamp) := by
              refine forall_congr' fun habort => ?_
              constructor
              · rintro ⟨-, -, z', -, hz', -, -, hle⟩
                cases hlast.symm.trans hz'
                exact hle
              · intro hle
                have hearly : f.tstamp ≤ q.tstamp := by simpa [habort] using hlate
                exact ⟨f, fs, z, hrest, hlast, hearly, by simpa [habort] using hhole, hle⟩
            have htotal := trimSlices_total (p := ⟨u64 ((q.body unread).map Slice.duration).sum,
              stopOf Slice.endStamp f.tstamp (q.body unread), q.body unread,
              (q.skipped unread).length + (q.body unread).length⟩) hq (head_body hrest hne) hlast rfl
            dsimp only at htotal ⊢
            rw [finish_ok_iff, ← hcomplete, ← Int.ofNat_le, ← Int.natCast_inj, htotal]
            exact ⟨fun h => ⟨hskip, fun _ => h⟩, fun h => h.fits hne⟩
  · refine iff_of_false ?_ fun h => hskip h.skipped
    push Not at hskip
    rintro ⟨out, hout⟩
    unfold intersect at hout
    rw [skip_error hskip] at hout
    cases hout

end Request

/-! ## Calls -/

namespace IntervalSlicer

variable {m : IntervalSlicer} {q : Request}

theorem startTx_weak (htx : m.inReadTx = false) (failure : Errno → SlicingFailure) :
    startTx true failure m = .error (failure .again) m := by
  unfold startTx
  rw [run_get, htx]
  rfl

theorem startTx_run (htx : m.inReadTx = false) (failure : Errno → SlicingFailure) :
    startTx false failure m = .ok ⟨⟩ { m with inReadTx := true } := by
  unfold startTx
  rw [run_get, htx]
  rfl

/-- A read that raises an exception in its transaction leaves it open, and any other one
leaves none open. -/
theorem makeIntervalIntersectingSlices_run (htx : m.inReadTx = false) (hq : q.tstamp < 2 ^ 64)
    (weak : Bool) (offset : ℕ) :
    (∃ r, makeIntervalIntersectingSlices weak offset q m = .ok r { m with inReadTx := false } ∧
        m.ReadEnds weak offset q) ∨
      (∃ e, makeIntervalIntersectingSlices weak offset q m = .error e m ∧
        m.ReadEnds weak offset q) ∨
      ∃ e, makeIntervalIntersectingSlices weak offset q m = .error e { m with inReadTx := true } ∧
        ¬ m.ReadEnds weak offset q := by
  unfold makeIntervalIntersectingSlices
  by_cases hdur : q.duration = 0
  · rw [if_pos hdur]
    exact Or.inr (Or.inl ⟨_, rfl, Or.inl hdur⟩)
  · rw [if_neg hdur]
    cases weak with
    | true => exact Or.inr (Or.inl ⟨_, run_bind_error (startTx_weak htx _), Or.inr (Or.inl rfl)⟩)
    | false =>
      have hends : m.ReadEnds false offset q ↔
          ∃ out, q.intersect (m.slices.drop (m.seek offset)) = .ok out := by
        unfold ReadEnds
        rw [Request.intersect_ok_iff hq, or_iff_right hdur, or_iff_right Bool.false_ne_true]
      rw [run_bind_ok (startTx_run htx _), run_get, hends]
      have hsame : q.intersect ({ m with inReadTx := true }.slices.drop
          ({ m with inReadTx := true }.seek offset)) =
            q.intersect (m.slices.drop (m.seek offset)) := rfl
      simp only [hsame]
      cases q.intersect (m.slices.drop (m.seek offset)) with
      | ok r => exact Or.inl ⟨r, rfl, r, rfl⟩
      | error e =>
        refine Or.inr (Or.inr ⟨e, rfl, ?_⟩)
        rintro ⟨out, hout⟩
        cases hout

/-- Discarding leaves no transaction open. -/
theorem after_discardConsumed (htx : m.inReadTx = false) (weak : Bool) :
    (after (discardConsumed weak) m).inReadTx = false := by
  unfold discardConsumed after
  rw [run_get]
  cases (m.consumerMarks.map Prod.snd).min? with
  | none => exact htx
  | some minDiscarded =>
    dsimp only
    cases weak with
    | true =>
      rw [run_bind_error (startTx_weak htx _)]
      exact htx
    | false =>
      rw [run_bind_ok (startTx_run htx _)]
      rfl

theorem after_discardConsumed_return {α : Type} (htx : m.inReadTx = false) (weak : Bool) (a : α) :
    (after (do discardConsumed weak; return a : Op α) m).inReadTx = false := by
  have hclosed := after_discardConsumed htx weak
  unfold after at hclosed
  cases hrun : discardConsumed weak m with
  | ok u m' =>
    rw [hrun] at hclosed
    rw [after_bind_ok hrun]
    exact hclosed
  | error e m' =>
    rw [hrun] at hclosed
    rw [after_bind_error hrun]
    exact hclosed

/-- **The transaction is closed on exit exactly from the calls that end it**, whether they return
or throw. -/
theorem closed_iff (m : IntervalSlicer) (c : Read) (htx : m.inReadTx = false)
    (hc : c.Fits64) : (m.afterRead c).inReadTx = false ↔ m.Ends c := by
  cases c with
  | makeIntervalIntersectingSlices weak offset q =>
    show (after (makeIntervalIntersectingSlices weak offset q) m).inReadTx = false ↔ _
    unfold after
    rcases makeIntervalIntersectingSlices_run htx hc weak offset with
      ⟨r, hrun, hends⟩ | ⟨e, hrun, hends⟩ | ⟨e, hrun, hends⟩
    · rw [hrun]
      exact iff_of_true rfl hends
    · rw [hrun]
      exact iff_of_true htx hends
    · rw [hrun]
      exact iff_of_false (by simp) hends
  | consumeSlices weakRead weakDrop key q =>
    show (after (consumeSlices weakRead weakDrop key q) m).inReadTx = false ↔
      ∀ offset, Dict.get? m.consumerMarks key = some offset → m.ReadEnds weakRead offset q
    unfold consumeSlices after
    rw [run_get]
    cases Dict.get? m.consumerMarks key with
    | none => exact iff_of_true htx fun _ h => by cases h
    | some offset =>
      simp only [Option.some.injEq, forall_eq']
      rcases makeIntervalIntersectingSlices_run htx hc weakRead offset with
        ⟨r, hrun, hends⟩ | ⟨e, hrun, hends⟩ | ⟨e, hrun, hends⟩
      · rw [run_bind_ok hrun]
        exact iff_of_true (after_discardConsumed_return rfl weakDrop _) hends
      · rw [run_bind_error hrun]
        exact iff_of_true htx hends
      · rw [run_bind_error hrun]
        exact iff_of_false (by simp) hends
  | toStream weak =>
    show (after (toStream weak) m).inReadTx = false ↔ weak = true
    unfold toStream
    cases weak with
    | true =>
      rw [after_bind_error (startTx_weak htx _)]
      exact iff_of_true htx rfl
    | false =>
      rw [after_bind_ok (startTx_run htx _)]
      have hopen : (after (do let m ← get; return m.slices : Op (List Slice))
          { m with inReadTx := true }).inReadTx = true := rfl
      rw [hopen]
      decide

theorem closed_threeSlices :
    (threeSlices.afterRead
      (.makeIntervalIntersectingSlices false 0 ⟨12, 20, true, false⟩)).inReadTx = false :=
  (closed_iff threeSlices (.makeIntervalIntersectingSlices false 0 ⟨12, 20, true, false⟩) rfl
    (by decide : 12 < 2 ^ 64)).mpr (Or.inr (Or.inr ⟨by decide, fun _ _ => by decide⟩))

/-- Printing leaves a transaction open, and so does a read without trimming of two slices the
first of which begins before the interval.  The next read then fails. -/
theorem stays_open :
    (threeSlices.afterRead (.toStream false)).inReadTx = true ∧
      result (makeIntervalIntersectingSlices false 0 ⟨12, 8, false, false⟩) threeSlices =
        .error .assertion ∧
      (threeSlices.afterRead
        (.makeIntervalIntersectingSlices false 0 ⟨12, 8, false, false⟩)).inReadTx = true ∧
      result (startTx false .system) (threeSlices.afterRead
        (.makeIntervalIntersectingSlices false 0 ⟨12, 8, false, false⟩)) =
          .error (.system .busy) := by
  decide +kernel

end IntervalSlicer

end Tagstack
end IntegratedCLI
