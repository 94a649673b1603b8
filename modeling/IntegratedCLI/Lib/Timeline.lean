import Mathlib.Algebra.BigOperators.Group.Finset.Basic
import Mathlib.Algebra.BigOperators.Group.Finset.Piecewise
import Mathlib.Algebra.GroupWithZero.Nat
import Mathlib.Data.List.Chain
import Mathlib.Logic.Function.Basic
import Mathlib.Order.Lattice

/-!
# Timelines

Several lanes, each of which is occupied by at most one owner at a time.  A lane
has the list of the spans that are over, and the span that is open, if one is.

Time moves forward and a lane changes hands in one of four ways
(`Timeline.Step`): nothing happens; every open span is dropped; the open span of
one lane ends and then every open span is dropped; the open span of one lane ends
and another begins at the same time.

* `Timeline.Sound` is what holds of every timeline reached this way: the spans of
  a lane have a positive length, are in order and do not overlap.
* `Timeline.Since` says that the spans a lane has gained since some point leave
  no gaps.  It is kept by every step that drops nothing.
* `Timeline.time` is the time an owner has had, over a set of lanes.
-/

/-- A span of time that has one owner. -/
structure Span (ι : Type*) where
  start : ℕ
  stop : ℕ
  owner : ι

/-- Lanes indexed by `γ`, with owners from `ι`. -/
structure Timeline (γ ι : Type*) where
  closed : γ → List (Span ι)
  opened : γ → Option (ℕ × ι)

namespace Timeline

variable {γ ι : Type*} [DecidableEq γ]

/-- Drop every open span. -/
def reset (t : Timeline γ ι) : Timeline γ ι := { t with opened := fun _ => none }

/-- The spans of a lane after its open span has ended.  A span that took no time
leaves no trace. -/
def finish (spans : List (Span ι)) (now : ℕ) : Option (ℕ × ι) → List (Span ι)
  | none => spans
  | some (start, i) => if start < now then spans ++ [⟨start, now, i⟩] else spans

@[simp] theorem finish_none (spans : List (Span ι)) (now : ℕ) : finish spans now none = spans := rfl

theorem finish_of_lt (spans : List (Span ι)) {start now : ℕ} (i : ι) (h : start < now) :
    finish spans now (some (start, i)) = spans ++ [⟨start, now, i⟩] := if_pos h

theorem finish_of_not_lt (spans : List (Span ι)) {start now : ℕ} (i : ι) (h : ¬ start < now) :
    finish spans now (some (start, i)) = spans := if_neg h

/-- End the open span of a lane. -/
def close (t : Timeline γ ι) (g : γ) (now : ℕ) : Timeline γ ι :=
  ⟨Function.update t.closed g (finish (t.closed g) now (t.opened g)),
    Function.update t.opened g none⟩

/-- Begin a span on a lane. -/
def begin (t : Timeline γ ι) (g : γ) (now : ℕ) (i : ι) : Timeline γ ι :=
  { t with opened := Function.update t.opened g (some (now, i)) }

/-- What can happen at one time.  The index says whether open spans are
dropped. -/
inductive Step (now : ℕ) : Bool → Timeline γ ι → Timeline γ ι → Prop where
  | idle (t) : Step now false t t
  | reset (t) : Step now true t t.reset
  | drop (t g) : Step now true t (t.close g now).reset
  | switch (t g i) : Step now false t ((t.close g now).begin g now i)

@[simp] theorem close_closed_self (t : Timeline γ ι) (g : γ) (now : ℕ) :
    (t.close g now).closed g = finish (t.closed g) now (t.opened g) := by
  simp [close]

theorem close_closed_of_ne (t : Timeline γ ι) {g k : γ} (now : ℕ) (h : k ≠ g) :
    (t.close g now).closed k = t.closed k := by
  simp [close, h]

@[simp] theorem close_opened_self (t : Timeline γ ι) (g : γ) (now : ℕ) :
    (t.close g now).opened g = none := by
  simp [close]

theorem close_opened_of_ne (t : Timeline γ ι) {g k : γ} (now : ℕ) (h : k ≠ g) :
    (t.close g now).opened k = t.opened k := by
  simp [close, h]

/-- Closing a lane that has no open span changes nothing. -/
theorem close_of_opened_none {t : Timeline γ ι} {g : γ} (now : ℕ) (h : t.opened g = none) :
    t.close g now = t := by
  have hclosed : Function.update t.closed g (finish (t.closed g) now (t.opened g)) = t.closed := by
    rw [h, finish_none, Function.update_eq_self]
  have hopened : Function.update t.opened g none = t.opened := by
    rw [← h, Function.update_eq_self]
  rw [close, hclosed, hopened]

@[simp] theorem begin_closed (t : Timeline γ ι) (g : γ) (now : ℕ) (i : ι) :
    (t.begin g now i).closed = t.closed := rfl

@[simp] theorem begin_opened_self (t : Timeline γ ι) (g : γ) (now : ℕ) (i : ι) :
    (t.begin g now i).opened g = some (now, i) := by
  simp [begin]

theorem begin_opened_of_ne (t : Timeline γ ι) {g k : γ} (now : ℕ) (i : ι) (h : k ≠ g) :
    (t.begin g now i).opened k = t.opened k := by
  simp [begin, h]

omit [DecidableEq γ] in
@[simp] theorem reset_closed (t : Timeline γ ι) : t.reset.closed = t.closed := rfl

omit [DecidableEq γ] in
@[simp] theorem reset_opened (t : Timeline γ ι) (g : γ) : t.reset.opened g = none := rfl

/-! ## Order -/

/-- The time up to which a lane is settled: where its open span began, or now. -/
def settled (now : ℕ) : Option (ℕ × ι) → ℕ
  | none => now
  | some (start, _) => start

/-- The spans of one lane are in order and over by the time it is settled up to. -/
structure SoundLane (now : ℕ) (spans : List (Span ι)) (opened : Option (ℕ × ι)) : Prop where
  positive : ∀ s ∈ spans, s.start < s.stop
  sorted : spans.Pairwise fun a b => a.stop ≤ b.start
  ended : ∀ s ∈ spans, s.stop ≤ settled now opened
  begun : settled now opened ≤ now

/-- What holds of every timeline at the time `now`. -/
def Sound (now : ℕ) (t : Timeline γ ι) : Prop :=
  ∀ g, SoundLane now (t.closed g) (t.opened g)

variable {now now' : ℕ} {t t' : Timeline γ ι} {spans : List (Span ι)} {o : Option (ℕ × ι)}

theorem SoundLane.mono (h : SoundLane now spans o) (hle : now ≤ now') :
    SoundLane now' spans o := by
  refine ⟨h.positive, h.sorted, fun s hs => ?_, ?_⟩
  · cases o with
    | none => exact (h.ended s hs).trans hle
    | some p => exact h.ended s hs
  · cases o with
    | none => exact le_rfl
    | some p => exact h.begun.trans hle

theorem SoundLane.drop (h : SoundLane now spans o) : SoundLane now spans none :=
  ⟨h.positive, h.sorted, fun s hs => (h.ended s hs).trans h.begun, le_rfl⟩

theorem SoundLane.finish (h : SoundLane now spans o) :
    SoundLane now (finish spans now o) none := by
  cases o with
  | none => exact h
  | some p =>
    obtain ⟨start, i⟩ := p
    by_cases hlt : start < now
    · rw [finish_of_lt spans i hlt]
      refine ⟨fun s hs => ?_, ?_, fun s hs => ?_, le_rfl⟩
      · rcases List.mem_append.mp hs with hs | hs
        · exact h.positive s hs
        · rw [List.mem_singleton.mp hs]
          exact hlt
      · rw [List.pairwise_append]
        refine ⟨h.sorted, List.pairwise_singleton _ _, fun a ha b hb => ?_⟩
        rw [List.mem_singleton.mp hb]
        exact h.ended a ha
      · rcases List.mem_append.mp hs with hs | hs
        · exact (h.ended s hs).trans h.begun
        · rw [List.mem_singleton.mp hs]
          exact le_rfl
    · rw [finish_of_not_lt spans i hlt]
      exact h.drop

theorem SoundLane.begin (h : SoundLane now spans none) (i : ι) :
    SoundLane now spans (some (now, i)) :=
  ⟨h.positive, h.sorted, h.ended, le_rfl⟩

omit [DecidableEq γ] in
theorem Sound.mono (h : Sound now t) (hle : now ≤ now') : Sound now' t :=
  fun g => (h g).mono hle

theorem Sound.close (h : Sound now t) (g : γ) : Sound now (t.close g now) := by
  intro k
  by_cases hk : k = g
  · rw [hk, close_closed_self, close_opened_self]
    exact (h g).finish
  · rw [close_closed_of_ne t now hk, close_opened_of_ne t now hk]
    exact h k

omit [DecidableEq γ] in
theorem Sound.reset (h : Sound now t) : Sound now t.reset := fun g => (h g).drop

/-- A step keeps a timeline sound. -/
theorem Sound.step {cut : Bool} (h : Sound now t) (hstep : Step now cut t t') :
    Sound now t' := by
  cases hstep with
  | idle => exact h
  | reset => exact h.reset
  | drop _ g => exact (h.close g).reset
  | switch _ g i =>
    intro k
    rw [begin_closed]
    by_cases hk : k = g
    · rw [hk, begin_opened_self]
      have hclosed := h.close g g
      rw [close_opened_self] at hclosed
      exact hclosed.begin i
    · rw [begin_opened_of_ne _ now i hk]
      exact h.close g k

/-! ## Contiguity -/

/-- Of the spans a lane has gained since it had `base` of them, each begins where
the one before ended, and the open one where the last ended. -/
structure SinceLane (base : ℕ) (spans : List (Span ι)) (opened : Option (ℕ × ι)) : Prop where
  base_le : base ≤ spans.length
  chain : (spans.drop base).IsChain fun a b => a.stop = b.start
  closed : opened = none → spans.drop base = []
  opened : ∀ start i, opened = some (start, i) →
    ∀ s ∈ (spans.drop base).getLast?, s.stop = start

/-- No lane has gaps among the spans it has gained since it had `base` of them. -/
def Since (base : γ → ℕ) (t : Timeline γ ι) : Prop :=
  ∀ g, SinceLane (base g) (t.closed g) (t.opened g)

omit [DecidableEq γ] in
theorem since_self (t : Timeline γ ι) : Since (fun g => (t.closed g).length) t := by
  intro g
  have hdrop : (t.closed g).drop (t.closed g).length = [] := by simp
  refine ⟨le_rfl, ?_, fun _ => hdrop, fun start i _ s hs => ?_⟩
  · rw [hdrop]
    exact List.isChain_nil
  · rw [hdrop] at hs
    simp at hs

theorem SinceLane.switch {base : ℕ} (h : SinceLane base spans o) (i : ι)
    (hbegun : settled now o ≤ now) :
    SinceLane base (finish spans now o) (some (now, i)) := by
  cases o with
  | none =>
    have hdrop : spans.drop base = [] := h.closed rfl
    refine ⟨h.base_le, h.chain, by simp, fun start j _ s hs => ?_⟩
    rw [finish, hdrop] at hs
    simp at hs
  | some p =>
    obtain ⟨start, j⟩ := p
    have hlast := h.opened start j rfl
    by_cases hlt : start < now
    · rw [finish_of_lt spans j hlt]
      have hdrop : (spans ++ [(⟨start, now, j⟩ : Span ι)]).drop base =
          spans.drop base ++ [⟨start, now, j⟩] :=
        List.drop_append_of_le_length h.base_le
      have hlen : base ≤ (spans ++ [(⟨start, now, j⟩ : Span ι)]).length := by
        rw [List.length_append]
        exact h.base_le.trans (Nat.le_add_right _ _)
      refine ⟨hlen, ?_, by simp, fun start' i' heq s hs => ?_⟩
      · rw [hdrop, List.isChain_append]
        refine ⟨h.chain, List.isChain_singleton _, fun a ha b hb => ?_⟩
        simp only [List.head?_cons, Option.mem_some_iff] at hb
        rw [← hb]
        exact hlast a ha
      · rw [hdrop] at hs
        simp only [List.getLast?_append, List.getLast?_singleton, Option.some_or,
          Option.mem_some_iff] at hs
        simp only [Option.some.injEq, Prod.mk.injEq] at heq
        rw [← hs, ← heq.1]
    · rw [finish_of_not_lt spans j hlt]
      have hnow : start = now := le_antisymm hbegun (Nat.le_of_not_lt hlt)
      refine ⟨h.base_le, h.chain, by simp, fun start' i' heq s hs => ?_⟩
      simp only [Option.some.injEq, Prod.mk.injEq] at heq
      rw [hlast s hs, hnow]
      exact heq.1

/-- A step that drops nothing leaves no gap. -/
theorem Since.step {base : γ → ℕ} (h : Since base t) (hsound : Sound now t)
    (hstep : Step now false t t') : Since base t' := by
  cases hstep with
  | idle => exact h
  | switch _ g i =>
    intro k
    rw [begin_closed]
    by_cases hk : k = g
    · rw [hk, begin_opened_self, close_closed_self]
      exact (h g).switch i (hsound g).begun
    · rw [begin_opened_of_ne _ now i hk, close_closed_of_ne t now hk,
        close_opened_of_ne t now hk]
      exact h k

/-! ## Totals -/

variable [DecidableEq ι]

/-- The time an owner has in a list of spans. -/
def laneTime (spans : List (Span ι)) (i : ι) : ℕ :=
  ((spans.filter fun s => s.owner = i).map fun s => s.stop - s.start).sum

/-- The time an owner has had over a set of lanes. -/
def time (lanes : Finset γ) (t : Timeline γ ι) (i : ι) : ℕ :=
  ∑ g ∈ lanes, laneTime (t.closed g) i

theorem laneTime_append (l₁ l₂ : List (Span ι)) (i : ι) :
    laneTime (l₁ ++ l₂) i = laneTime l₁ i + laneTime l₂ i := by
  simp [laneTime]

/-- The time an open span adds when it ends. -/
def openTime (now : ℕ) (o : Option (ℕ × ι)) (i : ι) : ℕ :=
  match o with
  | none => 0
  | some (start, j) => if j = i then now - start else 0

theorem laneTime_finish (spans : List (Span ι)) (now : ℕ) (o : Option (ℕ × ι)) (i : ι) :
    laneTime (finish spans now o) i = laneTime spans i + openTime now o i := by
  cases o with
  | none => simp [finish, openTime]
  | some p =>
    obtain ⟨start, j⟩ := p
    by_cases hlt : start < now
    · rw [finish_of_lt spans j hlt, laneTime_append]
      by_cases hj : j = i <;> simp [laneTime, openTime, hj]
    · have hzero : now - start = 0 := Nat.sub_eq_zero_of_le (Nat.le_of_not_lt hlt)
      simp [finish_of_not_lt spans j hlt, openTime, hzero]

theorem time_close {lanes : Finset γ} (t : Timeline γ ι) {g : γ} (hg : g ∈ lanes) (now : ℕ)
    (i : ι) : time lanes (t.close g now) i = time lanes t i + openTime now (t.opened g) i := by
  unfold time
  rw [← Finset.add_sum_erase lanes _ hg, ← Finset.add_sum_erase lanes _ hg, close_closed_self,
    laneTime_finish]
  have hrest : ∀ k ∈ lanes.erase g,
      laneTime ((t.close g now).closed k) i = laneTime (t.closed k) i := by
    intro k hk
    rw [close_closed_of_ne t now (Finset.ne_of_mem_erase hk)]
  rw [Finset.sum_congr rfl hrest]
  ac_rfl

theorem laneTime_eq_zero {spans : List (Span ι)} {i : ι} (h : ∀ s ∈ spans, s.owner ≠ i) :
    laneTime spans i = 0 := by
  have hnil : (spans.filter fun s => s.owner = i) = [] :=
    List.filter_eq_nil_iff.mpr fun s hs => by simpa using h s hs
  rw [laneTime, hnil]
  rfl

omit [DecidableEq γ] in
theorem time_eq_zero {lanes : Finset γ} {t : Timeline γ ι} {i : ι}
    (h : ∀ g, ∀ s ∈ t.closed g, s.owner ≠ i) : time lanes t i = 0 :=
  Finset.sum_eq_zero fun g _ => laneTime_eq_zero (h g)

end Timeline
