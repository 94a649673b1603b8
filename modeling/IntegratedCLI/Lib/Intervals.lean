import Mathlib.Algebra.BigOperators.Group.List.Basic
import Mathlib.Algebra.GroupWithZero.Nat
import Mathlib.Data.List.Pairwise
import Mathlib.Order.Lattice

/-!
# Lists of disjoint intervals

A list of things that each take up an interval of numbers, from `start` up to `stop`,
one after the other and possibly with gaps between them.

* `overlap start stop a b x` is how much of the interval of `x` is in the one from `a`
  to `b`; the overlaps of a list are no more than the interval (`sum_overlap_le`), and
  all of it if the list covers it (`le_sum_overlap`).
* `Covers start stop a b xs` says that the intervals leave no gap between `a` and `b`,
  and `covers_iff_contiguous` how a loop over the list sees that.
-/

namespace Intervals

variable {ι : Type*} {start stop : ι → ℕ} {xs : List ι} {x : ι} {a b : ℕ}

/-! ## A first part of a list -/

section Parts

variable {q : ι → Bool}

theorem takeWhile_eq_filter (h : xs.Pairwise fun x y => q y = true → q x = true) :
    xs.takeWhile q = xs.filter q := by
  induction xs with
  | nil => rfl
  | cons x xs ih =>
    rw [List.pairwise_cons] at h
    cases hx : q x with
    | true => rw [List.takeWhile_cons_of_pos hx, List.filter_cons_of_pos hx, ih h.2]
    | false =>
      have hnone : xs.filter q = [] := by
        refine List.filter_eq_nil_iff.mpr fun y hy hq => ?_
        simp [h.1 y hy hq] at hx
      rw [List.takeWhile_cons_of_neg (by simp [hx]), List.filter_cons_of_neg (by simp [hx]), hnone]

theorem dropWhile_eq_filter (h : xs.Pairwise fun x y => q y = true → q x = true) :
    xs.dropWhile q = xs.filter fun x => !q x := by
  induction xs with
  | nil => rfl
  | cons x xs ih =>
    rw [List.pairwise_cons] at h
    cases hx : q x with
    | true => rw [List.dropWhile_cons_of_pos hx, List.filter_cons_of_neg (by simp [hx]), ih h.2]
    | false =>
      have hall : (xs.filter fun y => !q y) = xs := by
        refine List.filter_eq_self.mpr fun y hy => ?_
        cases hq : q y with
        | true => simp [h.1 y hy hq] at hx
        | false => rfl
      rw [List.dropWhile_cons_of_neg (by simp [hx]), List.filter_cons_of_pos (by simp [hx]), hall]

/-- What holds of a first part of a list holds at the positions up to how often it does. -/
theorem lt_countP_iff (h : xs.Pairwise fun x y => q y = true → q x = true) {i : ℕ}
    (hi : xs[i]? = some x) : i < xs.countP q ↔ q x = true := by
  induction xs generalizing i with
  | nil => simp at hi
  | cons y xs ih =>
    rw [List.pairwise_cons] at h
    cases hy : q y with
    | true =>
      rw [List.countP_cons_of_pos hy]
      cases i with
      | zero =>
        cases hi
        simp [hy]
      | succ i => rw [Nat.add_lt_add_iff_right, ih h.2 (by simpa using hi)]
    | false =>
      have hnone : ∀ z ∈ y :: xs, q z = false := by
        intro z hz
        rcases List.mem_cons.mp hz with rfl | hz
        · exact hy
        · exact Bool.eq_false_iff.mpr fun hq => Bool.eq_false_iff.mp hy (h.1 z hz hq)
      have hzero : (y :: xs).countP q = 0 := List.countP_eq_zero.mpr fun z hz => by
        simp [hnone z hz]
      simp [hzero, hnone x (List.mem_of_getElem? hi)]

/-- What holds exactly at the positions before `k` holds `k` times. -/
theorem countP_eq_of_lt_iff {k : ℕ} (hk : k ≤ xs.length)
    (h : ∀ i x, xs[i]? = some x → (q x = true ↔ i < k)) : xs.countP q = k := by
  induction xs generalizing k with
  | nil => exact (Nat.le_zero.mp hk).symm
  | cons y xs ih =>
    have hrest : ∀ k', (∀ i, i < k' ↔ i + 1 < k) → k' ≤ xs.length → xs.countP q = k' :=
      fun k' hk' hle => ih hle fun i x hi => (h (i + 1) x (by simpa using hi)).trans (hk' i).symm
    have hy := h 0 y rfl
    cases k with
    | zero =>
      rw [List.countP_cons_of_neg (by simp [hy])]
      exact hrest 0 (by simp) (Nat.zero_le _)
    | succ k =>
      rw [List.countP_cons_of_pos (hy.mpr (Nat.succ_pos k)),
        hrest k (fun i => by omega) (Nat.le_of_succ_le_succ hk)]

/-- How often something holds before a position, if it holds from another one on. -/
theorem countP_take_eq_sub {i k : ℕ} (hi : i ≤ xs.length)
    (h : ∀ j x, j < i → xs[j]? = some x → (q x = true ↔ k ≤ j)) :
    (xs.take i).countP q = i - k := by
  induction i with
  | zero => simp
  | succ i ih =>
    have hget : xs[i]? = some xs[i] := List.getElem?_eq_getElem hi
    have hx := h i xs[i] (Nat.lt_succ_self i) hget
    rw [List.take_add_one, hget, List.countP_append,
      ih (Nat.le_of_succ_le hi) fun j x hj => h j x (hj.trans (Nat.lt_succ_self i))]
    by_cases hk : k ≤ i
    · simp [hx.mpr hk]
      omega
    · simp [hk] at hx
      simp [hx]
      omega

end Parts

/-! ## Intervals in order -/

variable (start stop) in
/-- The intervals are not empty, and each one begins after the ones before it. -/
structure Ordered (xs : List ι) : Prop where
  pos : ∀ x ∈ xs, start x < stop x
  apart : xs.Pairwise fun x y => stop x ≤ start y

theorem Ordered.of_cons (h : Ordered start stop (x :: xs)) : Ordered start stop xs :=
  ⟨fun y hy => h.pos y (List.mem_cons_of_mem x hy), (List.pairwise_cons.mp h.apart).2⟩

theorem Ordered.head_lt (h : Ordered start stop (x :: xs)) : start x < stop x :=
  h.pos x List.mem_cons_self

theorem Ordered.head_le (h : Ordered start stop (x :: xs)) {y : ι} (hy : y ∈ xs) :
    stop x ≤ start y := (List.pairwise_cons.mp h.apart).1 y hy

theorem Ordered.sublist {ys : List ι} (h : Ordered start stop xs) (hs : ys.Sublist xs) :
    Ordered start stop ys :=
  ⟨fun x hx => h.pos x (hs.subset hx), h.apart.sublist hs⟩

/-! ## Overlaps -/

variable (start stop) in
/-- How much of the interval is between `a` and `b`. -/
def overlap (a b : ℕ) (x : ι) : ℕ := min b (stop x) - max a (start x)

theorem overlap_congr {a' : ℕ} (ha : a ≤ a') (hx : a' ≤ start x) :
    overlap start stop a' b x = overlap start stop a b x := by
  unfold overlap
  omega

/-- What a list overlaps is no more than there is. -/
theorem sum_overlap_le (h : Ordered start stop xs) :
    (xs.map (overlap start stop a b)).sum ≤ b - a := by
  induction xs generalizing a with
  | nil => exact Nat.zero_le _
  | cons x xs ih =>
    have hpos := h.head_lt
    by_cases hx : stop x ≤ a
    · have hnone : overlap start stop a b x = 0 := by
        unfold overlap
        omega
      rw [List.map_cons, List.sum_cons, hnone, Nat.zero_add]
      exact ih h.of_cons
    · have hrest : xs.map (overlap start stop a b) = xs.map (overlap start stop (stop x) b) :=
        List.map_congr_left fun y hy => (overlap_congr (by omega) (h.head_le hy)).symm
      have hle := ih (a := stop x) h.of_cons
      rw [List.map_cons, List.sum_cons, hrest]
      unfold overlap at hle ⊢
      omega

/-! ## Covering -/

variable (start stop) in
/-- Everything between `a` and `b` is in one of the intervals. -/
def Covers (a b : ℕ) (xs : List ι) : Prop :=
  ∀ t, a ≤ t → t < b → ∃ x ∈ xs, start x ≤ t ∧ t < stop x

theorem covers_nil : Covers start stop a b [] ↔ b ≤ a := by
  constructor
  · intro h
    by_contra hlt
    obtain ⟨x, hx, -⟩ := h a le_rfl (Nat.lt_of_not_le hlt)
    cases hx
  · intro h t ha hb
    omega

/-- A list covers what its first interval does not cover with the other ones. -/
theorem covers_cons (h : Ordered start stop (x :: xs)) (ha : a ≤ stop x) (hab : a < b) :
    Covers start stop a b (x :: xs) ↔ start x ≤ a ∧ Covers start stop (stop x) b xs := by
  have hpos := h.head_lt
  constructor
  · intro hc
    refine ⟨?_, fun t hx hb => ?_⟩
    · obtain ⟨y, hy, hle, -⟩ := hc a le_rfl hab
      rcases List.mem_cons.mp hy with rfl | hy
      · exact hle
      · have hlater := h.head_le hy
        omega
    · obtain ⟨y, hy, hin⟩ := hc t (ha.trans hx) hb
      rcases List.mem_cons.mp hy with rfl | hy
      · omega
      · exact ⟨y, hy, hin⟩
  · rintro ⟨hle, hc⟩ t hta htb
    by_cases hx : t < stop x
    · exact ⟨x, List.mem_cons_self, hle.trans hta, hx⟩
    · obtain ⟨y, hy, hin⟩ := hc t (Nat.le_of_not_lt hx) htb
      exact ⟨y, List.mem_cons_of_mem x hy, hin⟩

/-- What a list covers it overlaps. -/
theorem le_sum_overlap (h : Ordered start stop xs) (hc : Covers start stop a b xs) :
    b - a ≤ (xs.map (overlap start stop a b)).sum := by
  induction xs generalizing a with
  | nil =>
    have hle := covers_nil.mp hc
    omega
  | cons x xs ih =>
    rw [List.map_cons, List.sum_cons]
    by_cases hab : a < b
    · by_cases hx : stop x ≤ a
      · have hrest : Covers start stop a b xs := by
          intro t hta htb
          obtain ⟨y, hy, hin⟩ := hc t hta htb
          rcases List.mem_cons.mp hy with rfl | hy
          · omega
          · exact ⟨y, hy, hin⟩
        exact (ih h.of_cons hrest).trans (Nat.le_add_left _ _)
      · obtain ⟨hstart, hrest⟩ := (covers_cons h (by omega) hab).mp hc
        have hsame : xs.map (overlap start stop a b) = xs.map (overlap start stop (stop x) b) :=
          List.map_congr_left fun y hy => (overlap_congr (by omega) (h.head_le hy)).symm
        have hle := ih h.of_cons hrest
        rw [hsame]
        unfold overlap at hle ⊢
        omega
    · omega

/-! ## Without gaps -/

variable (start stop) in
/-- Each interval begins where the one before it ends, and the first one at `a`. -/
def Contiguous : ℕ → List ι → Prop
  | _, [] => True
  | a, x :: xs => start x = a ∧ Contiguous (stop x) xs

variable (start stop) in
instance decidableContiguous : ∀ (a : ℕ) (xs : List ι), Decidable (Contiguous start stop a xs)
  | _, [] => inferInstanceAs (Decidable True)
  | a, x :: xs =>
    have := decidableContiguous (stop x) xs
    inferInstanceAs (Decidable (start x = a ∧ Contiguous start stop (stop x) xs))

variable (stop) in
/-- Where the last interval ends. -/
def stopOf (a : ℕ) (xs : List ι) : ℕ := xs.getLast?.elim a stop

theorem stopOf_cons : stopOf stop a (x :: xs) = stopOf stop (stop x) xs := by
  cases xs with
  | nil => rfl
  | cons y ys =>
    have hlast : (y :: ys).getLast? = some ((y :: ys).getLast (List.cons_ne_nil y ys)) :=
      List.getLast?_eq_some_getLast _
    rw [stopOf, stopOf, List.getLast?_cons_cons, hlast]
    rfl

theorem contiguous_congr {stop' : ι → ℕ} (h : ∀ x ∈ xs, stop x = stop' x) :
    Contiguous start stop a xs ↔ Contiguous start stop' a xs := by
  induction xs generalizing a with
  | nil => exact Iff.rfl
  | cons x xs ih =>
    rw [Contiguous, Contiguous, h x List.mem_cons_self,
      ih fun y hy => h y (List.mem_cons_of_mem x hy)]

theorem stopOf_congr {stop' : ι → ℕ} (h : ∀ x ∈ xs, stop x = stop' x) :
    stopOf stop a xs = stopOf stop' a xs := by
  unfold stopOf
  cases hlast : xs.getLast? with
  | none => rfl
  | some x => exact h x (List.mem_of_getLast? hlast)

/-- Intervals that begin between `a` and `b` cover what is between these if there is no gap
and the last one goes on to `b`. -/
theorem covers_iff_contiguous (h : Ordered start stop xs) (ha : ∀ x ∈ xs, a ≤ start x)
    (hb : ∀ x ∈ xs, start x < b) :
    Covers start stop a b xs ↔ Contiguous start stop a xs ∧ b ≤ stopOf stop a xs := by
  induction xs generalizing a with
  | nil => simp [covers_nil, Contiguous, stopOf]
  | cons x xs ih =>
    have hx := ha x List.mem_cons_self
    have hxb := hb x List.mem_cons_self
    have hpos := h.head_lt
    rw [covers_cons h (by omega) (by omega), stopOf_cons, Contiguous, and_assoc,
      ih h.of_cons (fun y hy => h.head_le hy) fun y hy => hb y (List.mem_cons_of_mem x hy)]
    exact and_congr_left fun _ => ⟨fun hle => Nat.le_antisymm hle hx, fun heq => heq.le⟩

end Intervals
