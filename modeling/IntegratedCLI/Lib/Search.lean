import Mathlib.Order.Defs.LinearOrder
import Mathlib.Data.Int.DivMod
import Mathlib.Data.List.GetD
import Mathlib.Data.Rat.Floor
import Mathlib.Tactic.Common
import Mathlib.Tactic.Linarith
import Mathlib.Tactic.FieldSimp

/-!
# Searching a list of times

`lowerBound xs t` is the first position of a value that is not before `t`, and
`upperBound xs t` the first of one that is after it; both are the length of the list
when there is none.

A `Grid` is a list of evenly spaced times, given by the first, the distance and how
many there are.  `Grid.prev`, `Grid.next` and `Grid.closest` are what is looked for in
it: the last one not after `t`, the first one not before it, and the nearest, of two
equally near ones the later.  The bounds find `prev` and `next` in the list of the
times, and rounding the quotient finds all three: that is what this file shows, so that
a search and a division can be compared.
-/

section Bounds

variable {α : Type} [LinearOrder α]

def lowerBound (xs : List α) (t : α) : ℕ := xs.findIdx fun x => decide (t ≤ x)

def upperBound (xs : List α) (t : α) : ℕ := xs.findIdx fun x => decide (t < x)

variable {xs : List α} {t : α} {i : ℕ}

theorem lowerBound_eq_length (h : ∀ x ∈ xs, x < t) : lowerBound xs t = xs.length :=
  List.findIdx_eq_length.mpr fun x hx => decide_eq_false (not_le.mpr (h x hx))

theorem lowerBound_eq (hi : i < xs.length) (hat : t ≤ xs[i]) (hbefore : ∀ j (hj : j < i), xs[j] < t) :
    lowerBound xs t = i :=
  (List.findIdx_eq hi).mpr ⟨decide_eq_true hat, fun j hj => decide_eq_false (not_le.mpr (hbefore j hj))⟩

theorem upperBound_eq_length (h : ∀ x ∈ xs, x ≤ t) : upperBound xs t = xs.length :=
  List.findIdx_eq_length.mpr fun x hx => decide_eq_false (not_lt.mpr (h x hx))

theorem upperBound_eq (hi : i < xs.length) (hat : t < xs[i]) (hbefore : ∀ j (hj : j < i), xs[j] ≤ t) :
    upperBound xs t = i :=
  (List.findIdx_eq hi).mpr ⟨decide_eq_true hat, fun j hj => decide_eq_false (not_lt.mpr (hbefore j hj))⟩

theorem lowerBound_le_length : lowerBound xs t ≤ xs.length := List.findIdx_le_length

theorem upperBound_le_length : upperBound xs t ≤ xs.length := List.findIdx_le_length

theorem lt_of_lt_lowerBound (hi : i < xs.length) (h : i < lowerBound xs t) : xs[i] < t :=
  not_le.mp (of_decide_eq_false (List.not_of_lt_findIdx h))

theorem le_of_lt_upperBound (hi : i < xs.length) (h : i < upperBound xs t) : xs[i] ≤ t :=
  not_lt.mp (of_decide_eq_false (List.not_of_lt_findIdx h))

theorem le_of_lowerBound_le (hsorted : xs.Pairwise (· < ·)) (hi : i < xs.length)
    (h : lowerBound xs t ≤ i) : t ≤ xs[i] := by
  have hlt : lowerBound xs t < xs.length := h.trans_lt hi
  have hat : t ≤ xs[lowerBound xs t] := of_decide_eq_true (List.findIdx_getElem (w := hlt))
  rcases Nat.lt_or_eq_of_le h with h | h
  · exact hat.trans (List.pairwise_iff_getElem.mp hsorted _ _ hlt hi h).le
  · simp only [← h]
    exact hat

theorem lt_of_upperBound_le (hsorted : xs.Pairwise (· < ·)) (hi : i < xs.length)
    (h : upperBound xs t ≤ i) : t < xs[i] := by
  have hlt : upperBound xs t < xs.length := h.trans_lt hi
  have hat : t < xs[upperBound xs t] := of_decide_eq_true (List.findIdx_getElem (w := hlt))
  rcases Nat.lt_or_eq_of_le h with h | h
  · exact hat.trans (List.pairwise_iff_getElem.mp hsorted _ _ hlt hi h)
  · simp only [← h]
    exact hat

/-- In a sorted list the bounds say which values are before `t`. -/
theorem getD_lt_iff (hsorted : xs.Pairwise (· < ·)) (hi : i < xs.length) (d : α) :
    xs.getD i d < t ↔ i < lowerBound xs t := by
  rw [List.getD_eq_getElem _ _ hi]
  constructor
  · intro hlt
    by_contra hge
    exact not_le.mpr hlt (le_of_lowerBound_le hsorted hi (not_lt.mp hge))
  · exact lt_of_lt_lowerBound hi

theorem getD_le_iff (hsorted : xs.Pairwise (· < ·)) (hi : i < xs.length) (d : α) :
    xs.getD i d ≤ t ↔ i < upperBound xs t := by
  rw [List.getD_eq_getElem _ _ hi]
  constructor
  · intro hle
    by_contra hge
    exact not_lt.mpr hle (lt_of_upperBound_le hsorted hi (not_lt.mp hge))
  · exact le_of_lt_upperBound hi

theorem getD_lt_getD (hsorted : xs.Pairwise (· < ·)) {j : ℕ} (hij : i < j) (hj : j < xs.length)
    (d : α) : xs.getD i d < xs.getD j d := by
  rw [List.getD_eq_getElem _ _ (hij.trans hj), List.getD_eq_getElem _ _ hj]
  exact List.pairwise_iff_getElem.mp hsorted _ _ _ _ hij

end Bounds

/-- A position among `n` that is found by going on from the first one as long as the gap
to the next is passed. -/
structure Passing (n : ℕ) (passed : ℕ → Prop) (i : ℕ) : Prop where
  lt : i < n
  before : ∀ j < i, passed j
  after : ∀ j, i ≤ j → j + 1 < n → ¬ passed j

/-- Evenly spaced times. -/
structure Grid where
  first : ℤ
  step : ℤ
  count : ℕ
  step_pos : 0 < step

namespace Grid

variable {g : Grid} {t : ℤ} {i j : ℕ}

def time (g : Grid) (i : ℕ) : ℤ := g.first + i * g.step

def times (g : Grid) : List ℤ := (List.range g.count).map g.time

/-- How many whole steps `t` is after the first time. -/
def steps (g : Grid) (t : ℤ) : ℤ := (t - g.first) / g.step

/-- The last time that is not after `t`. -/
def prev (g : Grid) (t : ℤ) : Option ℕ :=
  if t < g.first ∨ g.count = 0 then none else some (min (g.steps t).toNat (g.count - 1))

/-- The first time that is not before `t`. -/
def next (g : Grid) (t : ℤ) : Option ℕ :=
  if g.count = 0 ∨ g.time (g.count - 1) < t then none else some (-((g.first - t) / g.step)).toNat

/-- The time nearest to `t`. -/
def closest (g : Grid) (t : ℤ) : Option ℕ :=
  if g.count = 0 then none
  else some (min ((2 * (t - g.first) + g.step) / (2 * g.step)).toNat (g.count - 1))

@[simp] theorem length_times : g.times.length = g.count := by
  rw [times, List.length_map, List.length_range]

theorem getElem_times (hi : i < g.times.length) : g.times[i] = g.time i := by
  simp only [times, List.getElem_map, List.getElem_range]

theorem time_lt (h : i < j) : g.time i < g.time j := by
  have hlt : (i : ℤ) < j := Int.ofNat_lt.mpr h
  have hstep := mul_lt_mul_of_pos_right hlt g.step_pos
  rw [time, time]
  omega

theorem time_le (h : i ≤ j) : g.time i ≤ g.time j := by
  rcases Nat.lt_or_eq_of_le h with h | h
  · exact (time_lt h).le
  · rw [h]

/-- Where `t` is among the times, counted in whole steps. -/
theorem time_le_iff : g.time i ≤ t ↔ (i : ℤ) ≤ g.steps t := by
  rw [steps, Int.le_ediv_iff_mul_le g.step_pos, time]
  omega

theorem le_time_iff : t ≤ g.time i ↔ -((g.first - t) / g.step) ≤ (i : ℤ) := by
  have h : -(i : ℤ) ≤ (g.first - t) / g.step ↔ -(i : ℤ) * g.step ≤ g.first - t :=
    Int.le_ediv_iff_mul_le g.step_pos
  have hneg : -(i : ℤ) * g.step = -(i * g.step) := Int.neg_mul _ _
  rw [time]
  omega

theorem prev_eq_none : g.prev t = none ↔ g.count = 0 ∨ t < g.first := by
  rw [prev]
  split
  · rename_i h
    exact iff_of_true rfl h.symm
  · rename_i h
    exact iff_of_false (fun h => nomatch h) fun h' => h h'.symm

theorem prev_eq_some (h : g.prev t = some i) :
    i < g.count ∧ g.time i ≤ t ∧ (i + 1 < g.count → t < g.time (i + 1)) := by
  rw [prev] at h
  split at h
  · cases h
  · rename_i hne
    rw [not_or, not_lt] at hne
    have hi : min (g.steps t).toNat (g.count - 1) = i := Option.some.inj h
    have h0 : 0 ≤ g.steps t := Int.ediv_nonneg (by omega) g.step_pos.le
    refine ⟨by omega, time_le_iff.mpr (by omega), fun hlt => ?_⟩
    rw [← not_le, time_le_iff]
    omega

theorem next_eq_none : g.next t = none ↔ g.count = 0 ∨ g.time (g.count - 1) < t := by
  rw [next]
  split
  · rename_i h
    exact iff_of_true rfl h
  · rename_i h
    exact iff_of_false (fun h => nomatch h) h

theorem next_eq_some (h : g.next t = some i) :
    i < g.count ∧ t ≤ g.time i ∧ ∀ j < i, g.time j < t := by
  rw [next] at h
  split at h
  · cases h
  · rename_i hne
    rw [not_or, not_lt, le_time_iff] at hne
    have hi : (-((g.first - t) / g.step)).toNat = i := Option.some.inj h
    refine ⟨by omega, le_time_iff.mpr (by omega), fun j hj => ?_⟩
    rw [← not_le, le_time_iff]
    omega

/-! ## Searching -/

theorem mem_times {x : ℤ} : x ∈ g.times ↔ ∃ i < g.count, g.time i = x := by
  simp only [times, List.mem_map, List.mem_range]

theorem upperBound_of_prev_none (h : g.prev t = none) : upperBound g.times t = 0 := by
  rcases prev_eq_none.mp h with h | h
  · rw [upperBound_eq_length, length_times, h]
    intro x hx
    obtain ⟨i, hi, -⟩ := mem_times.mp hx
    omega
  · by_cases h0 : g.count = 0
    · rw [upperBound_eq_length, length_times, h0]
      intro x hx
      obtain ⟨i, hi, -⟩ := mem_times.mp hx
      omega
    · refine upperBound_eq (by rw [length_times]; omega) ?_ fun j hj => absurd hj (Nat.not_lt_zero j)
      rw [getElem_times, time]
      omega

theorem upperBound_of_prev (h : g.prev t = some i) : upperBound g.times t = i + 1 := by
  obtain ⟨hi, hle, hlt⟩ := prev_eq_some h
  by_cases hlast : i + 1 < g.count
  · refine upperBound_eq (by rwa [length_times]) ?_ fun j hj => ?_
    · rw [getElem_times]
      exact hlt hlast
    · rw [getElem_times]
      exact (time_le (by omega)).trans hle
  · rw [upperBound_eq_length, length_times]
    · omega
    · intro x hx
      obtain ⟨j, hj, rfl⟩ := mem_times.mp hx
      exact (time_le (by omega)).trans hle

theorem lowerBound_of_next_none (h : g.next t = none) : lowerBound g.times t = g.count := by
  rw [lowerBound_eq_length, length_times]
  intro x hx
  obtain ⟨i, hi, rfl⟩ := mem_times.mp hx
  rcases next_eq_none.mp h with h | h
  · omega
  · exact (time_le (by omega)).trans_lt h

theorem lowerBound_of_next (h : g.next t = some i) : lowerBound g.times t = i := by
  obtain ⟨hi, hle, hlt⟩ := next_eq_some h
  refine lowerBound_eq (by rwa [length_times]) ?_ fun j hj => ?_
  · rw [getElem_times]
    exact hle
  · rw [getElem_times]
    exact hlt j hj

/-! ## The nearest of two neighbours -/

theorem time_succ : g.time (i + 1) = g.time i + g.step := by
  rw [time, time, Int.natCast_succ, Int.add_mul, Int.one_mul, Int.add_assoc]

/-- Rounding reaches `i` half a step before the time of `i`. -/
theorem le_rounded_iff :
    (i : ℤ) ≤ (2 * (t - g.first) + g.step) / (2 * g.step) ↔ 2 * g.time i ≤ 2 * t + g.step := by
  have hpos := g.step_pos
  have hmul : (i : ℤ) * (2 * g.step) = 2 * (i * g.step) := Int.mul_left_comm _ _ _
  rw [Int.le_ediv_iff_mul_le (by omega), hmul, time]
  omega

/-- What rounding gives, by the two times it is between. -/
theorem closest_eq_of (hi : i < g.count) (hlow : i = 0 ∨ 2 * g.time i ≤ 2 * t + g.step)
    (hhigh : i + 1 < g.count → 2 * t + g.step < 2 * g.time (i + 1)) : g.closest t = some i := by
  have hle : i = 0 ∨ (i : ℤ) ≤ (2 * (t - g.first) + g.step) / (2 * g.step) :=
    hlow.imp_right le_rounded_iff.mpr
  rw [closest, if_neg (by omega)]
  congr 1
  by_cases hlast : i + 1 < g.count
  · have hlt := hhigh hlast
    rw [← not_le, ← le_rounded_iff] at hlt
    omega
  · omega

theorem closest_of_prev_none (h : g.prev t = none) : g.closest t = g.next t := by
  by_cases h0 : g.count = 0
  · rw [closest, if_pos h0, next, if_pos (.inl h0)]
  · have hlt : t < g.first := (prev_eq_none.mp h).resolve_left h0
    have hfirst : g.time 0 = g.first := by rw [time, Int.natCast_zero, Int.zero_mul, Int.add_zero]
    have hlast : g.time 0 ≤ g.time (g.count - 1) := time_le (Nat.zero_le _)
    have hnext : -((g.first - t) / g.step) ≤ (0 : ℕ) := le_time_iff.mp (by omega)
    rw [closest_eq_of (i := 0) (by omega) (.inl rfl), next, if_neg (by omega)]
    · congr 1
      omega
    · intro _
      rw [time_succ]
      have hpos := g.step_pos
      omega

theorem closest_of_next_none (h : g.next t = none) : g.closest t = g.prev t := by
  by_cases h0 : g.count = 0
  · rw [closest, if_pos h0, prev, if_pos (.inr h0)]
  · have hlt : g.time (g.count - 1) < t := (next_eq_none.mp h).resolve_left h0
    have hpos := g.step_pos
    have hfirst : g.time 0 ≤ g.time (g.count - 1) := time_le (Nat.zero_le _)
    rw [closest_eq_of (i := g.count - 1) (by omega) (.inr (by omega)) (fun h => by omega)]
    cases hp : g.prev t with
    | none =>
      rw [prev_eq_none, ← show g.time 0 = g.first by rw [time]; simp] at hp
      omega
    | some i =>
      obtain ⟨hi, -, hlt'⟩ := prev_eq_some hp
      congr 1
      by_contra hne
      have hle : g.time (i + 1) ≤ g.time (g.count - 1) := time_le (by omega)
      have := hlt' (by omega)
      omega

/-- Two neighbours of a time are the same, or next to each other. -/
theorem next_of_prev (hi : g.prev t = some i) (hj : g.next t = some j) :
    (j = i ∧ t = g.time i) ∨ (j = i + 1 ∧ g.time i < t) := by
  obtain ⟨hi, hle, hlt⟩ := prev_eq_some hi
  obtain ⟨hj, hle', hlt'⟩ := next_eq_some hj
  rcases Nat.lt_trichotomy j i with h | h | h
  · have hji : g.time j < g.time i := time_lt h
    omega
  · rw [h] at hle'
    exact .inl ⟨h, by omega⟩
  · refine .inr ⟨?_, hlt' i h⟩
    by_contra hne
    have hsucc := hlt' (i + 1) (by omega)
    have := hlt (by omega)
    omega

theorem closest_eq (hi : g.prev t = some i) (hj : g.next t = some j) :
    g.closest t = some (if t - g.time i < g.time j - t then i else j) := by
  have hpos := g.step_pos
  obtain ⟨hlti, -, hafter⟩ := prev_eq_some hi
  obtain ⟨hltj, hle, -⟩ := next_eq_some hj
  rcases next_of_prev hi hj with ⟨rfl, rfl⟩ | ⟨rfl, hlt⟩
  · rw [ite_self]
    refine closest_eq_of hltj (.inr (by omega)) fun _ => ?_
    rw [time_succ]
    omega
  · rw [time_succ] at hle ⊢
    split
    · refine closest_eq_of hlti (.inr (by omega)) fun _ => ?_
      rw [time_succ]
      omega
    · refine closest_eq_of hltj (.inr ?_) fun _ => ?_
      · rw [time_succ]
        omega
      · rw [time_succ, time_succ]
        omega

/-! ## Rounding -/

end Grid

/-- The nearest integer, of two equally near ones the one farther from zero. -/
def lround (x : ℚ) : ℤ := if 0 ≤ x then ⌊x + 1 / 2⌋ else ⌈x - 1 / 2⌉

namespace Grid

variable {g : Grid} {t : ℤ}

end Grid
