import Mathlib.Data.List.Infix
import Mathlib.Data.List.TakeWhile
import Mathlib.Tactic.Common

/-!
# The occurrences of a pattern in a text

`find d s` is where a pattern first occurs in a text.  `positions d s` are the places where
it is found when each search goes on behind the last one: the occurrences that do not
overlap, from the left.

What is found in the start of a text is what is found in the text and ends in that start:
`scan_take`.
-/

namespace Occurrences

variable {α : Type*} [DecidableEq α] {d s : List α} {i k n p q : ℕ}

def find (d : List α) : List α → Option ℕ
  | [] => if d = [] then some 0 else none
  | c :: s => if d <+: c :: s then some 0 else (find d s).map (· + 1)

/-- The places in `s` where `d` is found, counted from `i`, where the first `k` characters
belong to an occurrence that was found before. -/
def scan (d : List α) : ℕ → List α → ℕ → List ℕ
  | _, [], _ => []
  | 0, c :: s, i =>
    if d <+: c :: s then i :: scan d (d.length - 1) s (i + 1) else scan d 0 s (i + 1)
  | k + 1, _ :: s, i => scan d k s (i + 1)

def positions (d s : List α) : List ℕ := scan d 0 s 0

/-! ## What is found -/

theorem scan_nil : scan d k [] i = [] := by cases k <;> rfl

/-- The characters that belong to an earlier occurrence are passed over. -/
theorem scan_drop : scan d k s i = scan d 0 (s.drop k) (i + k) := by
  induction s generalizing k i with
  | nil => rw [List.drop_nil, scan_nil, scan_nil]
  | cons c s ih =>
    cases k with
    | zero => rfl
    | succ k => rw [scan, ih, List.drop_succ_cons, Nat.add_right_comm, Nat.add_assoc]

theorem find_le (h : find d s = some p) : p + d.length ≤ s.length := by
  induction s generalizing p with
  | nil =>
    rw [find] at h
    split at h
    · cases h
      rename_i hd
      rw [hd]
      exact Nat.le_refl _
    · cases h
  | cons c s ih =>
    rw [find] at h
    split at h
    · cases h
      rename_i hd
      rw [Nat.zero_add]
      exact hd.length_le
    · obtain ⟨q, hq, rfl⟩ := Option.map_eq_some_iff.mp h
      have hle := ih hq
      rw [List.length_cons]
      omega

/-- The first of the places at which the pattern stands. -/
theorem find_eq_find? (d s : List α) :
    find d s = (List.range (s.length + 1)).find? (d <+: s.drop ·) := by
  induction s with
  | nil =>
    rw [find, List.length_nil, List.range_one, List.find?_singleton, List.drop_nil]
    by_cases hd : d = []
    · rw [if_pos hd, if_pos (by simp [hd])]
    · rw [if_neg hd, if_neg (by simpa using hd)]
  | cons c s ih =>
    rw [find, List.length_cons, List.range_succ_eq_map, List.find?_cons, List.drop_zero]
    by_cases hd : d <+: c :: s
    · rw [if_pos hd, decide_eq_true hd]
    · rw [if_neg hd, decide_eq_false hd, ih, List.find?_map]
      rfl

theorem find_eq_none_iff : find d s = none ↔ ¬ d <:+: s := by
  induction s with
  | nil =>
    rw [find, List.infix_nil]
    split <;> simp_all
  | cons c s ih =>
    rw [find, List.infix_cons_iff]
    by_cases hd : d <+: c :: s
    · simp [hd]
    · simp [hd, ih]

theorem find_append (h : find d s = some p) (t : List α) : find d (s ++ t) = some p := by
  induction s generalizing p with
  | nil =>
    rw [find] at h
    split at h
    · rename_i hd
      cases h
      rw [hd]
      cases t <;> simp [find]
    · cases h
  | cons c s ih =>
    rw [find] at h
    rw [List.cons_append, find]
    split at h
    · rename_i hd
      cases h
      exact if_pos (hd.trans (List.prefix_append (c :: s) t))
    · rename_i hd
      obtain ⟨q, hq, rfl⟩ := Option.map_eq_some_iff.mp h
      have hle := find_le hq
      rw [if_neg, ih hq, Option.map_some]
      intro hat
      refine hd (List.prefix_of_prefix_length_le hat (List.prefix_append (c :: s) t) ?_)
      rw [List.length_cons]
      omega

theorem prefix_drop_of_find (h : find d s = some p) : d <+: s.drop p := by
  rw [find_eq_find?] at h
  simpa using List.find?_some h

/-- The pattern is found where it stands, or before that. -/
theorem find_le_of_prefix_drop (h : d <+: s.drop k) : ∃ p, find d s = some p ∧ p ≤ k := by
  induction s generalizing k with
  | nil =>
    rw [List.drop_nil, List.prefix_nil] at h
    exact ⟨0, if_pos h, Nat.zero_le k⟩
  | cons c s ih =>
    rw [find]
    by_cases hd : d <+: c :: s
    · exact ⟨0, if_pos hd, Nat.zero_le k⟩
    · rw [if_neg hd]
      cases k with
      | zero => exact absurd h hd
      | succ k =>
        obtain ⟨p, hp, hle⟩ := ih h
        exact ⟨p + 1, by rw [hp, Option.map_some], Nat.succ_le_succ hle⟩

/-- The text up to the pattern, the pattern, and what is behind it. -/
theorem split_of_find (h : find d s = some p) :
    s = s.take p ++ (d ++ s.drop (p + d.length)) := by
  have hdrop : s.drop p = d ++ (s.drop p).drop d.length :=
    (List.prefix_iff_eq_append.mp (prefix_drop_of_find h)).symm
  rw [List.drop_drop] at hdrop
  conv_lhs => rw [← List.take_append_drop p s, hdrop]

/-- What is found is found in as much of the text as it needs. -/
theorem find_of_append {t : List α} (h : find d (s ++ t) = some p) (hp : p + d.length ≤ s.length) :
    find d s = some p := by
  induction s generalizing p with
  | nil =>
    rw [List.length_nil, Nat.le_zero, Nat.add_eq_zero_iff, List.length_eq_zero_iff] at hp
    rw [find, if_pos hp.2, hp.1]
  | cons c s ih =>
    rw [List.cons_append, find] at h
    rw [find]
    split at h
    · rename_i hd
      cases h
      rw [if_pos]
      refine List.prefix_of_prefix_length_le hd (List.prefix_append (c :: s) t) ?_
      omega
    · rename_i hd
      obtain ⟨q, hq, rfl⟩ := Option.map_eq_some_iff.mp h
      rw [List.length_cons] at hp
      rw [if_neg fun hat => hd (hat.trans (List.prefix_append (c :: s) t)),
        ih hq (by omega), Option.map_some]

/-- **The places are those of one search after the other.** -/
theorem scan_eq_find (hd : d ≠ []) : scan d 0 s i = match find d s with
    | none => []
    | some p => (i + p) :: scan d 0 (s.drop (p + d.length)) (i + p + d.length) := by
  have hpos : 0 < d.length := List.length_pos_iff.mpr hd
  induction s generalizing i with
  | nil => rw [scan, find, if_neg hd]
  | cons c s ih =>
    rw [scan, find]
    split
    · have hdrop : (c :: s).drop (0 + d.length) = s.drop (d.length - 1) := by
        obtain ⟨m, hm⟩ := Nat.exists_eq_succ_of_ne_zero hpos.ne'
        rw [hm, Nat.zero_add, Nat.succ_sub_one, List.drop_succ_cons]
      have hat : i + 1 + (d.length - 1) = i + 0 + d.length := by omega
      simp only [hdrop, scan_drop (k := d.length - 1), hat, Nat.add_zero]
    · rw [ih]
      cases find d s with
      | none => rfl
      | some p =>
        have hdrop : (c :: s).drop (p + 1 + d.length) = s.drop (p + d.length) := by
          rw [Nat.add_right_comm, List.drop_succ_cons]
        have hat : i + 1 + p = i + (p + 1) := by omega
        simp only [Option.map_some, hdrop, hat]

/-! ## The start of a text -/

theorem le_of_mem_scan (h : q ∈ scan d k s i) : i ≤ q := by
  induction s generalizing k i with
  | nil =>
    rw [scan_nil] at h
    cases h
  | cons c s ih =>
    cases k with
    | zero =>
      rw [scan] at h
      split at h
      · rcases List.mem_cons.mp h with rfl | h
        · exact Nat.le_refl _
        · exact Nat.le_of_succ_le (ih h)
      · exact Nat.le_of_succ_le (ih h)
    | succ k => exact Nat.le_of_succ_le (ih h)

theorem scan_pairwise : (scan d k s i).Pairwise (· < ·) := by
  induction s generalizing k i with
  | nil =>
    rw [scan_nil]
    exact .nil
  | cons c s ih =>
    cases k with
    | zero =>
      rw [scan]
      split
      · exact .cons (fun q hq => le_of_mem_scan hq) ih
      · exact ih
    | succ k => exact ih

/-- Nothing ends before a place from which on everything is found. -/
theorem takeWhile_scan_eq_nil (h : n < i + d.length) :
    (scan d k s i).takeWhile (fun q => q + d.length ≤ n) = [] := by
  rcases hscan : scan d k s i with - | ⟨q, l⟩
  · rfl
  · have hle : i ≤ q := le_of_mem_scan (hscan ▸ List.mem_cons_self)
    exact List.takeWhile_cons_of_neg (by rw [decide_eq_true_eq]; omega)

/-- **In the start of a text those are found that end in it.** -/
theorem scan_take (hd : d ≠ []) :
    scan d k (s.take n) i = (scan d k s i).takeWhile fun q => q + d.length ≤ i + n := by
  have hpos : 0 < d.length := List.length_pos_iff.mpr hd
  induction s generalizing k i n with
  | nil => rw [List.take_nil, scan_nil, List.takeWhile_nil]
  | cons c s ih =>
    cases n with
    | zero => rw [List.take_zero, scan_nil, takeWhile_scan_eq_nil (by omega)]
    | succ n =>
      have hcount : ∀ k, scan d k (s.take n) (i + 1)
          = (scan d k s (i + 1)).takeWhile fun q => q + d.length ≤ i + (n + 1) := fun k => by
        rw [ih, Nat.add_right_comm, Nat.add_assoc]
      cases k with
      | succ k => exact hcount k
      | zero =>
        rw [List.take_succ_cons, scan, scan, ← List.take_succ_cons]
        by_cases hoccurs : d <+: c :: s
        · rw [if_pos hoccurs]
          by_cases hlen : d.length ≤ n + 1
          · have htake : d <+: (c :: s).take (n + 1) :=
              List.prefix_take_iff.mpr ⟨hoccurs, hlen⟩
            rw [if_pos htake, List.takeWhile_cons_of_pos (by rw [decide_eq_true_eq]; omega),
              hcount]
          · have htake : ¬ d <+: (c :: s).take (n + 1) := fun h =>
              hlen (List.prefix_take_iff.mp h).2
            rw [if_neg htake, hcount, takeWhile_scan_eq_nil (by omega),
              List.takeWhile_cons_of_neg (by rw [decide_eq_true_eq]; omega)]
        · have htake : ¬ d <+: (c :: s).take (n + 1) := fun h =>
            hoccurs (List.prefix_take_iff.mp h).1
          rw [if_neg hoccurs, if_neg htake, hcount]

theorem positions_take (hd : d ≠ []) :
    positions d (s.take n) = (positions d s).takeWhile fun q => q + d.length ≤ n := by
  rw [positions, scan_take hd, Nat.zero_add]
  rfl

theorem positions_end (hd : d ≠ []) (h : q ∈ positions d s) : q + d.length ≤ s.length := by
  have htake := positions_take (s := s) (n := s.length) hd
  rw [List.take_length] at htake
  rw [htake] at h
  have hend := List.mem_takeWhile_imp h
  rwa [decide_eq_true_eq] at hend

omit [DecidableEq α] in
/-- A value at its position is kept where those before it are kept with it. -/
theorem getElem?_takeWhile {l : List α} {P : α → Bool}
    (h : l.Pairwise fun a b => P b = true → P a = true) :
    (l.takeWhile P)[k]? = (l[k]?).filter P := by
  induction l generalizing k with
  | nil => rfl
  | cons a l ih =>
    have hl := List.pairwise_cons.mp h
    by_cases ha : P a = true
    · rw [List.takeWhile_cons_of_pos ha]
      cases k with
      | zero => exact (Option.filter_some_eq_some.mpr ha).symm
      | succ k => exact ih hl.2
    · rw [List.takeWhile_cons_of_neg ha]
      cases k with
      | zero => exact (Option.filter_some_eq_none.mpr ha).symm
      | succ k =>
        rw [List.getElem?_cons_succ]
        rcases hk : l[k]? with - | b
        · rfl
        · have hb : ¬ P b = true := fun hb => ha (hl.1 b (List.mem_of_getElem? hk) hb)
          exact (Option.filter_some_eq_none.mpr hb).symm

/-- What is found at some count in the start of a text is what is found at that count in the
text, if it ends there. -/
theorem getElem?_positions_take (hd : d ≠ []) :
    (positions d (s.take n))[k]?
      = ((positions d s)[k]?).filter fun q => q + d.length ≤ n := by
  rw [positions_take hd]
  refine getElem?_takeWhile (scan_pairwise.imp fun hlt hle => ?_)
  rw [decide_eq_true_eq] at hle ⊢
  omega

end Occurrences
