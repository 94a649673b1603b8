import Mathlib.Algebra.GroupWithZero.Nat
import Mathlib.Data.List.Basic
import Mathlib.Tactic.Common

/-!
# Lists written at a position

What is in a list after one position was changed or erased: the other elements
are still there, and nothing is new but what was written.
-/

namespace Positions

variable {α : Type} {l : List α} {i j : ℕ} {f : α → α} {x y : α}

theorem getElem?_modify (l : List α) (f : α → α) (i j : ℕ) :
    (l.modify i f)[j]? = if i = j then l[j]?.map f else l[j]? := by
  rw [List.getElem?_modify]
  split
  · simp
  · simp

/-- What the change leaves as it was is the same at every position. -/
theorem map_modify {β : Type} {g : α → β} (h : ∀ y, g (f y) = g y) :
    (l.modify i f).map g = l.map g := by
  refine List.ext_getElem? fun j => ?_
  rw [List.getElem?_map, List.getElem?_map, getElem?_modify]
  split
  · rw [Option.map_map]
    exact Option.map_congr fun y _ => h y
  · rfl

/-- A change that leaves it open what is filtered out changes one of the filtered at most. -/
theorem filter_modify {p : α → Bool} (h : ∀ y, p (f y) = p y) (i : ℕ) (l : List α) :
    ∃ j, (l.modify i f).filter p = (l.filter p).modify j f := by
  induction l generalizing i with
  | nil => exact ⟨0, by simp⟩
  | cons y l ih =>
    cases i with
    | zero =>
      rw [List.modify_zero_cons]
      cases hy : p y with
      | true => exact ⟨0, by simp [h, hy]⟩
      | false =>
        refine ⟨(l.filter p).length, ?_⟩
        rw [List.filter_cons_of_neg (by simp [h, hy]), List.filter_cons_of_neg (by simp [hy]),
          List.modify_eq_self (Nat.le_refl _)]
    | succ i =>
      obtain ⟨j, hj⟩ := ih i
      rw [List.modify_succ_cons]
      cases hy : p y with
      | true => exact ⟨j + 1, by simp [hy, hj]⟩
      | false => exact ⟨j, by simp [hy, hj]⟩

/-- A change of what is filtered out, and stays filtered out. -/
theorem filter_modify_of_not {p : α → Bool} (hi : l[i]? = some x) (hx : p x = false)
    (hfx : p (f x) = false) : (l.modify i f).filter p = l.filter p := by
  induction l generalizing i with
  | nil => cases hi
  | cons y l ih =>
    cases i with
    | zero =>
      cases hi
      rw [List.modify_zero_cons, List.filter_cons_of_neg (by simp [hfx]),
        List.filter_cons_of_neg (by simp [hx])]
    | succ i =>
      rw [List.modify_succ_cons, List.filter_cons, List.filter_cons, ih hi]

/-- The first one that is not filtered out is changed. -/
theorem filter_modify_findIdx? {p : α → Bool} (h : ∀ y, p (f y) = p y)
    (hi : l.findIdx? p = some i) : (l.modify i f).filter p = (l.filter p).modify 0 f := by
  induction l generalizing i with
  | nil => cases hi
  | cons y l ih =>
    rw [List.findIdx?_cons] at hi
    cases hy : p y with
    | true =>
      rw [hy, if_pos rfl] at hi
      cases hi
      rw [List.modify_zero_cons, List.filter_cons_of_pos hy, List.modify_zero_cons,
        List.filter_cons_of_pos ((h y).trans hy)]
    | false =>
      rw [hy, if_neg Bool.false_ne_true] at hi
      obtain ⟨j, hj, rfl⟩ := Option.map_eq_some_iff.mp hi
      rw [List.modify_succ_cons, List.filter_cons_of_neg (by simp [hy]),
        List.filter_cons_of_neg (by simp [hy]), ih hj]

/-- What is erased is filtered out. -/
theorem filter_eraseIdx {p : α → Bool} (hi : l[i]? = some x) (hx : p x = false) :
    (l.eraseIdx i).filter p = l.filter p := by
  obtain ⟨hlt, rfl⟩ := List.getElem?_eq_some_iff.mp hi
  rw [List.eraseIdx_eq_take_drop_succ]
  nth_rewrite 3 [← List.take_append_drop i l]
  rw [List.drop_eq_getElem_cons hlt, List.filter_append, List.filter_append,
    List.filter_cons_of_neg (by rw [hx]; exact Bool.false_ne_true)]

/-- The first one that is not filtered out is erased. -/
theorem filter_eraseIdx_findIdx? {p : α → Bool} (hi : l.findIdx? p = some i) :
    (l.eraseIdx i).filter p = (l.filter p).tail := by
  induction l generalizing i with
  | nil => cases hi
  | cons y l ih =>
    rw [List.findIdx?_cons] at hi
    cases hy : p y with
    | true =>
      rw [hy, if_pos rfl] at hi
      cases hi
      rw [List.eraseIdx_cons_zero, List.filter_cons_of_pos hy, List.tail_cons]
    | false =>
      rw [hy, if_neg Bool.false_ne_true] at hi
      obtain ⟨j, hj, rfl⟩ := Option.map_eq_some_iff.mp hi
      rw [List.eraseIdx_cons_succ, List.filter_cons_of_neg (by simp [hy]),
        List.filter_cons_of_neg (by simp [hy]), ih hj]

/-- Writing what is there changes nothing. -/
theorem modify_self (h : l[i]? = some x) (hf : f x = x) : l.modify i f = l := by
  refine List.ext_getElem? fun j => ?_
  rw [getElem?_modify]
  split
  · rename_i hij
    rw [← hij, h, Option.map_some, hf]
  · rfl

/-- What was written is the changed element; the rest was there before. -/
theorem mem_modify (h : x ∈ l.modify i f) : x ∈ l ∨ ∃ y, l[i]? = some y ∧ x = f y := by
  obtain ⟨j, hj⟩ := List.mem_iff_getElem?.mp h
  rw [getElem?_modify] at hj
  split at hj
  · rename_i hij
    subst hij
    obtain ⟨y, hy, rfl⟩ := Option.map_eq_some_iff.mp hj
    exact Or.inr ⟨y, hy, rfl⟩
  · exact Or.inl (List.mem_of_getElem? hj)

/-- An element other than the one at the position is kept. -/
theorem mem_modify_of_ne (hx : x ∈ l) (hi : l[i]? = some y) (hne : x ≠ y) :
    x ∈ l.modify i f := by
  obtain ⟨j, hj⟩ := List.mem_iff_getElem?.mp hx
  refine List.mem_of_getElem? (i := j) ?_
  rw [getElem?_modify, if_neg, hj]
  rintro rfl
  rw [hj, Option.some_inj] at hi
  exact hne hi

theorem mem_eraseIdx_of_ne (hx : x ∈ l) (hi : l[i]? = some y) (hne : x ≠ y) :
    x ∈ l.eraseIdx i := by
  rw [List.mem_eraseIdx_iff_getElem?]
  obtain ⟨j, hj⟩ := List.mem_iff_getElem?.mp hx
  refine ⟨j, ?_, hj⟩
  rintro rfl
  rw [hj, Option.some_inj] at hi
  exact hne hi

/-- With distinct images, the image of the element that is erased is gone. -/
theorem not_mem_map_eraseIdx {β : Type} {g : α → β} (h : (l.map g).Nodup) (hi : l[i]? = some x) :
    g x ∉ (l.eraseIdx i).map g := by
  induction l generalizing i with
  | nil => cases hi
  | cons y l ih =>
    rw [List.map_cons, List.nodup_cons] at h
    cases i with
    | zero =>
      rw [List.getElem?_cons_zero, Option.some_inj] at hi
      exact hi ▸ h.1
    | succ i =>
      rw [List.getElem?_cons_succ] at hi
      rw [List.eraseIdx_cons_succ, List.map_cons, List.mem_cons, not_or]
      refine ⟨fun heq => ?_, ih h.2 hi⟩
      exact h.1 (heq ▸ List.mem_map_of_mem (List.mem_of_getElem? hi))

/-- Where what `g` gives is given once, it tells the position. -/
theorem eq_of_filterMap_nodup {β : Type} {g : α → Option β} {b : β}
    (h : (l.filterMap g).Nodup) (hi : l[i]? = some x) (hj : l[j]? = some y)
    (hx : g x = some b) (hy : g y = some b) : i = j := by
  induction l generalizing i j with
  | nil => cases hi
  | cons z l ih =>
    have hmem : ∀ {k : ℕ} {w : α}, l[k]? = some w → g w = some b → b ∈ l.filterMap g :=
      fun hk hw => List.mem_filterMap.mpr ⟨_, List.mem_of_getElem? hk, hw⟩
    have htail : (l.filterMap g).Nodup := by
      rw [List.filterMap_cons] at h
      split at h
      · exact h
      · exact (List.nodup_cons.mp h).2
    have hhead : g z = some b → b ∉ l.filterMap g := by
      intro hz
      rw [List.filterMap_cons, hz] at h
      exact (List.nodup_cons.mp h).1
    cases i with
    | zero =>
      cases j with
      | zero => rfl
      | succ j =>
        rw [List.getElem?_cons_zero, Option.some_inj] at hi
        rw [List.getElem?_cons_succ] at hj
        exact absurd (hmem hj hy) (hhead (hi ▸ hx))
    | succ i =>
      rw [List.getElem?_cons_succ] at hi
      cases j with
      | zero =>
        rw [List.getElem?_cons_zero, Option.some_inj] at hj
        exact absurd (hmem hi hx) (hhead (hj ▸ hy))
      | succ j =>
        rw [List.getElem?_cons_succ] at hj
        rw [ih htail hi hj]

/-- Reading a stretch of positions, each one that is there. -/
theorem filterMap_getElem?_range' (l : List α) (i n : ℕ) :
    (List.range' i n).filterMap (fun k => l[k]?) = (l.drop i).take n := by
  induction n generalizing i with
  | zero => rw [List.range'_zero, List.take_zero, List.filterMap_nil]
  | succ n ih =>
    rw [List.range'_succ, List.filterMap_cons, ih]
    by_cases hi : i < l.length
    · rw [List.getElem?_eq_getElem hi, List.drop_eq_getElem_cons hi, List.take_succ_cons]
    · rw [List.getElem?_eq_none (by omega), List.drop_eq_nil_of_le (by omega),
        List.drop_eq_nil_of_le (by omega), List.take_nil, List.take_nil]

/-- What is wanted is what stands from a position on. -/
theorem filter_eq_drop {p : α → Bool} (h : ∀ i (_ : i < l.length), p l[i] = true ↔ j ≤ i) :
    l.filter p = l.drop j := by
  induction l generalizing j with
  | nil => rw [List.filter_nil, List.drop_nil]
  | cons x l ih =>
    have hhead : p x = true ↔ j ≤ 0 := h 0 (Nat.succ_pos _)
    have htail : ∀ i (_ : i < l.length), p l[i] = true ↔ j ≤ i + 1 :=
      fun i hi => h (i + 1) (Nat.succ_lt_succ hi)
    cases j with
    | zero =>
      rw [List.filter_cons_of_pos (hhead.mpr (Nat.le_refl 0)), ih fun i hi => ?_, List.drop_zero,
        List.drop_zero]
      exact iff_of_true ((htail i hi).mpr (Nat.zero_le _)) (Nat.zero_le _)
    | succ j =>
      rw [List.filter_cons_of_neg (mt hhead.mp (Nat.not_succ_le_zero j)), List.drop_succ_cons]
      exact ih fun i hi => (htail i hi).trans Nat.succ_le_succ_iff

/-- Where everything from a position on has an image, the images of that are the last ones. -/
theorem drop_filterMap {β : Type} {g : α → Option β} (h : ∀ x ∈ l.drop j, (g x).isSome = true) :
    (l.filterMap g).drop ((l.filterMap g).length - (l.length - j)) = (l.drop j).filterMap g := by
  have hlen : ((l.drop j).filterMap g).length = l.length - j := by
    rw [List.filterMap_length_eq_length.mpr h, List.length_drop]
  have hsplit : l.filterMap g = (l.take j).filterMap g ++ (l.drop j).filterMap g := by
    rw [← List.filterMap_append, List.take_append_drop]
  have hfront : ((l.take j).filterMap g ++ (l.drop j).filterMap g).length - (l.length - j)
      = ((l.take j).filterMap g).length := by
    rw [List.length_append, hlen, Nat.add_sub_cancel]
  rw [hsplit, hfront, List.drop_left]

/-- What a sum over the elements gains where one is written. -/
theorem sum_map_set (f : α → ℕ) (hi : i < l.length) (x : α) :
    ((l.set i x).map f).sum + f l[i] = (l.map f).sum + f x := by
  induction l generalizing i with
  | nil => exact absurd hi (Nat.not_lt_zero i)
  | cons y l ih =>
    cases i with
    | zero =>
      simp only [List.set_cons_zero, List.map_cons, List.sum_cons, List.getElem_cons_zero]
      omega
    | succ i =>
      have hrest := ih (Nat.lt_of_succ_lt_succ hi)
      simp only [List.set_cons_succ, List.map_cons, List.sum_cons, List.getElem_cons_succ]
      omega

end Positions
