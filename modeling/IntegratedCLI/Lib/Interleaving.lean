import Mathlib.Data.List.Basic

/-!
# Interleavings of several lists

`Interleaves ls out` says that `out` consists of the elements of the lists `ls`,
each once, in such an order that the elements of one list keep theirs.  It is what
is left of a merge when the order of the elements is forgotten.

* `interleaves_merge` : the merge of two lists interleaves them, whatever the
  comparison is.
* `Interleaves.append` : an interleaving of two interleavings interleaves the
  lists of both.  This is the step of an induction over a tree of merges.
* `Interleaves.filter` : the selected elements of an interleaving interleave the
  selected elements of the lists.
-/

variable {α : Type*}

/-- The elements of the lists, each once, and those of one list in their order. -/
inductive Interleaves : List (List α) → List α → Prop
  | done {ls : List (List α)} (h : ∀ l ∈ ls, l = []) : Interleaves ls []
  | take {ls : List (List α)} {i : ℕ} {x : α} {rest out : List α} (hi : ls[i]? = some (x :: rest))
      (h : Interleaves (ls.set i rest) out) : Interleaves ls (x :: out)

namespace Interleaves

variable {ls ms : List (List α)} {xs ys out : List α} {x : α}

theorem single (xs : List α) : Interleaves [xs] xs := by
  induction xs with
  | nil => exact .done (by simp)
  | cons x xs ih => exact .take (i := 0) rfl ih

theorem nil : Interleaves ([] : List (List α)) [] := .done (by simp)

/-- Taking the next element of the first of two lists, or of the second. -/
theorem pair_left (h : Interleaves [xs, ys] out) : Interleaves [x :: xs, ys] (x :: out) :=
  .take (i := 0) rfl h

theorem pair_right (h : Interleaves [xs, ys] out) : Interleaves [xs, x :: ys] (x :: out) :=
  .take (i := 1) rfl h

theorem pair_nil (ys : List α) : Interleaves [[], ys] ys := by
  induction ys with
  | nil => exact .done (by simp)
  | cons y ys ih => exact ih.pair_right

/-- An interleaving of two lists takes its first element from one of the two. -/
theorem pair_cases (h : Interleaves [xs, ys] out) :
    (xs = [] ∧ ys = [] ∧ out = []) ∨
      (∃ x xs' out', xs = x :: xs' ∧ out = x :: out' ∧ Interleaves [xs', ys] out') ∨
      (∃ y ys' out', ys = y :: ys' ∧ out = y :: out' ∧ Interleaves [xs, ys'] out') := by
  cases h with
  | done h => exact .inl ⟨h xs (by simp), h ys (by simp), rfl⟩
  | @take _ i x rest out' hi h =>
    match i, hi with
    | 0, hi =>
      rw [List.getElem?_cons_zero, Option.some_inj] at hi
      exact .inr (.inl ⟨x, rest, out', hi, rfl, h⟩)
    | 1, hi =>
      rw [List.getElem?_cons_succ, List.getElem?_cons_zero, Option.some_inj] at hi
      exact .inr (.inr ⟨x, rest, out', hi, rfl, h⟩)

theorem take_append_left (hi : ls[i]? = some (x :: xs))
    (h : Interleaves (ls.set i xs ++ ms) out) : Interleaves (ls ++ ms) (x :: out) := by
  have hlt : i < ls.length := (List.getElem?_eq_some_iff.mp hi).1
  refine @take _ _ i x xs out ?_ ?_
  · rw [List.getElem?_append_left hlt, hi]
  · rwa [List.set_append_left i xs hlt]

theorem take_append_right (hi : ms[i]? = some (x :: xs))
    (h : Interleaves (ls ++ ms.set i xs) out) : Interleaves (ls ++ ms) (x :: out) := by
  refine @take _ _ (ls.length + i) x xs out ?_ ?_
  · rw [List.getElem?_append_right (by omega), Nat.add_sub_cancel_left, hi]
  · rwa [List.set_append_right _ _ (by omega), Nat.add_sub_cancel_left]

/-- **Interleavings compose.**  The induction is on the elements that are taken:
each belongs to one of the two sides, and there to one of the lists. -/
theorem append (h : Interleaves [xs, ys] out) (hx : Interleaves ls xs) (hy : Interleaves ms ys) :
    Interleaves (ls ++ ms) out := by
  induction out generalizing xs ys ls ms with
  | nil =>
    rcases pair_cases h with ⟨rfl, rfl, _⟩ | ⟨_, _, _, _, h, _⟩ | ⟨_, _, _, _, h, _⟩
    · cases hx with
      | done hx =>
        cases hy with
        | done hy =>
          refine .done fun l hl => ?_
          rcases List.mem_append.mp hl with hl | hl
          · exact hx l hl
          · exact hy l hl
    · cases h
    · cases h
  | cons z out ih =>
    rcases pair_cases h with ⟨_, _, h⟩ | ⟨x, xs', out', rfl, hout, h⟩ | ⟨y, ys', out', rfl, hout, h⟩
    · cases h
    · obtain ⟨rfl, rfl⟩ := List.cons_eq_cons.mp hout
      cases hx with
      | take hi hx => exact take_append_left hi (ih h hx hy)
    · obtain ⟨rfl, rfl⟩ := List.cons_eq_cons.mp hout
      cases hy with
      | take hi hy => exact take_append_right hi (ih h hx hy)

/-- Selecting elements. -/
theorem filter (p : α → Bool) (h : Interleaves ls out) :
    Interleaves (ls.map (List.filter p)) (out.filter p) := by
  induction h with
  | done h =>
    refine .done fun l hl => ?_
    obtain ⟨l', hl', rfl⟩ := List.mem_map.mp hl
    rw [h l' hl', List.filter_nil]
  | @take ls i x rest out hi h ih =>
    rw [List.map_set] at ih
    have hi' : (ls.map (List.filter p))[i]? = some ((x :: rest).filter p) := by
      rw [List.getElem?_map, hi, Option.map_some]
    by_cases hx : p x
    · rw [List.filter_cons_of_pos hx] at hi' ⊢
      exact .take hi' ih
    · rw [List.filter_cons_of_neg hx] at hi' ⊢
      obtain ⟨hlt, hget⟩ := List.getElem?_eq_some_iff.mp hi'
      rwa [← hget, List.set_getElem_self] at ih

/-- The elements are those of the lists, each as often. -/
theorem perm (h : Interleaves ls out) : out.Perm ls.flatten := by
  induction h with
  | done h =>
    rw [List.flatten_eq_nil_iff.mpr h]
  | @take ls i x rest out hi h ih =>
    obtain ⟨hlt, hget⟩ := List.getElem?_eq_some_iff.mp hi
    have hls : ls = ls.take i ++ (x :: rest) :: ls.drop (i + 1) := by
      rw [← hget, List.getElem_cons_drop, List.take_append_drop]
    rw [List.set_eq_take_append_cons_drop, if_pos hlt] at ih
    rw [hls]
    simp only [List.flatten_append, List.flatten_cons, List.cons_append] at ih ⊢
    exact (ih.cons x).trans List.perm_middle.symm

theorem length_eq (h : Interleaves ls out) : out.length = ls.flatten.length := h.perm.length_eq

end Interleaves

/-- A merge interleaves, whatever it compares by. -/
theorem interleaves_merge (le : α → α → Bool) (xs ys : List α) :
    Interleaves [xs, ys] (List.merge xs ys le) := by
  induction xs generalizing ys with
  | nil =>
    rw [List.nil_merge]
    exact .pair_nil ys
  | cons x xs ihx =>
    induction ys with
    | nil =>
      have h := ihx []
      rw [List.merge_right] at h ⊢
      exact h.pair_left
    | cons y ys ihy =>
      rw [List.cons_merge_cons]
      split
      · exact (ihx _).pair_left
      · exact ihy.pair_right

theorem Interleaves.swap {xs ys out : List α} (h : Interleaves [xs, ys] out) :
    Interleaves [ys, xs] out := by
  induction out generalizing xs ys with
  | nil =>
    rcases h.pair_cases with ⟨rfl, rfl, _⟩ | ⟨_, _, _, _, h, _⟩ | ⟨_, _, _, _, h, _⟩
    · exact .done (by simp)
    · cases h
    · cases h
  | cons z out ih =>
    rcases h.pair_cases with ⟨_, _, h⟩ | ⟨x, xs', out', rfl, hout, h⟩ | ⟨y, ys', out', rfl, hout, h⟩
    · cases h
    · obtain ⟨rfl, rfl⟩ := List.cons_eq_cons.mp hout
      exact (ih h).pair_right
    · obtain ⟨rfl, rfl⟩ := List.cons_eq_cons.mp hout
      exact (ih h).pair_left
