import Mathlib.Data.List.Basic
import Mathlib.Data.Nat.ModEq

/-!
# A list kept in a ring of cells

A memory of `cap` cells keeps the last part of a growing list: the item with
number `i` is in the cell `i % cap`.  `Holds mem cap lo xs` says that the memory
holds the items of `xs` from number `lo` on; at most `cap` of them fit.

* `offset cap n a` is how many cells behind the one of item `n` the cell `a` is.
* `Holds.append`: writing further items, each in its cell, extends the list as long
  as the items from `lo` on fit.
* `window mem cap n size` are the contents of `size` cells from the one of item `n`
  on.  `Holds.window_eq` says which items these are, and `window_eq_append` is how
  a window that wraps around is read in two pieces.
-/

namespace RingMemory

variable {α : Type*} {mem mem' : ℕ → α} {cap lo lo' n size : ℕ} {xs ys : List α}

/-! ## Cells -/

/-- How many cells behind the one of item `n` the cell `a` is. -/
def offset (cap n a : ℕ) : ℕ := if n % cap ≤ a then a - n % cap else a + cap - n % cap

theorem add_mod_eq {k : ℕ} (hk : k < cap) :
    (n + k) % cap = if n % cap + k < cap then n % cap + k else n % cap + k - cap := by
  have hn : n % cap < cap := Nat.mod_lt _ (by omega)
  rw [← Nat.mod_add_mod]
  split_ifs with h
  · exact Nat.mod_eq_of_lt h
  · rw [Nat.mod_eq_sub_mod (by omega), Nat.mod_eq_of_lt (by omega)]

/-- The offset of the cell of a later item. -/
theorem offset_add {k : ℕ} (hk : k < cap) : offset cap n ((n + k) % cap) = k := by
  have hn : n % cap < cap := Nat.mod_lt _ (by omega)
  rw [add_mod_eq hk]
  unfold offset
  split_ifs <;> omega

/-- The offset of the cell of an earlier item. -/
theorem offset_of_lt {i : ℕ} (hi : i < n) (hn : n ≤ i + cap) :
    offset cap n (i % cap) = i + cap - n := by
  have h := @offset_add cap n (i + cap - n) (by omega)
  rw [show n + (i + cap - n) = i + cap by omega, Nat.add_mod_right] at h
  exact h

/-! ## Items -/

/-- The memory holds the items from number `lo` on. -/
def Holds (mem : ℕ → α) (cap lo : ℕ) (xs : List α) : Prop :=
  ∀ i (h : i < xs.length), lo ≤ i → mem (i % cap) = xs[i]

theorem Holds.mono (h : Holds mem cap lo xs) (hlo : lo ≤ lo') : Holds mem cap lo' xs :=
  fun i hi hl => h i hi (Nat.le_trans hlo hl)

theorem Holds.of_append (h : Holds mem cap lo (xs ++ ys)) : Holds mem cap lo xs := by
  intro i hi hl
  rw [h i (by rw [List.length_append]; omega) hl, List.getElem_append_left hi]

/-- Items that are written into their cells are held with the ones before. -/
theorem Holds.append (h : Holds mem cap lo xs) (hlo : lo ≤ xs.length)
    (hfit : (xs ++ ys).length ≤ lo + cap)
    (hmem : ∀ a < cap, mem' a = (ys[offset cap xs.length a]?).getD (mem a)) :
    Holds mem' cap lo (xs ++ ys) := by
  intro i hi hl
  rw [List.length_append] at hfit hi
  have hcap : 0 < cap := by omega
  rw [hmem _ (Nat.mod_lt _ hcap)]
  by_cases hx : i < xs.length
  · rw [offset_of_lt hx (by omega), List.getElem?_eq_none (by omega), Option.getD_none,
      h i hx hl, List.getElem_append_left hx]
  · obtain ⟨k, rfl⟩ := Nat.exists_eq_add_of_le (Nat.le_of_not_lt hx)
    rw [offset_add (by omega), List.getElem?_eq_getElem (by omega), Option.getD_some,
      List.getElem_append_right (by omega)]
    simp only [Nat.add_sub_cancel_left]

/-! ## Windows -/

/-- The contents of the cells from the one of item `n` on. -/
def window (mem : ℕ → α) (cap n size : ℕ) : List α :=
  (List.range size).map fun k => mem ((n + k) % cap)

theorem length_window : (window mem cap n size).length = size := by
  rw [window, List.length_map, List.length_range]

/-- A window shows the items in it. -/
theorem Holds.window_eq (h : Holds mem cap lo xs) (hn : lo ≤ n) (hs : n + size ≤ xs.length) :
    window mem cap n size = (xs.drop n).take size := by
  refine List.ext_getElem ?_ fun k hk hk' => ?_
  · rw [length_window, List.length_take, List.length_drop]
    omega
  · rw [length_window] at hk
    rw [List.getElem_take, List.getElem_drop]
    simp only [window, List.getElem_map, List.getElem_range]
    exact h (n + k) (by omega) (by omega)

/-- A window that does not wrap around. -/
theorem window_eq_map (hs : n % cap + size ≤ cap) :
    window mem cap n size = (List.range size).map fun k => mem (n % cap + k) := by
  refine List.map_congr_left fun k hk => ?_
  have hlt := List.mem_range.mp hk
  rw [add_mod_eq (by omega), if_pos (by omega)]

/-- A window that wraps around is what is before the end of the memory and what is
at its beginning. -/
theorem window_eq_append (hcap : 0 < cap) (hs : cap ≤ n % cap + size) (hsize : size ≤ cap) :
    window mem cap n size
      = (List.range (cap - n % cap)).map (fun k => mem (n % cap + k))
        ++ (List.range (n % cap + size - cap)).map mem := by
  have hn : n % cap < cap := Nat.mod_lt _ hcap
  have hsum : size = (cap - n % cap) + (n % cap + size - cap) := by omega
  unfold window
  conv_lhs => rw [hsum, List.range_add, List.map_append, List.map_map]
  congr 1
  · refine List.map_congr_left fun k hk => ?_
    have hlt := List.mem_range.mp hk
    rw [add_mod_eq (by omega), if_pos (by omega)]
  · refine List.map_congr_left fun k hk => ?_
    have hlt := List.mem_range.mp hk
    show mem ((n + (cap - n % cap + k)) % cap) = mem k
    rw [add_mod_eq (by omega), if_neg (by omega)]
    congr 1
    omega

end RingMemory
