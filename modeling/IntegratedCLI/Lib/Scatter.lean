import Mathlib.Algebra.BigOperators.Intervals
import Mathlib.Algebra.BigOperators.Ring.List
import Mathlib.Algebra.Order.BigOperators.Group.List

/-!
# Amounts that are added into registers

Amounts land in registers, each amount in one of them, and a register holds the sum of what
has landed in it, modulo some `M`.  The registers are a list, and `landed` is the sum
without a modulus.

The second half is about where amounts can have landed if every register of a row holds
what belongs into the row.  An amount that is put below the row that it belongs to is missed
there: `rank_eq_of_rows` says that if no amount is put above its row, and all rows have the
right sums, then every amount is in its row.
-/

namespace Scatter

/-! ## Registers -/

/-- The registers after an amount was added to one of them. -/
def deposit (M : ℕ) (data : List ℕ) (w : ℕ × ℕ) : List ℕ :=
  data.modify w.1 fun x => (x + w.2) % M

/-- What lands in the register. -/
def landed (ws : List (ℕ × ℕ)) (i : ℕ) : ℕ := (ws.map fun w => if w.1 = i then w.2 else 0).sum

variable {M i : ℕ} {data : List ℕ} {ws : List (ℕ × ℕ)}

@[simp] theorem length_deposit (w : ℕ × ℕ) : (deposit M data w).length = data.length :=
  List.length_modify _ _ _

/-- A register holds what it held and what has landed in it. -/
theorem getElem?_foldl_deposit (hdata : ∀ x ∈ data, x < M) :
    (ws.foldl (deposit M) data)[i]? = data[i]?.map fun x => (x + landed ws i) % M := by
  induction ws generalizing data with
  | nil =>
    cases hi : data[i]? with
    | none => rw [List.foldl_nil, hi, Option.map_none]
    | some x =>
      rw [List.foldl_nil, hi, Option.map_some, landed, List.map_nil, List.sum_nil, Nat.add_zero,
        Nat.mod_eq_of_lt (hdata x (List.mem_of_getElem? hi))]
  | cons w ws ih =>
    have hM : ∀ x ∈ deposit M data w, x < M := by
      intro x hx
      obtain ⟨n, hn, rfl⟩ := List.getElem_of_mem hx
      rw [length_deposit] at hn
      have hpos : 0 < M := Nat.zero_lt_of_lt (hdata _ (List.getElem_mem hn))
      simp only [deposit, List.getElem_modify]
      split
      · exact Nat.mod_lt _ hpos
      · exact hdata _ (List.getElem_mem hn)
    rw [List.foldl_cons, ih hM, deposit, List.getElem?_modify, landed, landed, List.map_cons,
      List.sum_cons]
    cases data[i]? with
    | none => rfl
    | some x =>
      by_cases hw : w.1 = i
      · simp [hw, Nat.add_assoc]
      · simp [hw]

/-- The term of a list at one position. -/
theorem sum_zipIdx {α : Type} (l : List α) (f : α → ℕ) (n k : ℕ) :
    ((l.zipIdx n).map fun e => if e.2 = n + k then f e.1 else 0).sum = (l[k]?.map f).getD 0 := by
  induction l generalizing n k with
  | nil => rfl
  | cons x l ih =>
    rw [List.zipIdx_cons, List.map_cons, List.sum_cons]
    cases k with
    | zero =>
      have hrest : ((l.zipIdx (n + 1)).map fun e => if e.2 = n + 0 then f e.1 else 0).sum = 0 := by
        refine List.sum_eq_zero fun y hy => ?_
        obtain ⟨e, he, rfl⟩ := List.mem_map.mp hy
        have := List.le_snd_of_mem_zipIdx he
        rw [if_neg (by omega)]
      rw [hrest]
      simp
    | succ k =>
      have hrest := ih (n + 1) k
      rw [show n + 1 + k = n + (k + 1) by omega] at hrest
      rw [hrest]
      simp

/-! ## Rows -/

section Rows

variable {ι : Type} {l : List ι} {mass : ι → ℕ}

/-- Sums that are the same although no term is larger have the same terms. -/
theorem eq_of_sum_eq {f g : ι → ℕ} (hle : ∀ x ∈ l, f x ≤ g x)
    (h : (l.map f).sum = (l.map g).sum) : ∀ x ∈ l, f x = g x := by
  induction l with
  | nil => simp
  | cons x l ih =>
    rw [List.map_cons, List.map_cons, List.sum_cons, List.sum_cons] at h
    have hx := hle x List.mem_cons_self
    have hl : (l.map f).sum ≤ (l.map g).sum :=
      List.sum_le_sum fun y hy => hle y (List.mem_cons_of_mem x hy)
    intro y hy
    rcases List.mem_cons.mp hy with rfl | hy
    · omega
    · exact ih (fun y hy => hle y (List.mem_cons_of_mem x hy)) (by omega) y hy

/-- A sum over rows of what is in each. -/
theorem sum_rows (R : ℕ) (f : ι → ℕ → ℕ) :
    ∑ k ∈ Finset.range R, (l.map fun x => f x k).sum
      = (l.map fun x => ∑ k ∈ Finset.range R, f x k).sum := by
  induction l with
  | nil => simp
  | cons x l ih => simp [Finset.sum_add_distrib, ih]

/-- **Amounts are in their rows** if none is put above it and the sums of all rows are
right. -/
theorem rank_eq_of_rows {R : ℕ} {row : ι → ℕ} {rank : ι → Option ℕ}
    (hrow : ∀ x ∈ l, row x < R) (hle : ∀ x ∈ l, ∀ g ∈ rank x, row x ≤ g ∧ g < R)
    (h : ∀ k < R, (l.map fun x => if row x = k then mass x else 0).sum
      = (l.map fun x => if rank x = some k then mass x else 0).sum) :
    ∀ x ∈ l, mass x ≠ 0 → rank x = some (row x) := by
  -- the rows, each counted so many times
  have hweighted : ∀ c : ℕ → ℕ, (l.map fun x => c (row x) * mass x).sum
      = (l.map fun x => ((rank x).map c).getD 0 * mass x).sum := by
    intro c
    have hsum : ∑ k ∈ Finset.range R, c k * (l.map fun x => if row x = k then mass x else 0).sum
        = ∑ k ∈ Finset.range R, c k * (l.map fun x => if rank x = some k then mass x else 0).sum :=
      Finset.sum_congr rfl fun k hk => by rw [h k (Finset.mem_range.mp hk)]
    simp only [← List.sum_map_mul_left, sum_rows, mul_ite, mul_zero] at hsum
    have hleft : (l.map fun x => ∑ k ∈ Finset.range R, if row x = k then c k * mass x else 0)
        = l.map fun x => c (row x) * mass x := by
      refine List.map_congr_left fun x hx => ?_
      rw [Finset.sum_ite_eq, if_pos (Finset.mem_range.mpr (hrow x hx))]
    have hright : (l.map fun x => ∑ k ∈ Finset.range R, if rank x = some k then c k * mass x else 0)
        = l.map fun x => ((rank x).map c).getD 0 * mass x := by
      refine List.map_congr_left fun x hx => ?_
      cases hg : rank x with
      | none => simp
      | some g =>
        have hlt := (hle x hx g hg).2
        simp only [Option.some_inj]
        rw [Finset.sum_ite_eq, if_pos (Finset.mem_range.mpr hlt)]
        rfl
    rwa [hleft, hright] at hsum
  have hsome : ∀ x ∈ l, mass x ≠ 0 → ∃ g, rank x = some g := by
    have hones := hweighted fun _ => 1
    intro x hx hmass
    have := eq_of_sum_eq (fun x _ => ?_) hones.symm x hx
    · cases hg : rank x with
      | none =>
        rw [hg] at this
        simp at this
        exact absurd this.symm hmass
      | some g => exact ⟨g, rfl⟩
    · cases rank x <;> simp
  intro x hx hmass
  obtain ⟨g, hg⟩ := hsome x hx hmass
  have hrows := hweighted id
  have := eq_of_sum_eq (fun x hx => ?_) hrows x hx
  · rw [hg] at this ⊢
    have := Nat.eq_of_mul_eq_mul_right (Nat.pos_of_ne_zero hmass) this
    simpa using this.symm
  · by_cases hzero : mass x = 0
    · simp [hzero]
    · obtain ⟨g, hg⟩ := hsome x hx hzero
      rw [hg]
      exact Nat.mul_le_mul_right _ (hle x hx g hg).1

end Rows

end Scatter
