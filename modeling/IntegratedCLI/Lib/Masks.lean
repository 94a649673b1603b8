import Mathlib.Data.List.Forall2
import Mathlib.Data.List.Basic
import Mathlib.Tactic.Common

/-!
# Masks

A mask is a list of flags, one for each element of another list.  `keep` takes the
elements whose flag is set, and `Below` says that a mask sets no flag that another one
does not set.  Masks that are compared so have the same length.

`fillBefore` and `fillFrom` clear the flags before and from a position.
-/

namespace Masks

variable {α : Type} {a b c : List Bool} {xs : List α}

/-- No flag is set in `a` that is not set in `b`, and there are as many. -/
def Below (a b : List Bool) : Prop := List.Forall₂ (fun x y => x = true → y = true) a b

/-- The elements whose flag is set. -/
def keep : List Bool → List α → List α
  | true :: m, x :: xs => x :: keep m xs
  | false :: m, _ :: xs => keep m xs
  | _, _ => []

/-- Clear the flags before a position. -/
def fillBefore : ℕ → List Bool → List Bool
  | n + 1, _ :: m => false :: fillBefore n m
  | _, m => m

/-- Clear the flags from a position on. -/
def fillFrom : ℕ → List Bool → List Bool
  | n + 1, x :: m => x :: fillFrom n m
  | _, m => m.map fun _ => false

/-! ## The order of masks -/

theorem below_refl (a : List Bool) : Below a a := by
  induction a with
  | nil => exact List.Forall₂.nil
  | cons x a ih => exact List.Forall₂.cons id ih

theorem Below.trans (h : Below a b) (h' : Below b c) : Below a c := by
  induction h generalizing c with
  | nil => exact h'
  | cons hx _ ih =>
    cases h' with
    | cons hy h' => exact List.Forall₂.cons (hy ∘ hx) (ih h')

theorem Below.length_eq (h : Below a b) : a.length = b.length := List.Forall₂.length_eq h

theorem below_clear (a : List Bool) : Below (a.map fun _ => false) a := by
  induction a with
  | nil => exact List.Forall₂.nil
  | cons x a ih => exact List.Forall₂.cons (fun h => nomatch h) ih

theorem below_fillBefore (n : ℕ) (a : List Bool) : Below (fillBefore n a) a := by
  induction a generalizing n with
  | nil => cases n <;> exact List.Forall₂.nil
  | cons x a ih =>
    cases n with
    | zero => exact below_refl _
    | succ n => exact List.Forall₂.cons (fun h => nomatch h) (ih n)

theorem below_fillFrom (n : ℕ) (a : List Bool) : Below (fillFrom n a) a := by
  induction a generalizing n with
  | nil => cases n <;> exact List.Forall₂.nil
  | cons x a ih =>
    cases n with
    | zero => exact below_clear _
    | succ n => exact List.Forall₂.cons id (ih n)

theorem fillBefore_nil (n : ℕ) : fillBefore n [] = [] := by cases n <;> rfl

theorem fillFrom_nil (n : ℕ) : fillFrom n [] = [] := by cases n <;> rfl

theorem getElem?_fillBefore {n i : ℕ} :
    (fillBefore n a)[i]? = some true ↔ a[i]? = some true ∧ n ≤ i := by
  induction a generalizing n i with
  | nil => cases n <;> simp [fillBefore]
  | cons x a ih =>
    cases n with
    | zero => simp [fillBefore]
    | succ n =>
      cases i with
      | zero => simp [fillBefore]
      | succ i => simp [fillBefore, ih]

theorem getElem?_fillFrom {n i : ℕ} :
    (fillFrom n a)[i]? = some true ↔ a[i]? = some true ∧ i < n := by
  induction a generalizing n i with
  | nil => cases n <;> simp [fillFrom]
  | cons x a ih =>
    cases n with
    | zero =>
      have hclear : ∀ f ∈ fillFrom 0 (x :: a), f = false := by simp [fillFrom]
      exact iff_of_false (fun h => nomatch hclear true (List.mem_of_getElem? h))
        fun h => Nat.not_lt_zero i h.2
    | succ n =>
      cases i with
      | zero => simp [fillFrom]
      | succ i => simp [fillFrom, ih]

/-- A mask with all flags alike is below another of the same length if its flags are
clear, or those of the other one are set. -/
theorem below_map_const_iff {v : Bool} :
    Below (a.map fun _ => v) a ↔ v = true → ∀ x ∈ a, x = true := by
  induction a with
  | nil => simp [Below]
  | cons x a ih =>
    simp only [Below, List.map_cons, List.forall₂_cons, List.forall_mem_cons] at ih ⊢
    rw [ih]
    tauto

/-! ## Lists of masks -/

section Lists

variable {as bs cs : List (List Bool)}

theorem belowEach_refl (as : List (List Bool)) : List.Forall₂ Below as as :=
  List.forall₂_same.mpr fun a _ => below_refl a

theorem belowEach_trans (h : List.Forall₂ Below as bs) (h' : List.Forall₂ Below bs cs) :
    List.Forall₂ Below as cs := by
  induction h generalizing cs with
  | nil => exact h'
  | cons hx _ ih =>
    cases h' with
    | cons hy h' => exact List.Forall₂.cons (hx.trans hy) (ih h')

theorem belowEach_clear (as : List (List Bool)) :
    List.Forall₂ Below (as.map fun a => a.map fun _ => false) as := by
  rw [List.forall₂_map_left_iff]
  exact List.forall₂_same.mpr fun a _ => below_clear a

theorem belowEach_lengths (h : List.Forall₂ Below as bs) :
    as.map List.length = bs.map List.length := by
  induction h with
  | nil => rfl
  | cons hx _ ih => rw [List.map_cons, List.map_cons, hx.length_eq, ih]

end Lists

/-! ## The elements that are kept -/

theorem keep_sublist (m : List Bool) (xs : List α) : (keep m xs).Sublist xs := by
  induction xs generalizing m with
  | nil => cases m with
    | nil => exact List.Sublist.refl _
    | cons x m => cases x <;> exact List.Sublist.refl _
  | cons x xs ih =>
    cases m with
    | nil => exact List.nil_sublist _
    | cons f m =>
      cases f with
      | false => exact (ih m).cons x
      | true => exact (ih m).cons_cons x

/-- A mask below another keeps no element that the other one does not keep. -/
theorem Below.keep_sublist (h : Below a b) (xs : List α) :
    (keep a xs).Sublist (keep b xs) := by
  induction h generalizing xs with
  | nil => exact List.Sublist.refl _
  | @cons f g a b hfg _ ih =>
    cases xs with
    | nil => cases f <;> exact List.nil_sublist _
    | cons x xs =>
      cases f with
      | true =>
        have hg : g = true := hfg rfl
        subst hg
        exact (ih xs).cons_cons x
      | false =>
        cases g with
        | false => exact ih xs
        | true => exact (ih xs).cons x

end Masks
