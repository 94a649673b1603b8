import Mathlib.Data.List.Pairwise
import Mathlib.Tactic.Common

/-!
# Runs of numbers

An increasing list of numbers, cut into the runs of those that follow each other
(`runsFrom`).  They are the maximal runs of the numbers of the list, in increasing order
(`runs_runsFrom`).
-/

namespace IntegerRuns

/-- The run that goes from `first` up to `last` so far, and those of the numbers after it. -/
def runsFrom (first last : ℕ) : List ℕ → List (ℕ × ℕ)
  | [] => [(first, last)]
  | n :: ns => if n = last + 1 then runsFrom first n ns else (first, last) :: runsFrom n n ns

/-- The numbers from `a` to `b` are in the set, and those next to them are not. -/
structure MaximalRun (S : ℕ → Prop) (a b : ℕ) : Prop where
  le : a ≤ b
  mem : ∀ n, a ≤ n → n ≤ b → S n
  before : ∀ n, n + 1 = a → ¬ S n
  after : ¬ S (b + 1)

/-- All maximal runs of a set, in increasing order. -/
structure Runs (S : ℕ → Prop) (runs : List (ℕ × ℕ)) : Prop where
  increasing : runs.Pairwise fun r r' => r.2 < r'.1
  maximal : ∀ r ∈ runs, MaximalRun S r.1 r.2
  covers : ∀ n, S n → ∃ r ∈ runs, r.1 ≤ n ∧ n ≤ r.2

variable {S : ℕ → Prop} {first last n : ℕ} {ns : List ℕ} {runs : List (ℕ × ℕ)}

theorem Runs.iff (h : Runs S runs) : S n ↔ ∃ r ∈ runs, r.1 ≤ n ∧ n ≤ r.2 := by
  refine ⟨h.covers n, ?_⟩
  rintro ⟨r, hr, hlow, hhigh⟩
  exact (h.maximal r hr).mem n hlow hhigh

theorem runs_singleton (hle : first ≤ last) :
    Runs (fun n => first ≤ n ∧ n ≤ last) [(first, last)] where
  increasing := List.pairwise_singleton _ _
  maximal r hr := by
    rw [List.mem_singleton.mp hr]
    exact ⟨hle, fun n hlow hhigh => ⟨hlow, hhigh⟩, fun n hn h => by omega, fun h => by omega⟩
  covers n h := ⟨(first, last), List.mem_singleton_self _, h⟩

/-- A run before the others, with a gap after it. -/
theorem Runs.cons (h : Runs S runs) (hle : first ≤ last) (hgap : ∀ n, S n → last + 1 < n) :
    Runs (fun n => (first ≤ n ∧ n ≤ last) ∨ S n) ((first, last) :: runs) where
  increasing := by
    refine List.pairwise_cons.mpr ⟨fun r hr => ?_, h.increasing⟩
    have hrun := h.maximal r hr
    have hlt := hgap r.1 (hrun.mem r.1 (Nat.le_refl _) hrun.le)
    exact Nat.lt_of_succ_lt hlt
  maximal r hr := by
    rcases List.mem_cons.mp hr with rfl | hr
    · refine ⟨hle, fun n hlow hhigh => Or.inl ⟨hlow, hhigh⟩, fun n hn hS => ?_, fun hS => ?_⟩
      · rcases hS with hin | hS
        · omega
        · have hlt := hgap n hS
          omega
      · rcases hS with hin | hS
        · omega
        · exact absurd (hgap _ hS) (Nat.lt_irrefl _)
    · have hrun := h.maximal r hr
      have hlt := hgap r.1 (hrun.mem r.1 (Nat.le_refl _) hrun.le)
      have hrle := hrun.le
      refine ⟨hrle, fun n hlow hhigh => Or.inr (hrun.mem n hlow hhigh), fun n hn hS => ?_,
        fun hS => ?_⟩
      · rcases hS with hin | hS
        · omega
        · exact hrun.before n hn hS
      · rcases hS with hin | hS
        · omega
        · exact hrun.after hS
  covers n hS := by
    rcases hS with hin | hS
    · exact ⟨(first, last), List.mem_cons_self, hin⟩
    · obtain ⟨r, hr, hin⟩ := h.covers n hS
      exact ⟨r, List.mem_cons_of_mem _ hr, hin⟩

/-- **The runs of an increasing list** are the maximal runs of its numbers. -/
theorem runs_runsFrom (hle : first ≤ last) (hlt : (last :: ns).Pairwise (· < ·)) :
    Runs (fun n => (first ≤ n ∧ n ≤ last) ∨ n ∈ ns) (runsFrom first last ns) := by
  induction ns generalizing first last with
  | nil =>
    have hS : (fun n => (first ≤ n ∧ n ≤ last) ∨ n ∈ ([] : List ℕ)) =
        fun n => first ≤ n ∧ n ≤ last := by
      funext n
      exact propext (or_iff_left List.not_mem_nil)
    rw [hS]
    exact runs_singleton hle
  | cons m ns ih =>
    obtain ⟨hlast, hns⟩ := List.pairwise_cons.mp hlt
    have hm := hlast m List.mem_cons_self
    rw [runsFrom]
    split
    · rename_i hnext
      have hS : (fun n => (first ≤ n ∧ n ≤ last) ∨ n ∈ m :: ns) =
          fun n => (first ≤ n ∧ n ≤ m) ∨ n ∈ ns := by
        funext n
        refine propext ?_
        rw [List.mem_cons, ← or_assoc]
        refine or_congr_left ?_
        omega
      rw [hS]
      exact ih (by omega) hns
    · rename_i hnext
      have hS : (fun n => (first ≤ n ∧ n ≤ last) ∨ n ∈ m :: ns) =
          fun n => (first ≤ n ∧ n ≤ last) ∨ (m ≤ n ∧ n ≤ m) ∨ n ∈ ns := by
        funext n
        refine propext (or_congr_right ?_)
        rw [List.mem_cons]
        refine or_congr_left ?_
        omega
      rw [hS]
      refine (ih (Nat.le_refl m) hns).cons hle fun n hn => ?_
      rcases hn with hn | hn
      · omega
      · have hgt := (List.pairwise_cons.mp hns).1 n hn
        omega

end IntegerRuns
