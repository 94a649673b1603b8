import Mathlib.Data.Set.Lattice
import Mathlib.Logic.Relation

/-!
# Definite assignment

Code that branches reads and assigns variables.  A read is safe if the variable is
assigned before it on every way to it.

* A `Stmt` reads variables and then assigns some; straight-line code is a list of
  them.  `Assigned c p` says that the reads of `p` are safe where the variables `c` are
  assigned before it, which depends on the variables that are `exposed` in `p` only
  (`assigned_iff`).
* A `Flow` is a graph of blocks.  A block has exits, each with code of its own and the
  blocks that it leads to.  `Step` goes along one exit and adds what is assigned on it.
* `Safe p` says that every read is safe on every way from the point `p`.  Then the
  variables are assigned that some way from `p` needs (`Safe.provided`).

An analysis that visits points need not visit all of them.  It is enough that from a
visited point every step leads to a visited point again, or to one where the needed
variables are assigned (`safe_of_visited`).
-/

namespace DefiniteAssignment

/-! ## Straight-line code -/

/-- A statement, which reads before it assigns. -/
structure Stmt (α : Type*) where
  reads : Set α
  assigns : Set α

variable {ν α : Type*} {c : Set α} {p q : List (Stmt α)}

/-- The variables that the code assigns. -/
def written (p : List (Stmt α)) : Set α := {v | ∃ s ∈ p, v ∈ s.assigns}

/-- Every variable is assigned before the code reads it. -/
def Assigned : Set α → List (Stmt α) → Prop
  | _, [] => True
  | c, s :: p => s.reads ⊆ c ∧ Assigned (c ∪ s.assigns) p

/-- The variables that the code reads before it assigns them. -/
def exposed : List (Stmt α) → Set α
  | [] => ∅
  | s :: p => s.reads ∪ (exposed p \ s.assigns)

@[simp] theorem written_nil : written ([] : List (Stmt α)) = ∅ := by
  simp [written]

@[simp] theorem written_cons (s : Stmt α) : written (s :: p) = s.assigns ∪ written p := by
  ext v
  simp [written]

@[simp] theorem written_append : written (p ++ q) = written p ∪ written q := by
  ext v
  simp [written, or_and_right, exists_or]

theorem assigned_iff : Assigned c p ↔ exposed p ⊆ c := by
  induction p generalizing c with
  | nil => simp [Assigned, exposed]
  | cons s p ih =>
    rw [Assigned, ih, exposed, Set.union_subset_iff, Set.sdiff_subset_iff, Set.union_comm c]

theorem assigned_append : Assigned c (p ++ q) ↔ Assigned c p ∧ Assigned (c ∪ written p) q := by
  induction p generalizing c with
  | nil => simp [Assigned]
  | cons s p ih =>
    rw [List.cons_append, Assigned, Assigned, ih, written_cons, Set.union_assoc, and_assoc]

/-! ## Code that branches -/

/-- A way out of a block. -/
structure Exit (ν α : Type*) where
  code : List (Stmt α)
  targets : List ν

/-- The blocks of a program. -/
structure Flow (ν α : Type*) where
  block : ν → List (Stmt α)
  exits : ν → List (Exit ν α)

/-- A block with the variables that are assigned when it starts. -/
abbrev Point (ν α : Type*) := ν × Set α

namespace Flow

variable (f : Flow ν α)

/-- The variables that are assigned behind an exit. -/
def behind (x : Point ν α) (e : Exit ν α) : Set α := x.2 ∪ written (f.block x.1) ∪ written e.code

/-- One exit is taken. -/
inductive Step : Point ν α → Point ν α → Prop
  | mk {x : Point ν α} (e : Exit ν α) (m : ν) (he : e ∈ f.exits x.1) (hm : m ∈ e.targets) :
      Step x (m, f.behind x e)

/-- The reads in the block, and those on its exits, are safe. -/
def Local (x : Point ν α) : Prop :=
  Assigned x.2 (f.block x.1) ∧ ∀ e ∈ f.exits x.1, Assigned (x.2 ∪ written (f.block x.1)) e.code

/-- Every read on every way from the point is safe. -/
def Safe (x : Point ν α) : Prop := ∀ y, Relation.ReflTransGen f.Step x y → f.Local y

/-- Some way from the block reads the variable before it assigns it. -/
inductive Needs : ν → α → Prop
  | block {n v} (hv : v ∈ exposed (f.block n)) : Needs n v
  | exit {n e v} (he : e ∈ f.exits n) (hv : v ∈ exposed e.code) (hn : v ∉ written (f.block n)) :
      Needs n v
  | target {n e m v} (he : e ∈ f.exits n) (hm : m ∈ e.targets) (hv : Needs m v)
      (hn : v ∉ written (f.block n)) (hcode : v ∉ written e.code) : Needs n v

variable {f} {x y : Point ν α}

theorem Safe.local (h : f.Safe x) : f.Local x := h x .refl

theorem Safe.step (h : f.Safe x) (hxy : f.Step x y) : f.Safe y := fun z hz => h z (.head hxy hz)

/-- The needed variables are assigned. -/
def Provided (f : Flow ν α) (x : Point ν α) : Prop := ∀ v, f.Needs x.1 v → v ∈ x.2

theorem Provided.local (h : f.Provided x) : f.Local x := by
  refine ⟨assigned_iff.mpr fun v hv => h v (.block hv), fun e he => assigned_iff.mpr ?_⟩
  intro v hv
  by_cases hn : v ∈ written (f.block x.1)
  · exact Or.inr hn
  · exact Or.inl (h v (.exit he hv hn))

theorem Provided.step (h : f.Provided x) (hxy : f.Step x y) : f.Provided y := by
  obtain ⟨e, m, he, hm⟩ := hxy
  intro v hv
  by_cases hcode : v ∈ written e.code
  · exact Or.inr hcode
  by_cases hn : v ∈ written (f.block x.1)
  · exact Or.inl (Or.inr hn)
  · exact Or.inl (Or.inl (h v (.target he hm hv hn hcode)))

theorem Safe.provided (h : f.Safe x) : f.Provided x := by
  obtain ⟨n, c⟩ := x
  intro v hv
  change f.Needs n v at hv
  induction hv generalizing c with
  | block hv => exact assigned_iff.mp h.local.1 hv
  | exit he hv hn => exact (assigned_iff.mp (h.local.2 _ he) hv).resolve_right hn
  | target he hm _ hn hcode ih =>
    exact ((ih _ (h.step ⟨_, _, he, hm⟩)).resolve_right hcode).resolve_right hn

/-- **What is assigned, if a set of visited points covers every step.** -/
theorem safe_of_visited (visited : Point ν α → Prop) (hlocal : ∀ x, visited x → f.Local x)
    (hsteps : ∀ x y, visited x → f.Step x y → visited y ∨ f.Provided y) (h : visited x) :
    f.Safe x := by
  intro y hxy
  have hy : visited y ∨ f.Provided y := by
    induction hxy with
    | refl => exact Or.inl h
    | tail _ hstep ih =>
      rcases ih with ih | ih
      · exact hsteps _ _ ih hstep
      · exact Or.inr (ih.step hstep)
  rcases hy with hy | hy
  · exact hlocal y hy
  · exact hy.local

end Flow

end DefiniteAssignment
