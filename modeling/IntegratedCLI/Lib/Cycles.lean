import Mathlib.Data.List.Chain
import Mathlib.Data.List.Perm.Subperm
import Mathlib.Data.List.Rotate
import Mathlib.Logic.Relation

/-!
# Paths and simple cycles of a relation

A path is a list of different points, each of which leads to the next, and a simple cycle
is one whose last point leads to the first.  What is reachable is reachable on a path
(`exists_isPath`), because a walk that comes back to a point can leave out what lies in
between, and so a point is reachable from itself in one or more steps exactly if it lies on
a simple cycle (`exists_isSimpleCycle_iff`).

`Enumerates` says that a list has all simple cycles, each of them from any of its points on.
-/

namespace Cycles

open Relation

variable {α : Type*} {r : α → α → Prop} {a b : α} {l c : List α}

/-- From `a` on, `l` is a way to `b` that visits no point twice. -/
structure IsPath (r : α → α → Prop) (a b : α) (l : List α) : Prop where
  nodup : (a :: l).Nodup
  chain : List.IsChain r (a :: l)
  last : (a :: l).getLast (List.cons_ne_nil a l) = b

/-- The last point leads back to the first one. -/
def IsSimpleCycle (r : α → α → Prop) (c : List α) : Prop :=
  ∃ a b l, c = a :: l ∧ IsPath r a b l ∧ r b a

/-- The list has the simple cycles and nothing else. -/
structure Enumerates (r : α → α → Prop) (cycles : List (List α)) : Prop where
  sound : ∀ c ∈ cycles, IsSimpleCycle r c
  complete : ∀ c, IsSimpleCycle r c → ∃ c' ∈ cycles, List.IsRotated c' c

/-- What has the points that `a` leads to, and with a point those it leads to, has all that
is reachable from `a`. -/
theorem mem_of_closed {s : Set α} (hfirst : ∀ x, r a x → x ∈ s)
    (hclosed : ∀ y ∈ s, ∀ x, r y x → x ∈ s) (h : TransGen r a b) : b ∈ s := by
  induction h with
  | single h => exact hfirst _ h
  | tail _ h ih => exact hclosed _ ih _ h

theorem isPath_refl (a : α) : IsPath r a a [] :=
  ⟨List.nodup_singleton a, List.IsChain.singleton a, rfl⟩

/-- The rest of a path from one of its points on. -/
theorem IsPath.from_mem (h : IsPath r a b l) {x : α} (hx : x ∈ a :: l) :
    ∃ l', IsPath r x b l' := by
  obtain ⟨before, after, hsplit⟩ := List.append_of_mem hx
  refine ⟨after, ?_, ?_, ?_⟩
  · exact (hsplit ▸ h.nodup).of_append_right
  · exact (hsplit ▸ h.chain).right_of_append
  · rw [← h.last]
    simp only [hsplit, List.getLast_append_of_ne_nil _ (List.cons_ne_nil x after)]

/-- What is reachable is reachable on a path. -/
theorem exists_isPath (h : ReflTransGen r a b) : ∃ l, IsPath r a b l := by
  induction h using ReflTransGen.head_induction_on with
  | refl => exact ⟨[], isPath_refl b⟩
  | head hstep _ ih =>
    rename_i a c _
    obtain ⟨l, hl⟩ := ih
    by_cases ha : a ∈ c :: l
    · -- the way comes back to `a`, and what was before is left out
      exact hl.from_mem ha
    · exact ⟨c :: l, List.nodup_cons.mpr ⟨ha, hl.nodup⟩, hl.chain.cons_cons hstep, hl.last⟩

theorem IsPath.reachable (h : IsPath r a b l) : ReflTransGen r a b :=
  List.relationReflTransGen_of_exists_isChain_cons l h.chain h.last

/-- Every point of a path is on the way. -/
theorem IsPath.reachable_mem (h : IsPath r a b l) {x : α} (hx : x ∈ a :: l) :
    ReflTransGen r a x ∧ ReflTransGen r x b := by
  constructor
  · obtain ⟨before, after, hsplit⟩ := List.append_of_mem hx
    have hchain : List.IsChain r (before ++ [x]) := by
      have := h.chain
      rw [hsplit, ← List.singleton_append, ← List.append_assoc] at this
      exact this.left_of_append
    have hreach := List.relationReflTransGen_of_exists_isChain _ hchain (by simp)
    have hhead : (before ++ [x]).head (by simp) = a := by
      cases before with
      | nil => exact (List.cons.inj hsplit).1.symm
      | cons y before => exact (List.cons.inj hsplit).1.symm
    rwa [hhead, List.getLast_append_singleton] at hreach
  · obtain ⟨l', hl'⟩ := h.from_mem hx
    exact hl'.reachable

/-- The points of a path are no more than those of a list that has them all. -/
theorem IsPath.length_lt {xs : List α} (h : IsPath r a b l) (hxs : ∀ x ∈ a :: l, x ∈ xs) :
    l.length < xs.length :=
  (List.Nodup.subperm h.nodup hxs).length_le

/-- **A point is reachable from itself** exactly if it lies on a simple cycle. -/
theorem exists_isSimpleCycle_iff : (∃ c, IsSimpleCycle r c ∧ a ∈ c) ↔ TransGen r a a := by
  constructor
  · rintro ⟨c, ⟨first, last, l, rfl, hpath, hback⟩, ha⟩
    obtain ⟨hto, hfrom⟩ := hpath.reachable_mem ha
    exact TransGen.trans_left (.tail' hfrom hback) hto
  · intro h
    obtain ⟨b, hreach, hback⟩ := TransGen.tail'_iff.mp h
    obtain ⟨l, hl⟩ := exists_isPath hreach
    exact ⟨a :: l, ⟨a, b, l, rfl, hl, hback⟩, List.mem_cons_self⟩

/-- The same for a list of all simple cycles. -/
theorem Enumerates.exists_mem_iff {cycles : List (List α)} (h : Enumerates r cycles) :
    (∃ c ∈ cycles, a ∈ c) ↔ TransGen r a a := by
  rw [← exists_isSimpleCycle_iff]
  constructor
  · rintro ⟨c, hc, ha⟩
    exact ⟨c, h.sound c hc, ha⟩
  · rintro ⟨c, hc, ha⟩
    obtain ⟨c', hc', hrot⟩ := h.complete c hc
    exact ⟨c', hc', hrot.mem_iff.mpr ha⟩

end Cycles
