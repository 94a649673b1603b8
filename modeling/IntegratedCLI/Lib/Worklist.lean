import Mathlib.Logic.Hydra

/-!
# Queues that run dry

The entry at the head of a queue is worked on, and it may put new entries at the end.  If
each new entry is smaller than the one it comes from, then the queue runs dry, however many
there are.  It may also get larger entries now and then, as long as each time something is
used up that is there only so often.  `wellFounded_advances` says that both together do.
-/

namespace Worklist

open Relation

variable {σ α : Type*}

/-- Something is used up; or the head of the queue is replaced by new entries at its end, which
are smaller.  How large an entry is may depend on what is used up. -/
def Lowers (queue : σ → List α) (height : σ → α → ℕ) (count : σ → ℕ) (s s' : σ) : Prop :=
  count s' < count s ∨ count s' = count s ∧ ∃ x rest new, queue s = x :: rest ∧
    queue s' = rest ++ new ∧ (∀ y ∈ rest, height s' y = height s y) ∧
      ∀ y ∈ new, height s' y < height s x

theorem wellFounded_lowers (queue : σ → List α) (height : σ → α → ℕ) (count : σ → ℕ) :
    WellFounded fun s' s => Lowers queue height count s s' := by
  let measure : σ → ℕ × Multiset ℕ := fun s => (count s, ((queue s).map (height s) : List ℕ))
  have hlex : WellFounded
      (Prod.Lex ((· < ·) : ℕ → ℕ → Prop) (CutExpand ((· < ·) : ℕ → ℕ → Prop))) :=
    wellFounded_lt.prod_lex wellFounded_lt.cutExpand
  refine Subrelation.wf ?_ (InvImage.wf measure hlex)
  rintro s' s (hused | ⟨hsame, x, rest, new, hs, hs', hrest, hsmall⟩)
  · exact Prod.Lex.left _ _ hused
  · rw [InvImage, Prod.lex_def]
    refine .inr ⟨hsame, ((new.map (height s') : List ℕ) : Multiset ℕ), height s x, ?_, ?_⟩
    · intro y hy
      obtain ⟨z, hz, rfl⟩ := List.mem_map.mp (Multiset.mem_coe.mp hy)
      exact hsmall z hz
    · -- the entries of the rest are there before and after
      simp only [measure, hs, hs', List.map_append, List.map_cons, ← Multiset.coe_add,
        ← Multiset.cons_coe, ← Multiset.singleton_add, List.map_congr_left hrest]
      rw [add_comm, ← add_assoc]

variable (queue : σ → List α) (height : α → ℕ) (count : σ → ℕ)

/-- The head of the queue is replaced by new entries at its end, which are smaller unless
something was used up. -/
def Advances (s s' : σ) : Prop :=
  ∃ x rest new, queue s = x :: rest ∧ queue s' = rest ++ new ∧
    (count s' < count s ∨ count s' = count s ∧ ∀ y ∈ new, height y < height x)

/-- **A queue runs dry.** -/
theorem wellFounded_advances :
    WellFounded fun s' s => Advances queue height count s s' := by
  refine Subrelation.wf ?_ (wellFounded_lowers queue (fun _ => height) count)
  rintro s' s ⟨x, rest, new, hs, hs', hused | ⟨hsame, hsmall⟩⟩
  · exact .inl hused
  · exact .inr ⟨hsame, x, rest, new, hs, hs', fun _ _ => rfl, hsmall⟩

end Worklist
