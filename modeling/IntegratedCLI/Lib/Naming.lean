import Mathlib.Logic.Function.Basic
import Mathlib.Tactic.Common

/-!
# Names for the holders of keys that are used again

A key is held by one holder after another.  Whoever meets a holder sees the key only,
and is to give every holder a name of its own.  A `Naming` does so by a counter: a
key that is not active gets the next name, and keeps it until a holder is met for the
last time.

Holders may be met in any order, so that a holder can be met again after its end, or
the next holder before it.  `Handover` says that this is not so for a key: who was
met there before is the holder that is met now, or it was met for the last time.
`Kept.meet` and `Kept.shared` say that this is exactly what it takes that no name is
given to two holders.
-/

variable {κ ω : Type}

/-- The state of a naming: the next name, the names of the active keys, and, to speak
about it, who was given which name, and who was met last at a key and whether for the
last time. -/
structure Naming (κ ω : Type) where
  next : ℕ
  active : κ → Option ℕ
  given : List (ℕ × ω)
  last : κ → Option (ω × Bool)

namespace Naming

def init (first : ℕ) : Naming κ ω := ⟨first, fun _ => none, [], fun _ => none⟩

/-- The name for the holder of a key. -/
def name (n : Naming κ ω) (k : κ) : ℕ := (n.active k).getD n.next

/-- A holder is met at its key, for the last time or not. -/
def meet [DecidableEq κ] (n : Naming κ ω) (k : κ) (w : ω) (ends : Bool) : Naming κ ω where
  next := if n.active k = none then n.next + 1 else n.next
  active := Function.update n.active k (if ends then none else some (n.name k))
  given := (n.name k, w) :: n.given
  last := Function.update n.last k (some (w, ends))

/-- No name is given to two holders. -/
def Unshared (given : List (ℕ × ω)) : Prop :=
  ∀ v w w', (v, w) ∈ given → (v, w') ∈ given → w = w'

/-- Whoever was met before at the key is this holder, or was met for the last time. -/
def Handover (n : Naming κ ω) (k : κ) (w : ω) : Prop :=
  ∀ w', n.last k = some (w', false) → w' = w

instance [DecidableEq ω] (n : Naming κ ω) (k : κ) (w : ω) : Decidable (n.Handover k w) :=
  match h : n.last k with
  | some (w', false) => decidable_of_iff (w' = w) (by
      constructor
      · intro hw w₀ h₀
        rw [← hw]
        exact (Prod.mk.inj (Option.some.inj (h₀.symm.trans h))).1
      · intro hw
        exact hw w' h)
  | some (_, true) => isTrue (by
      intro w₀ h₀
      exact absurd (Prod.mk.inj (Option.some.inj (h₀.symm.trans h))).2 Bool.false_ne_true)
  | none => isTrue (by
      intro w₀ h₀
      exact absurd (h₀.symm.trans h) (Option.some_ne_none _))

/-- What a naming keeps. -/
structure Kept (n : Naming κ ω) : Prop where
  unshared : Unshared n.given
  old : ∀ v w, (v, w) ∈ n.given → v < n.next
  held : ∀ k v, n.active k = some v → ∃ w, n.last k = some (w, false) ∧ (v, w) ∈ n.given
  free : ∀ k, n.active k = none → ∀ w, n.last k ≠ some (w, false)

theorem kept_init (first : ℕ) : Kept (init first : Naming κ ω) where
  unshared := by
    intro v w w' h
    exact absurd h List.not_mem_nil
  old := by
    intro v w h
    exact absurd h List.not_mem_nil
  held := by
    intro k v h
    exact absurd h (Option.some_ne_none v).symm
  free := by
    intro k h w
    exact (Option.some_ne_none _).symm

section Meet

variable {n : Naming κ ω} {k : κ} {w : ω} {ends : Bool}

/-- The name of an active key is given to its holder already, a new one to nobody. -/
theorem Kept.eq_of_given (h : Kept n) (hw : n.Handover k w) {w' : ω}
    (hg : (n.name k, w') ∈ n.given) : w' = w := by
  cases ha : n.active k with
  | none =>
    have hlt := h.old _ _ hg
    rw [name, ha, Option.getD_none] at hlt
    exact absurd hlt (Nat.lt_irrefl _)
  | some v =>
    obtain ⟨w₀, hlast, hgiven⟩ := h.held k v ha
    rw [name, ha, Option.getD_some] at hg
    rw [h.unshared v w' w₀ hg hgiven, hw w₀ hlast]

variable [DecidableEq κ]

theorem Kept.name_lt (h : Kept n) : n.name k < (n.meet k w ends).next := by
  show n.name k < if n.active k = none then n.next + 1 else n.next
  cases ha : n.active k with
  | none =>
    rw [if_pos rfl, name, ha]
    exact Nat.lt_succ_self _
  | some v =>
    obtain ⟨w₀, -, hgiven⟩ := h.held k v ha
    rw [if_neg (Option.some_ne_none v), name, ha]
    exact h.old v w₀ hgiven

theorem next_le_meet : n.next ≤ (n.meet k w ends).next := by
  show n.next ≤ if n.active k = none then n.next + 1 else n.next
  split_ifs
  · exact Nat.le_succ _
  · exact Nat.le_refl _

theorem mem_given_meet {v : ℕ} {w' : ω} (h : (v, w') ∈ (n.meet k w ends).given) :
    (v = n.name k ∧ w' = w) ∨ (v, w') ∈ n.given := by
  rcases List.mem_cons.mp h with h | h
  · exact .inl (Prod.mk.inj h)
  · exact .inr h

/-- **A handover keeps the names apart.** -/
theorem Kept.meet (h : Kept n) (hw : n.Handover k w) : Kept (n.meet k w ends) where
  unshared := by
    intro v w₁ w₂ h₁ h₂
    rcases mem_given_meet h₁ with ⟨hv₁, rfl⟩ | hg₁
    · rcases mem_given_meet h₂ with ⟨-, rfl⟩ | hg₂
      · rfl
      · exact (h.eq_of_given hw (hv₁ ▸ hg₂)).symm
    · rcases mem_given_meet h₂ with ⟨hv₂, rfl⟩ | hg₂
      · exact h.eq_of_given hw (hv₂ ▸ hg₁)
      · exact h.unshared v w₁ w₂ hg₁ hg₂
  old := by
    intro v w₁ h₁
    rcases mem_given_meet h₁ with ⟨rfl, rfl⟩ | h₁
    · exact h.name_lt
    · exact Nat.lt_of_lt_of_le (h.old v w₁ h₁) next_le_meet
  held := by
    intro k' v hv
    by_cases hk : k' = k
    · subst hk
      have hv : (if ends then none else some (n.name k')) = some v :=
        (Function.update_self k' _ n.active).symm.trans hv
      split_ifs at hv with he
      refine ⟨w, ?_, List.mem_cons.mpr (.inl ?_)⟩
      · show Function.update n.last k' _ k' = _
        rw [Function.update_self, Bool.eq_false_iff.mpr he]
      · rw [Option.some.inj hv]
    · have hv : n.active k' = some v := (Function.update_of_ne hk _ n.active).symm.trans hv
      obtain ⟨w₀, hlast, hgiven⟩ := h.held k' v hv
      refine ⟨w₀, ?_, List.mem_cons_of_mem _ hgiven⟩
      show Function.update n.last k _ k' = _
      rw [Function.update_of_ne hk, hlast]
  free := by
    intro k' hv w₀
    by_cases hk : k' = k
    · subst hk
      have hv : (if ends then none else some (n.name k')) = none :=
        (Function.update_self k' _ n.active).symm.trans hv
      show Function.update n.last k' _ k' ≠ _
      rw [Function.update_self]
      split_ifs at hv with he
      rw [he]
      simp
    · have hv : n.active k' = none := (Function.update_of_ne hk _ n.active).symm.trans hv
      show Function.update n.last k _ k' ≠ _
      rw [Function.update_of_ne hk]
      exact h.free k' hv w₀

/-- **Without a handover a name is shared.** -/
theorem Kept.shared (h : Kept n) (hw : ¬ n.Handover k w) (ends : Bool) :
    ¬ Unshared (n.meet k w ends).given := by
  intro hu
  refine hw fun w' hlast => ?_
  cases ha : n.active k with
  | none => exact absurd hlast (h.free k ha w')
  | some v =>
    obtain ⟨w₀, hlast₀, hgiven⟩ := h.held k v ha
    have hname : n.name k = v := by rw [name, ha, Option.getD_some]
    have hw₀ : w₀ = w' := by
      have := hlast₀.symm.trans hlast
      simpa using this
    subst hw₀
    exact hu v w₀ w (List.mem_cons_of_mem _ hgiven) (List.mem_cons.mpr (.inl (by rw [hname])))

end Meet

end Naming
