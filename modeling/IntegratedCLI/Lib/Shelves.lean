import Mathlib.Data.List.Nodup
import Mathlib.Logic.Function.Basic

/-!
# Shelves and slots

Objects that are put on shelves and taken into slots.  A shelf is a list of
objects, most recent first, and an object has a hook that names the shelf it is
on, as the nodes of an intrusive list do.  A slot holds at most one object.

`Shelves.Tidy` is what such a structure is meant to keep: the hooks say where the
objects are, no shelf has an object twice, and no object is on a shelf and in a
slot.  Each operation keeps it under the condition stated with it, and those
conditions are what a program that shares objects between shelves and slots has
to see to.
-/

/-- Shelves indexed by `κ` and slots indexed by `γ`, for objects of type `α`. -/
structure Shelves (α κ γ : Type*) where
  hook : α → Option κ
  list : κ → List α
  slot : γ → Option α

namespace Shelves

variable {α κ γ : Type*} [DecidableEq α] [DecidableEq κ] [DecidableEq γ]

/-- Put an object at the front of a shelf. -/
def push (s : Shelves α κ γ) (k : κ) (a : α) : Shelves α κ γ :=
  { s with
    hook := Function.update s.hook a (some k)
    list := Function.update s.list k (a :: s.list k) }

/-- Take an object off the shelf it is on. -/
def remove (s : Shelves α κ γ) (a : α) : Shelves α κ γ :=
  match s.hook a with
  | none => s
  | some k =>
    { s with
      hook := Function.update s.hook a none
      list := Function.update s.list k ((s.list k).erase a) }

/-- Put an object into a slot. -/
def fill (s : Shelves α κ γ) (g : γ) (a : α) : Shelves α κ γ :=
  { s with slot := Function.update s.slot g (some a) }

/-- Empty a slot. -/
def vacate (s : Shelves α κ γ) (g : γ) : Shelves α κ γ :=
  { s with slot := Function.update s.slot g none }

/-- Empty every shelf and every slot. -/
def clear (_ : Shelves α κ γ) : Shelves α κ γ := ⟨fun _ => none, fun _ => [], fun _ => none⟩

/-- The hooks say where the objects are, and every object is in one place. -/
structure Tidy (s : Shelves α κ γ) : Prop where
  hook_iff : ∀ a k, s.hook a = some k ↔ a ∈ s.list k
  nodup : ∀ k, (s.list k).Nodup
  apart : ∀ k, ∀ a ∈ s.list k, ∀ g, s.slot g ≠ some a

variable {s : Shelves α κ γ} {k k' : κ} {g i : γ} {a : α}

omit [DecidableEq γ] in
theorem push_list_of_ne (h : k' ≠ k) : (s.push k a).list k' = s.list k' :=
  Function.update_of_ne h _ _

omit [DecidableEq α] [DecidableEq κ] in
@[simp] theorem fill_slot_self : (s.fill g a).slot g = some a := Function.update_self _ _ _

omit [DecidableEq α] [DecidableEq κ] in
theorem fill_slot_of_ne (h : i ≠ g) : (s.fill g a).slot i = s.slot i :=
  Function.update_of_ne h _ _

omit [DecidableEq α] [DecidableEq κ] in
@[simp] theorem vacate_slot_self : (s.vacate g).slot g = none := Function.update_self _ _ _

omit [DecidableEq α] [DecidableEq κ] in
theorem vacate_slot_of_ne (h : i ≠ g) : (s.vacate g).slot i = s.slot i :=
  Function.update_of_ne h _ _

omit [DecidableEq α] [DecidableEq κ] [DecidableEq γ] in
/-- An object is on one shelf at most. -/
theorem Tidy.unique (h : s.Tidy) (hk : a ∈ s.list k) (hk' : a ∈ s.list k') : k = k' := by
  rw [← h.hook_iff] at hk hk'
  exact Option.some.inj (hk.symm.trans hk')

omit [DecidableEq α] [DecidableEq κ] [DecidableEq γ] in
/-- An object in a slot is on no shelf. -/
theorem Tidy.hook_of_slot (h : s.Tidy) (hg : s.slot g = some a) : s.hook a = none := by
  cases hk : s.hook a with
  | none => rfl
  | some k => exact absurd hg (h.apart k a ((h.hook_iff a k).mp hk) g)

omit [DecidableEq γ] in
theorem remove_of_hook_none (h : s.hook a = none) : s.remove a = s := by
  unfold remove
  rw [h]

omit [DecidableEq γ] in
/-- An object may be put on a shelf if it is on none and in no slot. -/
theorem Tidy.push (h : s.Tidy) (hfree : s.hook a = none) (hslot : ∀ g, s.slot g ≠ some a) (k : κ) :
    (s.push k a).Tidy := by
  have hout : ∀ k, a ∉ s.list k := by
    intro k hk
    rw [(h.hook_iff a k).mpr hk] at hfree
    exact absurd hfree (by simp)
  refine ⟨fun b j => ?_, fun j => ?_, fun j b hb => ?_⟩
  · by_cases hb : b = a
    · subst hb
      by_cases hj : j = k
      · simp [Shelves.push, hj]
      · simp [Shelves.push, hj, hout j, Ne.symm hj]
    · by_cases hj : j = k
      · subst hj
        simp [Shelves.push, hb, h.hook_iff]
      · simp [Shelves.push, hb, hj, h.hook_iff]
  · by_cases hj : j = k
    · subst hj
      simp [Shelves.push, hout j, h.nodup j]
    · simp [Shelves.push, hj, h.nodup j]
  · by_cases hj : j = k
    · subst hj
      rcases (by simpa [Shelves.push] using hb : b = a ∨ b ∈ s.list j) with hb | hb
      · rw [hb]
        exact hslot
      · exact h.apart j b hb
    · rw [push_list_of_ne hj] at hb
      exact h.apart j b hb

omit [DecidableEq γ] in
theorem Tidy.remove (h : s.Tidy) (a : α) : (s.remove a).Tidy := by
  unfold Shelves.remove
  split
  · exact h
  · rename_i k hk
    refine ⟨fun b j => ?_, fun j => ?_, fun j b hb => ?_⟩
    · by_cases hb : b = a
      · subst hb
        by_cases hj : j = k
        · subst hj
          simp [(h.nodup j).mem_erase_iff]
        · have hout : b ∉ s.list j := fun hmem => hj (h.unique hmem ((h.hook_iff b k).mp hk))
          simp [hj, hout]
      · by_cases hj : j = k
        · subst hj
          simp [hb, h.hook_iff, (h.nodup j).mem_erase_iff]
        · simp [hb, hj, h.hook_iff]
    · by_cases hj : j = k
      · subst hj
        simpa using (h.nodup j).erase a
      · simpa [hj] using h.nodup j
    · by_cases hj : j = k
      · subst hj
        simp only [Function.update_self] at hb
        exact h.apart j b (List.mem_of_mem_erase hb)
      · simp only [Function.update_of_ne hj] at hb
        exact h.apart j b hb

omit [DecidableEq γ] in
theorem hook_remove (a : α) : (s.remove a).hook a = none := by
  unfold Shelves.remove
  split
  · assumption
  · simp

omit [DecidableEq α] [DecidableEq κ] in
/-- An object may be taken into a slot if it is on no shelf. -/
theorem Tidy.fill (h : s.Tidy) (hfree : s.hook a = none) (g : γ) : (s.fill g a).Tidy := by
  refine ⟨h.hook_iff, h.nodup, fun j b hb => ?_⟩
  intro i
  by_cases hi : i = g
  · rw [hi, fill_slot_self]
    intro heq
    rw [Option.some.inj heq, (h.hook_iff b j).mpr hb] at hfree
    exact absurd hfree (by simp)
  · rw [fill_slot_of_ne hi]
    exact h.apart j b hb i

omit [DecidableEq α] [DecidableEq κ] in
theorem Tidy.vacate (h : s.Tidy) (g : γ) : (s.vacate g).Tidy := by
  refine ⟨h.hook_iff, h.nodup, fun j b hb i => ?_⟩
  by_cases hi : i = g
  · rw [hi, vacate_slot_self]
    simp
  · rw [vacate_slot_of_ne hi]
    exact h.apart j b hb i

omit [DecidableEq α] [DecidableEq κ] [DecidableEq γ] in
theorem tidy_clear (s : Shelves α κ γ) : s.clear.Tidy :=
  ⟨by simp [clear], by simp [clear], by simp [clear]⟩

/-- An object that is in one slot only may be put on a shelf when the slot is
emptied. -/
theorem Tidy.shelve (h : s.Tidy) (hg : s.slot g = some a)
    (honly : ∀ i, s.slot i = some a → i = g) (k : κ) : ((s.push k a).vacate g).Tidy := by
  have hcomm : (s.push k a).vacate g = (s.vacate g).push k a := rfl
  rw [hcomm]
  refine (h.vacate g).push (h.hook_of_slot hg) (fun i hi => ?_) k
  by_cases hig : i = g
  · rw [hig, vacate_slot_self] at hi
    exact absurd hi (by simp)
  · rw [vacate_slot_of_ne hig] at hi
    exact hig (honly i hi)

end Shelves
