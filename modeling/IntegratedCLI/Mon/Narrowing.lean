import Mathlib.Data.List.Forall2
import IntegratedCLI.Lib.Run
import IntegratedCLI.Mon.Filter

/-!
# Chains of filters narrow

A step of a chain is to drop elements, and no step is to bring back what an earlier one
dropped.  `ByTimeStamp`, `TrimSlices` and `HasTagStackId` clear flags only, with one
exception: `HasTagStackId` with `keepInterval` sets all flags of an interval with a
slice to keep, whatever they were.

## Main results

* `ByTimeStamp.applyCu_below`, `TrimSlices.applyCu_below` : these steps clear flags only.
* `HasTagStackId.applyCu_below_iff` : this one does exactly if every interval with a
  slice to keep is fully selected before, or `keepInterval` is not set.
* `narrows_iff` : the selections of a chain narrow, and the data it leaves has nothing
  that was dropped on the way, exactly if this is so at every step.
-/

namespace IntegratedCLI
namespace Mon

open Fallible Masks Run Tagstack

/-! ## Selections -/

namespace CuSel

/-- There is a selection of rows where there is one, and of as many. -/
def SameShape (a b : CuSel) : Prop :=
  a.selCounts.map List.length = b.selCounts.map List.length ∧
    a.selSlices.map (List.map List.length) = b.selSlices.map (List.map List.length)

/-- No element is selected that is not selected in `b`, and the shape is that of `b`. -/
structure Below (a b : CuSel) : Prop where
  counts : Option.Rel Masks.Below a.selCounts b.selCounts
  slices : Option.Rel (List.Forall₂ Masks.Below) a.selSlices b.selSlices

variable {a b c : CuSel}

theorem SameShape.refl (a : CuSel) : a.SameShape a := ⟨rfl, rfl⟩

theorem SameShape.symm (h : a.SameShape b) : b.SameShape a := ⟨h.1.symm, h.2.symm⟩

theorem SameShape.trans (h : a.SameShape b) (h' : b.SameShape c) : a.SameShape c :=
  ⟨h.1.trans h'.1, h.2.trans h'.2⟩

theorem relCounts_refl (o : Option (List Bool)) : Option.Rel Masks.Below o o := by
  cases o with
  | none => exact .none
  | some m => exact .some (below_refl m)

theorem relSlices_refl (o : Option (List (List Bool))) :
    Option.Rel (List.Forall₂ Masks.Below) o o := by
  cases o with
  | none => exact .none
  | some m => exact .some (belowEach_refl m)

theorem Below.refl (a : CuSel) : a.Below a := ⟨relCounts_refl _, relSlices_refl _⟩

theorem Below.trans (h : a.Below b) (h' : b.Below c) : a.Below c := by
  obtain ⟨ca, sa⟩ := a
  obtain ⟨cb, sb⟩ := b
  obtain ⟨cc, sc⟩ := c
  obtain ⟨h₁, h₂⟩ := h
  obtain ⟨h₁', h₂'⟩ := h'
  constructor
  · cases h₁ with
    | none => exact h₁'
    | some h₁ =>
      cases h₁' with
      | some h₁' => exact .some (h₁.trans h₁')
  · cases h₂ with
    | none => exact h₂'
    | some h₂ =>
      cases h₂' with
      | some h₂' => exact .some (belowEach_trans h₂ h₂')

theorem Below.sameShape (h : a.Below b) : a.SameShape b := by
  obtain ⟨ca, sa⟩ := a
  obtain ⟨cb, sb⟩ := b
  obtain ⟨h₁, h₂⟩ := h
  constructor
  · cases h₁ with
    | none => rfl
    | some h₁ => exact congrArg some h₁.length_eq
  · cases h₂ with
    | none => rfl
    | some h₂ => exact congrArg some (belowEach_lengths h₂)

end CuSel

/-! ## `ByTimeStamp` and `TrimSlices` -/

namespace ByTimeStamp

variable {f : ByTimeStamp} {sel r : CuSel} {d : CuMonData}

theorem clearBefore_below (n : ℕ) (sels : List (List Bool)) :
    List.Forall₂ Below (clearBefore n sels) sels := by
  induction sels generalizing n with
  | nil => cases n <;> exact List.Forall₂.nil
  | cons v sels ih =>
    cases n with
    | zero => exact belowEach_refl _
    | succ n => exact List.Forall₂.cons (below_clear v) (ih n)

theorem clearFrom_below (n : ℕ) (sels : List (List Bool)) :
    List.Forall₂ Below (clearFrom n sels) sels := by
  induction sels generalizing n with
  | nil => cases n <;> exact List.Forall₂.nil
  | cons v sels ih =>
    cases n with
    | zero => exact belowEach_clear _
    | succ n => exact List.Forall₂.cons (below_refl v) (ih n)

theorem filterCounts_below (h : f.filterCounts sel d = .ok r) : r.Below sel := by
  obtain ⟨counts, slices⟩ := sel
  unfold filterCounts at h
  split at h
  · cases h
  · cases counts with
    | none => cases h
    | some counts =>
      dsimp only at h
      split at h
      · cases h
        exact CuSel.Below.refl _
      · rw [bind_eq_ok] at h
        obtain ⟨⟨startIdx, endIdx⟩, -, h⟩ := h
        dsimp only at h
        split at h
        · cases h
        · cases h
          exact ⟨.some ((below_fillFrom _ _).trans (below_fillBefore _ _)),
            CuSel.relSlices_refl _⟩

theorem filterSlices_below (h : f.filterSlices sel d = .ok r) : r.Below sel := by
  obtain ⟨counts, slices⟩ := sel
  unfold filterSlices at h
  split at h
  · cases h
  · cases slices with
    | none => cases h
    | some slices =>
      dsimp only at h
      split at h
      · cases h
        exact CuSel.Below.refl _
      · rw [bind_eq_ok] at h
        obtain ⟨⟨startIdx, endIdx⟩, -, h⟩ := h
        dsimp only at h
        split at h
        · cases h
        · cases h
          exact ⟨CuSel.relCounts_refl _,
            .some (belowEach_trans (clearFrom_below _ _) (clearBefore_below _ _))⟩

/-- The step clears flags only. -/
theorem applyCu_below (h : f.applyCu sel d = .ok r) : r.Below sel := by
  obtain ⟨newSel, hcounts, hslices⟩ := bind_eq_ok.mp h
  have hbelow : newSel.Below sel := by
    split at hcounts
    · exact filterCounts_below hcounts
    · cases hcounts
      exact CuSel.Below.refl _
  split at hslices
  · exact (filterSlices_below hslices).trans hbelow
  · cases hslices
    exact hbelow

end ByTimeStamp

/-- The step clears flags only. -/
theorem TrimSlices.applyCu_below {sel r : CuSel} {d : CuMonData}
    (h : TrimSlices.applyCu sel d = .ok r) : r.Below sel := by
  obtain ⟨counts, slices⟩ := sel
  unfold TrimSlices.applyCu at h
  split at h
  · cases h
  · cases counts with
    | none => cases h
    | some selc =>
      dsimp only at h
      split at h
      · cases h
      · cases slices with
        | none => cases h
        | some sels =>
          dsimp only at h
          split at h
          · cases h
          · rename_i hlen
            cases h
            refine ⟨CuSel.relCounts_refl _, .some ?_⟩
            rw [not_not] at hlen
            clear * - hlen
            induction sels generalizing selc with
            | nil =>
              rw [List.zipWith_nil_right]
              exact List.Forall₂.nil
            | cons v sels ih =>
              cases selc with
              | nil => cases hlen
              | cons c selc =>
                refine List.Forall₂.cons ?_ (ih _ (Nat.succ.inj hlen))
                cases c with
                | true => exact below_refl v
                | false => exact below_clear v

/-! ## `HasTagStackId` -/

namespace HasTagStackId

variable {toKeep : List ℕ} {sel r : CuSel} {d : CuMonData} {p : PerIntervalSlices}
  {slices : List Slice} {v w : List Bool} {sels sels' : List (List Bool)}

/-- Every interval with a slice to keep is fully selected. -/
def FullWhereKept (toKeep : List ℕ) (p : PerIntervalSlices) (sels : List (List Bool)) : Prop :=
  ∀ e ∈ p.zip sels, e.1.any (kept toKeep) = true → ∀ x ∈ e.2, x = true

instance (toKeep : List ℕ) (p : PerIntervalSlices) (sels : List (List Bool)) :
    Decidable (FullWhereKept toKeep p sels) :=
  inferInstanceAs (Decidable (∀ e ∈ p.zip sels, _))

theorem keepIntervals_below_iff (h : keepIntervals toKeep p sels = .ok sels') :
    List.Forall₂ Below sels' sels ↔ FullWhereKept toKeep p sels := by
  induction p generalizing sels sels' with
  | nil =>
    cases h
    exact iff_of_true (belowEach_refl _) fun e he => by simp at he
  | cons slices p ih =>
    cases sels with
    | nil => cases h
    | cons v sels =>
      rw [keepIntervals, bind_eq_ok] at h
      obtain ⟨rest, hrest, h⟩ := h
      cases h
      rw [List.forall₂_cons, ih hrest, below_map_const_iff]
      simp only [FullWhereKept, List.zip_cons_cons, List.forall_mem_cons]

theorem keepIntervals_lengths (h : keepIntervals toKeep p sels = .ok sels') :
    sels'.map List.length = sels.map List.length := by
  induction p generalizing sels sels' with
  | nil =>
    cases h
    rfl
  | cons slices p ih =>
    cases sels with
    | nil => cases h
    | cons v sels =>
      rw [keepIntervals, bind_eq_ok] at h
      obtain ⟨rest, hrest, h⟩ := h
      cases h
      rw [List.map_cons, List.map_cons, List.length_map, ih hrest]

theorem keepIntervals_isOk (h : p.length ≤ sels.length) :
    ∃ sels', keepIntervals toKeep p sels = .ok sels' := by
  induction p generalizing sels with
  | nil => exact ⟨sels, rfl⟩
  | cons slices p ih =>
    cases sels with
    | nil => simp at h
    | cons v sels =>
      obtain ⟨rest, hrest⟩ := ih (Nat.le_of_succ_le_succ h)
      exact ⟨_, by rw [keepIntervals, hrest, bind_ok]; rfl⟩

theorem keepSlices_below (h : keepSlices toKeep slices v = .ok w) : Below w v := by
  induction slices generalizing v w with
  | nil =>
    cases h
    exact below_refl v
  | cons s slices ih =>
    cases v with
    | nil =>
      rw [keepSlices] at h
      split at h
      · exact ih h
      · cases h
    | cons b v =>
      rw [keepSlices, bind_eq_ok] at h
      obtain ⟨rest, hrest, h⟩ := h
      cases h
      refine List.Forall₂.cons ?_ (ih hrest)
      intro hb
      split at hb
      · exact hb
      · cases hb

theorem keepAllSlices_below (h : keepAllSlices toKeep p sels = .ok sels') :
    List.Forall₂ Below sels' sels := by
  induction p generalizing sels sels' with
  | nil =>
    cases h
    exact belowEach_refl _
  | cons slices p ih =>
    cases sels with
    | nil =>
      rw [keepAllSlices] at h
      split at h
      · exact ih h
      · cases h
    | cons v sels =>
      rw [keepAllSlices, bind_eq_ok] at h
      obtain ⟨v', hv, h⟩ := h
      rw [bind_eq_ok] at h
      obtain ⟨rest, hrest, h⟩ := h
      cases h
      exact List.Forall₂.cons (keepSlices_below hv) (ih hrest)

/-- What the step returns, where it returns something. -/
theorem applyCu_eq_ok {keepInterval : Bool} (h : applyCu toKeep keepInterval sel d = .ok r) :
    ∃ sels p sels', sel.selSlices = some sels ∧ d.perIntervalSlices = some p ∧
      (if keepInterval then keepIntervals toKeep p sels else keepAllSlices toKeep p sels)
        = .ok sels' ∧ r = { sel with selSlices := some sels' } := by
  unfold applyCu at h
  split at h
  · cases h
  · rename_i sels hsels
    split at h
    · cases h
    · rename_i p hp
      have hr : ∃ sels', (if keepInterval then keepIntervals toKeep p sels
          else keepAllSlices toKeep p sels) = .ok sels' ∧
            r = { sel with selSlices := some sels' } := by
        split at h
        · rename_i hk
          rw [bind_eq_ok] at h
          obtain ⟨sels', h', h⟩ := h
          cases h
          exact ⟨sels', by rw [if_pos hk]; exact h', rfl⟩
        · rename_i hk
          rw [bind_eq_ok] at h
          obtain ⟨sels', h', h⟩ := h
          cases h
          exact ⟨sels', by rw [if_neg hk]; exact h', rfl⟩
      obtain ⟨sels', h', hr⟩ := hr
      exact ⟨sels, p, sels', hsels, hp, h', hr⟩

/-- The step keeps the shape. -/
theorem applyCu_sameShape {keepInterval : Bool}
    (h : applyCu toKeep keepInterval sel d = .ok r) : r.SameShape sel := by
  obtain ⟨sels, p, sels', hsels, -, h', rfl⟩ := applyCu_eq_ok h
  refine ⟨rfl, ?_⟩
  rw [hsels]
  refine congrArg some ?_
  split at h'
  · exact keepIntervals_lengths h'
  · exact belowEach_lengths (keepAllSlices_below h')

/-- The step clears flags only where it does not keep whole intervals. -/
theorem applyCu_below (h : applyCu toKeep false sel d = .ok r) : r.Below sel := by
  obtain ⟨sels, p, sels', hsels, -, h', rfl⟩ := applyCu_eq_ok h
  refine ⟨CuSel.relCounts_refl _, ?_⟩
  rw [hsels]
  exact .some (keepAllSlices_below h')

/-- The selection is full in every interval with a slice to keep. -/
def Full (toKeep : List ℕ) (sel : CuSel) (d : CuMonData) : Prop :=
  ∀ sels ∈ sel.selSlices, ∀ p ∈ d.perIntervalSlices, FullWhereKept toKeep p sels

/-- **Keeping whole intervals.**  The step clears flags only exactly if every interval
with a slice to keep is fully selected before. -/
theorem applyCu_below_iff (h : applyCu toKeep true sel d = .ok r) :
    r.Below sel ↔ Full toKeep sel d := by
  obtain ⟨sels, p, sels', hsels, hp, h', rfl⟩ := applyCu_eq_ok h
  have hiff := keepIntervals_below_iff h'
  constructor
  · rintro ⟨-, hb⟩
    rw [hsels] at hb
    cases hb with
    | some hb =>
      intro sels₁ h₁ p₁ hp₁
      rw [hsels, Option.mem_some_iff] at h₁
      rw [hp, Option.mem_some_iff] at hp₁
      subst h₁ hp₁
      exact hiff.mp hb
  · intro hfull
    refine ⟨CuSel.relCounts_refl _, ?_⟩
    rw [hsels]
    exact .some (hiff.mpr (hfull sels hsels p hp))

end HasTagStackId

/-! ## Steps -/

/-- The steps that are not made of others. -/
def Step.isPlain : Step → Bool
  | .byTimeStamp .. => true
  | .trimSlices .. => true
  | .hasTagStackId .. => true
  | .notOp .. => false
  | .binaryOp .. => false

/-- Whether the selection of a compute unit is one that the step narrows: it may be any
but for a step that keeps whole intervals. -/
def Step.NarrowsCu : Step → CuSel → CuMonData → Prop
  | .hasTagStackId _ toKeep true, sel, d => HasTagStackId.Full toKeep sel d
  | _, _, _ => True

variable {fuel : ℕ} {step : Step} {sel sel' r : CuSel} {d : CuMonData}

theorem Step.applyCu_sameShape_of_isPlain (hplain : step.isPlain)
    (h : step.applyCu fuel sel d = .ok r) : r.SameShape sel := by
  cases step with
  | byTimeStamp cpus f => exact (ByTimeStamp.applyCu_below h).sameShape
  | trimSlices cpus => exact (TrimSlices.applyCu_below h).sameShape
  | hasTagStackId cpus toKeep keepInterval => exact HasTagStackId.applyCu_sameShape h
  | notOp cpus operand => cases hplain
  | binaryOp cpus op first second rest => cases hplain

theorem Step.applyCu_below_iff (hplain : step.isPlain)
    (h : step.applyCu fuel sel d = .ok r) : r.Below sel ↔ step.NarrowsCu sel d := by
  cases step with
  | byTimeStamp cpus f => exact iff_of_true (ByTimeStamp.applyCu_below h) trivial
  | trimSlices cpus => exact iff_of_true (TrimSlices.applyCu_below h) trivial
  | hasTagStackId cpus toKeep keepInterval =>
    cases keepInterval with
    | true => exact HasTagStackId.applyCu_below_iff h
    | false => exact iff_of_true (HasTagStackId.applyCu_below h) trivial
  | notOp cpus operand => cases hplain
  | binaryOp cpus op first second rest => cases hplain

/-! ## Steps on all compute units -/

/-- No element is selected that is not selected in `b`, in any compute unit. -/
def Sel.Below (a b : Sel) : Prop :=
  ∀ cu, Option.Rel CuSel.Below (Dict.get? a cu) (Dict.get? b cu)

namespace Sel

variable {a b c : Sel}

theorem Below.refl (a : Sel) : Sel.Below a a := by
  intro cu
  cases Dict.get? a cu with
  | none => exact .none
  | some s => exact .some (CuSel.Below.refl s)

theorem Below.trans (h : Sel.Below a b) (h' : Sel.Below b c) : Sel.Below a c := by
  intro cu
  have h₁ := h cu
  have h₂ := h' cu
  revert h₁ h₂
  generalize Dict.get? a cu = x, Dict.get? b cu = y, Dict.get? c cu = z
  intro h₁ h₂
  cases h₁ with
  | none => exact h₂
  | some h₁ =>
    cases h₂ with
    | some h₂ => exact .some (h₁.trans h₂)

/-- There is a selection for each compute unit of the data, of the shape of its data. -/
def Fits (sel : Sel) (entries : List (ℕ × CuMonData)) : Prop :=
  ∀ e ∈ entries, ∃ s, Dict.get? sel e.1 = some s ∧ s.SameShape (CuSel.ofCuMonData e.2)

end Sel

section Entries

variable {entries : List (ℕ × CuMonData)} {sel sel' : Sel} {cu : ℕ} {d : CuMonData}

theorem applyEntry_eq_ok {e : ℕ × CuMonData} (h : step.applyEntry fuel sel e = .ok sel') :
    (step.skips e.1 = true ∧ sel' = sel) ∨
      (step.skips e.1 = false ∧ ∃ s s', Dict.get? sel e.1 = some s ∧
        step.applyCu fuel s e.2 = .ok s' ∧ sel' = Dict.put sel e.1 s') := by
  unfold Step.applyEntry at h
  split at h
  · rename_i hs
    cases h
    exact Or.inl ⟨hs, rfl⟩
  · rename_i hs
    right
    refine ⟨Bool.eq_false_iff.mpr hs, ?_⟩
    split at h
    · cases h
    · rename_i s hget
      rw [bind_eq_ok] at h
      obtain ⟨s', hs', h⟩ := h
      cases h
      exact ⟨s, s', hget, hs', rfl⟩

/-- A step leaves the compute units alone that it does not go through. -/
theorem foldlM_applyEntry_get_of_not_mem (h : entries.foldlM (step.applyEntry fuel) sel = .ok sel')
    (hcu : cu ∉ entries.map Prod.fst) : Dict.get? sel' cu = Dict.get? sel cu := by
  induction entries generalizing sel with
  | nil =>
    cases h
    rfl
  | cons e entries ih =>
    rw [List.map_cons, List.mem_cons, not_or] at hcu
    rw [List.foldlM_cons, bind_eq_ok] at h
    obtain ⟨mid, hmid, h⟩ := h
    rw [ih h hcu.2]
    rcases applyEntry_eq_ok hmid with ⟨-, rfl⟩ | ⟨-, s, s', -, -, rfl⟩
    · rfl
    · exact Dict.lookup_put_ne hcu.1

/-- What a step does to a compute unit that it goes through. -/
theorem foldlM_applyEntry_get (h : entries.foldlM (step.applyEntry fuel) sel = .ok sel')
    (hnd : (entries.map Prod.fst).Nodup) (hd : (cu, d) ∈ entries) :
    (step.skips cu = true ∧ Dict.get? sel' cu = Dict.get? sel cu) ∨
      (step.skips cu = false ∧ ∃ s s', Dict.get? sel cu = some s ∧
        step.applyCu fuel s d = .ok s' ∧ Dict.get? sel' cu = some s') := by
  induction entries generalizing sel with
  | nil => cases hd
  | cons e entries ih =>
    rw [List.map_cons, List.nodup_cons] at hnd
    rw [List.foldlM_cons, bind_eq_ok] at h
    obtain ⟨mid, hmid, h⟩ := h
    rcases List.mem_cons.mp hd with rfl | hd
    · rw [foldlM_applyEntry_get_of_not_mem h hnd.1]
      rcases applyEntry_eq_ok hmid with ⟨hs, rfl⟩ | ⟨hs, s, s', hget, hs', rfl⟩
      · exact Or.inl ⟨hs, rfl⟩
      · exact Or.inr ⟨hs, s, s', hget, hs', Dict.lookup_put_self⟩
    · have hne : cu ≠ e.1 := by
        rintro rfl
        exact hnd.1 (List.mem_map.mpr ⟨_, hd, rfl⟩)
      have hmidget : Dict.get? mid cu = Dict.get? sel cu := by
        rcases applyEntry_eq_ok hmid with ⟨-, rfl⟩ | ⟨-, s, s', -, -, rfl⟩
        · rfl
        · exact Dict.lookup_put_ne hne
      rw [← hmidget]
      exact ih h hnd.2 hd

/-- A step that keeps whole intervals has a result where there are slices. -/
theorem foldlM_applyEntry_isOk {cpus : Option CpuSet} {toKeep : List ℕ}
    (hfits : Sel.Fits sel entries) (hnd : (entries.map Prod.fst).Nodup)
    (hslices : ∀ e ∈ entries, (Step.hasTagStackId cpus toKeep true).skips e.1 = false →
      e.2.perIntervalSlices.isSome) :
    ∃ sel', entries.foldlM ((Step.hasTagStackId cpus toKeep true).applyEntry fuel) sel
      = .ok sel' := by
  induction entries generalizing sel with
  | nil => exact ⟨sel, rfl⟩
  | cons e entries ih =>
    rw [List.map_cons, List.nodup_cons] at hnd
    have hmid : ∃ mid, (Step.hasTagStackId cpus toKeep true).applyEntry fuel sel e = .ok mid := by
      unfold Step.applyEntry
      split
      · exact ⟨sel, rfl⟩
      · rename_i hs
        obtain ⟨s, hget, hshape⟩ := hfits e (by simp)
        rw [hget]
        obtain ⟨p, hp⟩ := Option.isSome_iff_exists.mp
          (hslices e (by simp) (Bool.eq_false_iff.mpr hs))
        have hsl := hshape.2
        rw [CuSel.ofCuMonData, hp] at hsl
        obtain ⟨sels, hsels, hlen⟩ := Option.map_eq_some_iff.mp hsl
        have hle : p.length ≤ sels.length := by
          have := congrArg List.length hlen
          simp only [List.length_map] at this
          omega
        obtain ⟨sels', hok⟩ := @HasTagStackId.keepIntervals_isOk toKeep p sels hle
        refine ⟨Dict.put sel e.1 { s with selSlices := some sels' }, ?_⟩
        simp only [Step.applyCu, HasTagStackId.applyCu, hsels, hp, if_true, hok]
        rfl
    obtain ⟨mid, hmid⟩ := hmid
    have hfits' : Sel.Fits mid entries := by
      intro e' he'
      obtain ⟨s, hget, hshape⟩ := hfits e' (by simp [he'])
      refine ⟨s, ?_, hshape⟩
      have hne : e'.1 ≠ e.1 := by
        intro h
        exact hnd.1 (List.mem_map.mpr ⟨e', he', h⟩)
      rcases applyEntry_eq_ok hmid with ⟨-, rfl⟩ | ⟨-, s, s', -, -, rfl⟩
      · exact hget
      · rw [← hget]
        exact Dict.lookup_put_ne hne
    obtain ⟨sel', h⟩ := ih hfits' hnd.2 fun e' he' => hslices e' (by simp [he'])
    exact ⟨sel', by rw [List.foldlM_cons, hmid, bind_ok, h]⟩

end Entries

section Chains

variable {τ μ : Type} {md : MonData τ μ} {sel sel' : Sel}

/-- Whether a step narrows a selection: where all compute units it goes through have
slices, it narrows the selection of each. -/
def Step.NarrowsAt (step : Step) (sel : Sel) (md : MonData τ μ) : Prop :=
  (∀ e ∈ md.perCuMonData, step.skips e.1 = false → e.2.perIntervalSlices.isSome) →
    ∀ e ∈ md.perCuMonData, step.skips e.1 = false →
      ∀ s ∈ Dict.get? sel e.1, step.NarrowsCu s e.2

theorem Step.narrowsCu_or (step : Step) : (∀ s d, step.NarrowsCu s d) ∨
    ∃ cpus toKeep, step = .hasTagStackId cpus toKeep true := by
  cases step with
  | hasTagStackId cpus toKeep keepInterval =>
    cases keepInterval with
    | true => exact Or.inr ⟨cpus, toKeep, rfl⟩
    | false => exact Or.inl fun _ _ => trivial
  | byTimeStamp => exact Or.inl fun _ _ => trivial
  | trimSlices => exact Or.inl fun _ _ => trivial
  | notOp => exact Or.inl fun _ _ => trivial
  | binaryOp => exact Or.inl fun _ _ => trivial

/-- A selection that fits the data still does after a step. -/
theorem Step.apply_fits (hplain : step.isPlain) (hfits : Sel.Fits sel md.perCuMonData)
    (h : step.apply fuel sel md = .ok sel') : Sel.Fits sel' md.perCuMonData := by
  intro e he
  obtain ⟨s, hget, hshape⟩ := hfits e he
  rcases foldlM_applyEntry_get h md.nodup he with ⟨-, hsame⟩ | ⟨-, s₁, s', hget₁, hok, hget'⟩
  · exact ⟨s, hsame.trans hget, hshape⟩
  · obtain rfl : s₁ = s := Option.some.inj (hget₁.symm.trans hget)
    exact ⟨s', hget', (Step.applyCu_sameShape_of_isPlain hplain hok).trans hshape⟩

/-- **One step.**  A step narrows the selection exactly where `NarrowsAt` says so. -/
theorem Step.apply_below_iff (hplain : step.isPlain)
    (hfits : Sel.Fits sel md.perCuMonData) :
    (∀ sel', step.apply fuel sel md = .ok sel' → Sel.Below sel' sel) ↔
      step.NarrowsAt sel md := by
  constructor
  · intro hbelow hslices e he hs s hget
    rcases step.narrowsCu_or with hall | ⟨cpus, toKeep, rfl⟩
    · exact hall s e.2
    · obtain ⟨sel', h⟩ := @foldlM_applyEntry_isOk fuel _ _ _ _ hfits md.nodup hslices
      rcases foldlM_applyEntry_get h md.nodup he with ⟨hs', -⟩ | ⟨-, s₁, s', hget₁, hok, hget'⟩
      · rw [hs] at hs'
        cases hs'
      · obtain rfl : s₁ = s := Option.some.inj (hget₁.symm.trans hget)
        have hb := hbelow sel' h e.1
        rw [hget', hget₁] at hb
        cases hb with
        | some hb => exact (Step.applyCu_below_iff hplain hok).mp hb
  · intro hnarrows sel' h cu
    have hslices : (∀ s d, step.NarrowsCu s d) ∨ ∀ e ∈ md.perCuMonData,
        step.skips e.1 = false → e.2.perIntervalSlices.isSome := by
      rcases step.narrowsCu_or with hall | ⟨cpus, toKeep, rfl⟩
      · exact Or.inl hall
      · right
        intro e he hs
        rcases foldlM_applyEntry_get h md.nodup he with ⟨hs', -⟩ | ⟨-, s₁, s', -, hok, -⟩
        · rw [hs] at hs'
          cases hs'
        · obtain ⟨-, p, -, -, hp, -⟩ := HasTagStackId.applyCu_eq_ok hok
          rw [hp]
          rfl
    by_cases hcu : cu ∈ md.perCuMonData.map Prod.fst
    · obtain ⟨e, he, rfl⟩ := List.mem_map.mp hcu
      rcases foldlM_applyEntry_get h md.nodup he with ⟨-, hsame⟩ | ⟨hs, s, s', hget, hok, hget'⟩
      · rw [hsame]
        exact Sel.Below.refl sel e.1
      · rw [hget, hget']
        refine .some ((Step.applyCu_below_iff hplain hok).mpr ?_)
        rcases hslices with hall | hslices
        · exact hall s e.2
        · exact hnarrows hslices e he hs s hget
    · rw [foldlM_applyEntry_get_of_not_mem h hcu]
      exact Sel.Below.refl sel cu

/-! ## Chains -/

/-- The selection after a step more, in a chain that may have raised. -/
def chainStep (fuel : ℕ) (md : MonData τ μ) (s : Except FilterFailure Sel) (step : Step) :
    Except FilterFailure Sel :=
  s >>= fun sel => step.apply fuel sel md

/-- The selection after the step is below the one before it. -/
def Shrinks (fuel : ℕ) (md : MonData τ μ) (s : Except FilterFailure Sel) (step : Step) : Prop :=
  ∀ sel, s = .ok sel → ∀ sel', step.apply fuel sel md = .ok sel' → Sel.Below sel' sel

/-- The step narrows the selection it is given. -/
def Narrow (md : MonData τ μ) (s : Except FilterFailure Sel) (step : Step) : Prop :=
  ∀ sel, s = .ok sel → step.NarrowsAt sel md

theorem foldl_chainStep_error {e : FilterFailure} (steps : List Step) :
    steps.foldl (chainStep fuel md) (.error e) = .error e := by
  induction steps with
  | nil => rfl
  | cons step steps ih => exact ih

theorem applySteps_eq_foldl (steps : List Step) (sel : Sel) :
    applySteps fuel md steps sel = steps.foldl (chainStep fuel md) (.ok sel) := by
  induction steps generalizing sel with
  | nil => rfl
  | cons step steps ih =>
    rw [applySteps, List.foldlM_cons, List.foldl_cons, chainStep, bind_ok]
    cases h : step.apply fuel sel md with
    | error e =>
      rw [foldl_chainStep_error]
      rfl
    | ok sel' => exact ih sel'

/-- With all keys different, a selection of everything fits. -/
theorem selectAll_fits (md : MonData τ μ) : Sel.Fits md.selectAll md.perCuMonData := by
  intro e he
  refine ⟨CuSel.ofCuMonData e.2, Dict.lookup_of_mem ?_ ?_, CuSel.SameShape.refl _⟩
  · rw [MonData.selectAll, List.map_map]
    exact md.nodup
  · exact List.mem_map.mpr ⟨e, he, rfl⟩

/-- The steps shrink the selection along a chain exactly where each narrows it. -/
theorem along_shrinks_iff {steps : List Step} (hplain : ∀ step ∈ steps, step.isPlain) :
    Along (chainStep fuel md) (Shrinks fuel md) (.ok md.selectAll) steps ↔
      Along (chainStep fuel md) (Narrow md) (.ok md.selectAll) steps := by
  refine along_congr_of_inv
    (J := fun s => ∀ sel, s = .ok sel → Sel.Fits sel md.perCuMonData) ?_ ?_ ?_ hplain
  · intro s step hJ hp sel' h
    obtain ⟨sel, hs, h⟩ := bind_eq_ok.mp h
    exact Step.apply_fits hp (hJ sel hs) h
  · intro s step hJ hp
    constructor
    · intro h sel hs
      exact (Step.apply_below_iff hp (hJ sel hs)).mp (h sel hs)
    · intro h sel hs
      exact (Step.apply_below_iff hp (hJ sel hs)).mpr (h sel hs)
  · rintro sel ⟨⟩
    exact selectAll_fits md

/-- A chain of steps that shrink ends below where it starts. -/
theorem below_of_along {steps : List Step} {s : Except FilterFailure Sel}
    (h : Along (chainStep fuel md) (Shrinks fuel md) s steps) (hs : s = .ok sel)
    (hlast : steps.foldl (chainStep fuel md) s = .ok sel') : Sel.Below sel' sel := by
  induction steps generalizing s sel with
  | nil =>
    obtain rfl : sel = sel' := Except.ok.inj (hs.symm.trans hlast)
    exact Sel.Below.refl sel
  | cons step steps ih =>
    rw [List.foldl_cons, chainStep, hs, bind_ok] at hlast
    cases hmid : step.apply fuel sel md with
    | error e =>
      rw [hmid, foldl_chainStep_error] at hlast
      cases hlast
    | ok mid =>
      have hmid' : chainStep fuel md s step = .ok mid := by rw [hs, chainStep, bind_ok, hmid]
      rw [hmid, ← hmid'] at hlast
      exact (ih h.2 hmid' hlast).trans (h.1 sel hs mid hmid)

/-! ## The data that is left -/

/-- The data has no element of `d` but those that `s` selects. -/
structure CuMonData.Within (out d : CuMonData) (s : CuSel) : Prop where
  rows : ∀ c' ∈ out.countData, ∃ c ∈ d.countData, ∃ f ∈ s.selCounts,
    c'.rows.Sublist (keep f c.rows)
  slices : ∀ p' ∈ out.perIntervalSlices, ∃ p ∈ d.perIntervalSlices, ∃ f ∈ s.selSlices,
    List.Forall₂ List.Sublist p' (List.zipWith keep f p)

/-- The data has no element of `md` but those that `sel` selects. -/
def MonData.Within (out md : MonData τ μ) (sel : Sel) : Prop :=
  ∀ e ∈ out.perCuMonData, ∃ d s, (e.1, d) ∈ md.perCuMonData ∧ Dict.get? sel e.1 = some s ∧
    e.2.Within d s

theorem zipWith_keep_sublist {as bs : List (List Bool)} (h : List.Forall₂ Masks.Below as bs)
    (p : PerIntervalSlices) :
    List.Forall₂ List.Sublist (List.zipWith keep as p) (List.zipWith keep bs p) := by
  induction h generalizing p with
  | nil => exact List.Forall₂.nil
  | cons hx _ ih =>
    cases p with
    | nil => exact List.Forall₂.nil
    | cons slices p => exact List.Forall₂.cons (hx.keep_sublist slices) (ih p)

theorem forall₂_sublist_trans {a b c : PerIntervalSlices} (h : List.Forall₂ List.Sublist a b)
    (h' : List.Forall₂ List.Sublist b c) : List.Forall₂ List.Sublist a c := by
  induction h generalizing c with
  | nil => exact h'
  | cons hx _ ih =>
    cases h' with
    | cons hy h' => exact List.Forall₂.cons (hx.trans hy) (ih h')

theorem CuMonData.Within.mono {out d : CuMonData} {s s' : CuSel} (h : out.Within d s)
    (hb : s.Below s') : out.Within d s' := by
  obtain ⟨hrows, hslices⟩ := h
  obtain ⟨counts, slices⟩ := s
  obtain ⟨counts', slices'⟩ := s'
  obtain ⟨h₁, h₂⟩ := hb
  constructor
  · intro c' hc'
    obtain ⟨c, hc, f, hf, hsub⟩ := hrows c' hc'
    cases h₁ with
    | none => cases hf
    | @some m m' h₁ =>
      obtain rfl : m = f := Option.mem_some_iff.mp hf
      exact ⟨c, hc, m', rfl, hsub.trans (h₁.keep_sublist c.rows)⟩
  · intro p' hp'
    obtain ⟨p, hp, f, hf, hsub⟩ := hslices p' hp'
    cases h₂ with
    | none => cases hf
    | @some m m' h₂ =>
      obtain rfl : m = f := Option.mem_some_iff.mp hf
      exact ⟨p, hp, m', rfl, forall₂_sublist_trans hsub (zipWith_keep_sublist h₂ p)⟩

theorem MonData.Within.mono {out : MonData τ μ} (h : out.Within md sel)
    (hb : Sel.Below sel sel') : out.Within md sel' := by
  intro e he
  obtain ⟨d, s, hd, hget, hw⟩ := h e he
  have hrel := hb e.1
  rw [hget] at hrel
  cases hget' : Dict.get? sel' e.1 with
  | none =>
    rw [hget'] at hrel
    cases hrel
  | some s' =>
    rw [hget'] at hrel
    cases hrel with
    | some hrel => exact ⟨d, s', hd, rfl, hw.mono hrel⟩

theorem deref_eq_ok {α : Type} {o : Option α} {a : α} : deref o = .ok a ↔ o = some a := by
  cases o with
  | none => exact iff_of_false (fun h => nomatch h) (fun h => nomatch h)
  | some b => exact ⟨fun h => congrArg some (Except.ok.inj h), fun h => by cases h; rfl⟩

theorem selectRows_within {d : CuMonData} {s : CuSel} {cd : Option CountData}
    (h : d.selectRows s = .ok cd) :
    ∀ c' ∈ cd, ∃ c ∈ d.countData, ∃ f ∈ s.selCounts, c'.rows.Sublist (keep f c.rows) := by
  intro c' hc'
  unfold CuMonData.selectRows at h
  split at h
  · cases h
    cases hc'
  · rename_i c hc
    obtain ⟨f, hf, h⟩ := bind_eq_ok.mp h
    obtain ⟨c₁, h, rfl⟩ := map_eq_ok.mp h
    obtain rfl : c₁ = c' := Option.mem_some_iff.mp hc'
    unfold CountData.filter at h
    split at h
    · cases h
    · cases h
      exact ⟨c, hc, f, deref_eq_ok.mp hf, List.Sublist.refl _⟩

theorem selectSlices_within {d : CuMonData} {s : CuSel} {ps : Option PerIntervalSlices}
    (h : d.selectSlices s = .ok ps) :
    ∀ p' ∈ ps, ∃ p ∈ d.perIntervalSlices, ∃ f ∈ s.selSlices,
      List.Forall₂ List.Sublist p' (List.zipWith keep f p) := by
  intro p' hp'
  unfold CuMonData.selectSlices at h
  split at h
  · cases h
    cases hp'
  · rename_i p hp
    obtain ⟨f, hf, h⟩ := bind_eq_ok.mp h
    obtain ⟨p₁, h, rfl⟩ := map_eq_ok.mp h
    obtain rfl : p₁ = p' := Option.mem_some_iff.mp hp'
    unfold PerIntervalSlices.filter at h
    split at h
    · cases h
    · split at h
      · cases h
        exact ⟨p, hp, f, deref_eq_ok.mp hf,
          List.forall₂_same.mpr fun _ _ => List.Sublist.refl _⟩
      · cases h

theorem makeCuMonData_within {cu : ℕ} {s : CuSel} {out : CuMonData}
    (h : makeCuMonData md cu s = .ok out) : ∃ d, (cu, d) ∈ md.perCuMonData ∧ out.Within d s := by
  obtain ⟨d, hd, h⟩ := bind_eq_ok.mp h
  obtain ⟨cd, hcd, h⟩ := bind_eq_ok.mp h
  obtain ⟨ps, hps, h⟩ := bind_eq_ok.mp h
  refine ⟨d, Dict.mem_of_lookup (deref_eq_ok.mp hd), ?_⟩
  cases h
  exact ⟨selectRows_within hcd, selectSlices_within hps⟩

/-- The data made from a selection has no element but those that it selects. -/
theorem makeMonData_within {out : MonData τ μ} (hnd : (sel.map Prod.fst).Nodup)
    (h : makeMonData md sel = .ok out) : out.Within md sel := by
  refine foldlM_invariant (P := fun out : MonData τ μ => out.Within md sel) ?_ ?_ h
  · intro e he out out' hout h e' he'
    obtain ⟨d', hd', h⟩ := bind_eq_ok.mp h
    cases h
    rcases Dict.mem_put he' with rfl | he'
    · obtain ⟨d, hd, hw⟩ := makeCuMonData_within hd'
      exact ⟨d, e.2, hd, Dict.lookup_of_mem hnd he, hw⟩
    · exact hout e' he'
  · intro e he
    cases he

/-- No compute unit is selected from twice. -/
theorem applySteps_nodup {steps : List Step} (h : applySteps fuel md steps sel = .ok sel')
    (hnd : (sel.map Prod.fst).Nodup) : (sel'.map Prod.fst).Nodup := by
  refine foldlM_invariant (P := fun sel : Sel => (sel.map Prod.fst).Nodup) ?_ hnd h
  intro step _ sel₁ sel₂ hnd₁ h₁
  refine foldlM_invariant (P := fun sel : Sel => (sel.map Prod.fst).Nodup) ?_ hnd₁ h₁
  intro e _ sel₃ sel₄ hnd₃ h₃
  rcases applyEntry_eq_ok h₃ with ⟨-, rfl⟩ | ⟨-, s, s', -, -, rfl⟩
  · exact hnd₃
  · exact Dict.nodup_put hnd₃

/-- The selections of a chain narrow: each is below the one before it, and has its shape,
and what one of them does not select is not in the data that the chain leaves. -/
structure Narrows (fuel : ℕ) (md : MonData τ μ) (steps : List Step) : Prop where
  shrinks : Along (chainStep fuel md) (Shrinks fuel md) (.ok md.selectAll) steps
  dropped : ∀ k sel out, applySteps fuel md (steps.take k) md.selectAll = .ok sel →
    FilterChain.apply fuel md steps = .ok out → out.Within md sel

/-- A chain that ends leaves what its last selection selects. -/
theorem apply_eq_ok {steps : List Step} {out : MonData τ μ}
    (h : FilterChain.apply fuel md steps = .ok out) :
    ∃ sel, applySteps fuel md steps md.selectAll = .ok sel ∧ makeMonData md sel = .ok out := by
  rw [FilterChain.apply] at h
  split at h
  · cases h
  · exact bind_eq_ok.mp h

theorem dropped_of_shrinks {steps : List Step} {k : ℕ} {out : MonData τ μ}
    (hshrinks : Along (chainStep fuel md) (Shrinks fuel md) (.ok md.selectAll) steps)
    (hk : applySteps fuel md (steps.take k) md.selectAll = .ok sel)
    (hout : FilterChain.apply fuel md steps = .ok out) : out.Within md sel := by
  obtain ⟨last, hlast, hout⟩ := apply_eq_ok hout
  have hnd : (md.selectAll.map Prod.fst).Nodup := by
    rw [MonData.selectAll, List.map_map]
    exact md.nodup
  have hw : out.Within md last := makeMonData_within (applySteps_nodup hlast hnd) hout
  -- The rest of the chain starts at the selection in question.
  rw [applySteps_eq_foldl] at hk hlast
  rw [← List.take_append_drop k steps, List.foldl_append, hk] at hlast
  rw [← List.take_append_drop k steps, along_append, hk] at hshrinks
  exact hw.mono (below_of_along hshrinks.2 rfl hlast)

/-- **Chains narrow.**  For every data and every chain of `ByTimeStamp`, `TrimSlices` and
`HasTagStackId` steps, the selections narrow exactly if every step that keeps whole
intervals finds those it keeps fully selected. -/
theorem narrows_iff (fuel : ℕ) (md : MonData τ μ) (steps : List Step)
    (hplain : ∀ step ∈ steps, step.isPlain) :
    Narrows fuel md steps ↔
      Along (chainStep fuel md) (Narrow md) (.ok md.selectAll) steps := by
  rw [← along_shrinks_iff hplain]
  constructor
  · exact Narrows.shrinks
  · intro h
    exact ⟨h, fun k sel out hk hout => dropped_of_shrinks h hk hout⟩

end Chains

/-! ## An interval that comes back -/

theorem cpu_ne_empty : "cpu" ≠ "" := by decide

/-- Two slices of one interval. -/
def twoSlices : MonData Unit Unit where
  shortDesc := ""
  longDesc := ""
  tsConverter := ()
  partitionSourceKey := "cpu"
  perCuMonData := [(0, ⟨none, some [[⟨10, 5, 1, .na, .na⟩, ⟨15, 5, 2, .na, .na⟩]]⟩)]
  metadata := none
  partitionSourceKey_ne := cpu_ne_empty
  nodup := by decide

theorem narrows_twoSlices : Narrows 0 twoSlices [.hasTagStackId none [2] true] := by
  refine (narrows_iff 0 twoSlices _ (by decide)).mpr ⟨?_, trivial⟩
  rintro sel ⟨⟩ - e he -
  obtain rfl := List.mem_singleton.mp he
  rintro s ⟨⟩ sels ⟨⟩ p ⟨⟩
  decide

/-- The second slice is dropped, and then selected again with its interval. -/
theorem not_narrows_keepInterval :
    ¬ Narrows 0 twoSlices [.hasTagStackId none [1] false, .hasTagStackId none [1] true] := by
  intro h
  have hb : Option.Rel CuSel.Below (some ⟨none, some [[true, true]]⟩)
      (some ⟨none, some [[true, false]]⟩) := h.shrinks.2.1 _ rfl _ rfl 0
  cases hb with
  | some hb =>
    obtain ⟨-, hb⟩ := hb
    cases hb with
    | some hb =>
      obtain ⟨hmasks, -⟩ := List.forall₂_cons.mp hb
      obtain ⟨-, hmasks⟩ := List.forall₂_cons.mp hmasks
      obtain ⟨hsecond, -⟩ := List.forall₂_cons.mp hmasks
      cases hsecond rfl

end Mon
end IntegratedCLI
