import Mathlib.Data.List.Induction
import Mathlib.Data.Option.NAry
import Mathlib.Order.Lattice
import IntegratedCLI.Mon.Narrowing

/-!
# Combining filters

`LogicalOr`, `LogicalAnd` and `LogicalXor` apply their operands to the same selection,
and are to select what the or, the and or the xor of the operands' selections selects.
For the slices they do.  The loop over the rows never ends where there is a row, as it
does not advance.

## Main results

* `combined_iff_noRows` : a combination of steps that each select something ends, with
  the selection that combines theirs at every row and every slice, exactly if there is
  no flag of a row.
* `Step.applyCu_ends` : without flags of rows every step ends.
* `binaryOp_outOfFuel` : with one, no combination of steps does that end.
-/

namespace IntegratedCLI
namespace Mon

open Fallible Masks

/-- Induction on steps. -/
theorem Step.induction {P : Step → Prop}
    (byTimeStamp : ∀ cpus f, P (.byTimeStamp cpus f))
    (trimSlices : ∀ cpus, P (.trimSlices cpus))
    (hasTagStackId : ∀ cpus toKeep keepInterval, P (.hasTagStackId cpus toKeep keepInterval))
    (notOp : ∀ cpus operand, P operand → P (.notOp cpus operand))
    (binaryOp : ∀ cpus op first second rest, P first → P second → (∀ o ∈ rest, P o) →
      P (.binaryOp cpus op first second rest)) (step : Step) : P step := by
  refine @Step.rec P (fun rest => ∀ o ∈ rest, P o)
    byTimeStamp trimSlices hasTagStackId notOp binaryOp ?_ ?_ step
  · intro o ho
    cases ho
  · intro o rest ih₁ ih₂ o' ho'
    rcases List.mem_cons.mp ho' with rfl | ho'
    · exact ih₁
    · exact ih₂ o' ho'

/-! ## The combination of two selections -/

section Combine

variable {op : BinaryOpType} {fuel fuel' newIt bIt : ℕ} {sel newSel bSel r : CuSel}

namespace CuSel

/-- There is no flag of a row. -/
def NoRows (a : CuSel) : Prop := a.selCounts.getD [] = []

instance (a : CuSel) : Decidable a.NoRows := inferInstanceAs (Decidable (_ = _))

theorem SameShape.noRows_iff {a b : CuSel} (h : a.SameShape b) : a.NoRows ↔ b.NoRows := by
  obtain ⟨ca, sa⟩ := a
  obtain ⟨cb, sb⟩ := b
  have h₁ := h.1
  cases ca with
  | none =>
    cases cb with
    | none => rfl
    | some cb => cases h₁
  | some ca =>
    cases cb with
    | none => cases h₁
    | some cb =>
      have hlen : ca.length = cb.length := Option.some.inj h₁
      simp only [NoRows, Option.getD_some, ← List.length_eq_zero_iff, hlen]

/-- The flags of two selections combined. -/
def zip (op : BinaryOpType) (a b : CuSel) : CuSel :=
  ⟨Option.map₂ (List.zipWith op.eval) a.selCounts b.selCounts,
    Option.map₂ (List.zipWith (List.zipWith op.eval)) a.selSlices b.selSlices⟩

end CuSel

namespace BinaryOp

/-- The loop over the rows ends only where there is none. -/
theorem combineCounts_ne_nil {x : Bool} {new b : List Bool} {y : Bool} :
    combineCounts op fuel 0 0 (x :: new) (y :: b) = .error .outOfFuel := by
  induction fuel generalizing x with
  | zero => rfl
  | succ fuel ih =>
    rw [combineCounts, if_neg (by simp)]
    exact ih

theorem combineSlices_eq {v w : List Bool} (h : v.length = w.length) :
    combineSlices op v w = .ok (List.zipWith op.eval v w) := by
  induction v generalizing w with
  | nil =>
    obtain rfl := List.length_eq_zero_iff.mp h.symm
    rfl
  | cons x v ih =>
    cases w with
    | nil => cases h
    | cons y w =>
      rw [combineSlices, ih (Nat.succ.inj h)]
      rfl

theorem combineIntervals_eq {new b : List (List Bool)}
    (h : new.map List.length = b.map List.length) :
    combineIntervals op new b = .ok (List.zipWith (List.zipWith op.eval) new b) := by
  induction new generalizing b with
  | nil =>
    obtain rfl := List.map_eq_nil_iff.mp h.symm
    rfl
  | cons v new ih =>
    cases b with
    | nil => cases h
    | cons w b =>
      obtain ⟨hv, hnew⟩ := List.cons_eq_cons.mp h
      rw [combineIntervals, combineSlices_eq hv, bind_ok, ih hnew]
      rfl

theorem checkPresent_of_sameShape (h : newSel.SameShape sel) :
    checkPresent sel newSel = .ok () := by
  obtain ⟨h₁, h₂⟩ := h
  have h₁' := congrArg Option.isSome h₁
  have h₂' := congrArg Option.isSome h₂
  rw [Option.isSome_map, Option.isSome_map] at h₁' h₂'
  rw [checkPresent, if_neg (by simp [h₁']), if_neg (by simp [h₂'])]
  rfl

/-- Without flags of rows, selections of one shape are combined flag by flag. -/
theorem combine_eq_zip (hnew : newSel.SameShape sel) (hb : bSel.SameShape sel)
    (hrows : sel.NoRows) :
    combine op (fuel + 1) sel newSel bSel = .ok (newSel.zip op bSel) := by
  have hrows' : newSel.NoRows := hnew.noRows_iff.mpr hrows
  rw [combine, checkPresent_of_sameShape hb, bind_ok]
  have hshape := hnew.trans hb.symm
  clear hnew hb hrows
  obtain ⟨c₁, s₁⟩ := newSel
  obtain ⟨c₂, s₂⟩ := bSel
  obtain ⟨hc, hs⟩ := hshape
  have hcounts : combineBoth (combineCounts op (fuel + 1) 0 0) c₁ c₂ =
      .ok (Option.map₂ (List.zipWith op.eval) c₁ c₂) := by
    cases c₁ with
    | none =>
      cases c₂ with
      | none => rfl
      | some c₂ => cases hc
    | some c₁ =>
      cases c₂ with
      | none => cases hc
      | some c₂ =>
        obtain rfl : c₁ = [] := hrows'
        rfl
  have hslices : combineBoth (combineIntervals op) s₁ s₂ =
      .ok (Option.map₂ (List.zipWith (List.zipWith op.eval)) s₁ s₂) := by
    cases s₁ with
    | none =>
      cases s₂ with
      | none => rfl
      | some s₂ => cases hs
    | some s₁ =>
      cases s₂ with
      | none => cases hs
      | some s₂ =>
        rw [combineBoth, combineIntervals_eq (Option.some.inj hs)]
        rfl
  rw [hcounts, bind_ok, hslices, bind_ok]
  rfl

/-- With a flag of a row, selections of one shape are never combined. -/
theorem combine_outOfFuel (hnew : newSel.SameShape sel) (hb : bSel.SameShape sel)
    (hrows : ¬ sel.NoRows) :
    combine op fuel sel newSel bSel = .error .outOfFuel := by
  have hrows₁ : ¬ newSel.NoRows := fun h => hrows (hnew.noRows_iff.mp h)
  have hrows₂ : ¬ bSel.NoRows := fun h => hrows (hb.noRows_iff.mp h)
  rw [combine, checkPresent_of_sameShape hb, bind_ok]
  have hcounts : combineBoth (combineCounts op fuel 0 0) newSel.selCounts bSel.selCounts =
      .error .outOfFuel := by
    rw [CuSel.NoRows] at hrows₁ hrows₂
    match newSel.selCounts, bSel.selCounts, hrows₁, hrows₂ with
    | some (x :: new), some (y :: b), _, _ =>
      rw [combineBoth, combineCounts_ne_nil]
      rfl
    | none, _, h, _ => exact absurd rfl h
    | some [], _, h, _ => exact absurd rfl h
    | some (x :: new), none, _, h => exact absurd rfl h
    | some (x :: new), some [], _, h => exact absurd rfl h
  rw [hcounts, bind_error]

theorem combineBoth_approx {α : Type} {f g : α → α → Except FilterFailure α}
    (h : ∀ x y, Approx .outOfFuel (f x y) (g x y)) (x y : Option α) :
    Approx .outOfFuel (combineBoth f x y) (combineBoth g x y) := by
  match x, y with
  | some x, some y => exact (h x y).map some
  | none, some _ => exact approx_refl _
  | none, none => exact approx_refl _
  | some _, none => exact approx_refl _

theorem combineCounts_approx (h : fuel ≤ fuel') (new b : List Bool) :
    Approx .outOfFuel (combineCounts op fuel newIt bIt new b)
      (combineCounts op fuel' newIt bIt new b) := by
  induction fuel generalizing fuel' new with
  | zero => exact Or.inl rfl
  | succ fuel ih =>
    obtain ⟨fuel', rfl⟩ := Nat.exists_eq_add_of_lt h
    rw [show fuel + fuel' + 1 = (fuel + fuel') + 1 from rfl, combineCounts, combineCounts]
    split
    · exact approx_refl _
    · split
      · exact ih (Nat.le_add_right _ _) _
      · exact approx_refl _

theorem combine_approx (h : fuel ≤ fuel') (sel newSel bSel : CuSel) :
    Approx .outOfFuel (combine op fuel sel newSel bSel) (combine op fuel' sel newSel bSel) := by
  refine (approx_refl _).bind fun _ => ?_
  refine (combineBoth_approx (combineCounts_approx h) _ _).bind fun counts => ?_
  exact approx_refl _

end BinaryOp

end Combine

/-! ## Shapes -/

section Shapes

variable {op : BinaryOpType} {fuel : ℕ} {sel newSel bSel r : CuSel} {d : CuMonData}

theorem zipWith_lengths {a b : List (List Bool)} (h : a.map List.length = b.map List.length) :
    (List.zipWith (List.zipWith op.eval) a b).map List.length = a.map List.length := by
  induction a generalizing b with
  | nil => rfl
  | cons v a ih =>
    cases b with
    | nil => cases h
    | cons w b =>
      obtain ⟨hv, ha⟩ := List.cons_eq_cons.mp h
      rw [List.zipWith_cons_cons, List.map_cons, List.map_cons, List.length_zipWith, ih ha, hv,
        Nat.min_self]

theorem CuSel.zip_sameShape {a b : CuSel} (h : a.SameShape b) :
    (a.zip op b).SameShape a := by
  obtain ⟨c₁, s₁⟩ := a
  obtain ⟨c₂, s₂⟩ := b
  obtain ⟨hc, hs⟩ := h
  constructor
  · cases c₁ with
    | none => rfl
    | some c₁ =>
      cases c₂ with
      | none => cases hc
      | some c₂ =>
        have hlen : c₁.length = c₂.length := Option.some.inj hc
        exact congrArg some (by rw [List.length_zipWith, hlen, Nat.min_self])
  · cases s₁ with
    | none => rfl
    | some s₁ =>
      cases s₂ with
      | none => cases hs
      | some s₂ => exact congrArg some (zipWith_lengths (Option.some.inj hs))

/-- What a combination of two selections returns, where it returns something. -/
theorem BinaryOp.combine_eq_ok (hnew : newSel.SameShape sel) (hb : bSel.SameShape sel)
    (h : combine op fuel sel newSel bSel = .ok r) : sel.NoRows ∧ r = newSel.zip op bSel := by
  have hrows : sel.NoRows := by
    by_contra hrows
    rw [combine_outOfFuel hnew hb hrows] at h
    cases h
  have h' := (combine_approx (Nat.le_succ fuel) sel newSel bSel).eq_ok h
  rw [combine_eq_zip hnew hb hrows] at h'
  exact ⟨hrows, (Except.ok.inj h').symm⟩

theorem NotOp.flip_sameShape (sel : CuSel) : (NotOp.flip sel).SameShape sel := by
  obtain ⟨counts, slices⟩ := sel
  constructor
  · cases counts with
    | none => rfl
    | some counts => exact congrArg some (List.length_map not)
  · cases slices with
    | none => rfl
    | some slices =>
      refine congrArg some ?_
      rw [List.map_map]
      exact List.map_congr_left fun v _ => List.length_map not

/-- The operands from the third one on are a fold. -/
theorem Step.applyRest_eq_foldlM (rest : List Step) (newSel : CuSel) :
    Step.applyRest fuel op sel d rest newSel =
      rest.foldlM (fun newSel o => do
        let bSel ← o.applyCu fuel sel d
        BinaryOp.combine op fuel sel newSel bSel) newSel := by
  induction rest generalizing newSel with
  | nil => rfl
  | cons o rest ih =>
    rw [Step.applyRest, List.foldlM_cons, bind_assoc]
    refine congrArg _ (funext fun bSel => ?_)
    exact congrArg _ (funext fun newSel => ih newSel)

/-- A step keeps the shape of a selection. -/
theorem Step.applyCu_sameShape (step : Step) (h : step.applyCu fuel sel d = .ok r) :
    r.SameShape sel := by
  induction step using Step.induction generalizing r with
  | byTimeStamp cpus f => exact Step.applyCu_sameShape_of_isPlain rfl h
  | trimSlices cpus => exact Step.applyCu_sameShape_of_isPlain rfl h
  | hasTagStackId cpus toKeep keepInterval => exact Step.applyCu_sameShape_of_isPlain rfl h
  | notOp cpus operand ih =>
    rw [Step.applyCu, map_eq_ok] at h
    obtain ⟨s, hs, rfl⟩ := h
    exact (NotOp.flip_sameShape s).trans (ih hs)
  | binaryOp cpus op first second rest ih₁ ih₂ ih =>
    rw [Step.applyCu, bind_eq_ok] at h
    obtain ⟨s₁, h₁, h⟩ := h
    obtain ⟨-, -, h⟩ := bind_eq_ok.mp h
    obtain ⟨s₂, h₂, h⟩ := bind_eq_ok.mp h
    obtain ⟨s, hs, h⟩ := bind_eq_ok.mp h
    rw [Step.applyRest_eq_foldlM] at h
    refine foldlM_invariant (P := fun s : CuSel => s.SameShape sel) ?_ ?_ h
    · intro o ho s s' hshape h'
      obtain ⟨b, hb, h'⟩ := bind_eq_ok.mp h'
      obtain ⟨-, rfl⟩ := BinaryOp.combine_eq_ok hshape (ih o ho hb) h'
      exact (CuSel.zip_sameShape (hshape.trans (ih o ho hb).symm)).trans hshape
    · obtain ⟨-, rfl⟩ := BinaryOp.combine_eq_ok (ih₁ h₁) (ih₂ h₂) hs
      exact (CuSel.zip_sameShape ((ih₁ h₁).trans (ih₂ h₂).symm)).trans (ih₁ h₁)

end Shapes

/-! ## Fuel -/

section Fuel

variable {fuel fuel' : ℕ} {sel r : CuSel} {d : CuMonData} {step : Step}

theorem foldlM_approx {α : Type} {e : FilterFailure} {xs : List α}
    {f g : CuSel → α → Except FilterFailure CuSel}
    (h : ∀ x ∈ xs, ∀ s, Approx e (f s x) (g s x)) (s : CuSel) :
    Approx e (xs.foldlM f s) (xs.foldlM g s) := by
  induction xs generalizing s with
  | nil => exact approx_refl _
  | cons x xs ih =>
    rw [List.foldlM_cons, List.foldlM_cons]
    exact (h x (by simp) s).bind fun s' => ih (fun y hy => h y (by simp [hy])) s'

/-- More fuel changes no result. -/
theorem Step.applyCu_approx (h : fuel ≤ fuel') (step : Step) (sel : CuSel) (d : CuMonData) :
    Approx .outOfFuel (step.applyCu fuel sel d) (step.applyCu fuel' sel d) := by
  induction step using Step.induction with
  | byTimeStamp cpus f => exact approx_refl _
  | trimSlices cpus => exact approx_refl _
  | hasTagStackId cpus toKeep keepInterval => exact approx_refl _
  | notOp cpus operand ih => exact ih.map _
  | binaryOp cpus op first second rest ih₁ ih₂ ih =>
    rw [Step.applyCu, Step.applyCu]
    refine ih₁.bind fun s₁ => (approx_refl _).bind fun _ => ih₂.bind fun s₂ => ?_
    refine (BinaryOp.combine_approx h sel s₁ s₂).bind fun s => ?_
    rw [Step.applyRest_eq_foldlM, Step.applyRest_eq_foldlM]
    refine foldlM_approx ?_ s
    exact fun o ho s => (ih o ho).bind fun b => BinaryOp.combine_approx h sel s b

/-- The step ends with a selection. -/
def Step.Selects (step : Step) (sel : CuSel) (d : CuMonData) (r : CuSel) : Prop :=
  ∃ fuel, step.applyCu fuel sel d = .ok r

theorem Step.Selects.sameShape (h : step.Selects sel d r) : r.SameShape sel :=
  h.elim fun _ h => step.applyCu_sameShape h

/-- Steps that end with a selection do so with one amount of fuel. -/
theorem exists_fuel {steps : List Step} {own : List CuSel}
    (h : List.Forall₂ (fun o s => Step.Selects o sel d s) steps own) :
    ∃ fuel, ∀ fuel', fuel ≤ fuel' →
      List.Forall₂ (fun o s => Step.applyCu fuel' o sel d = .ok s) steps own := by
  induction h with
  | nil => exact ⟨0, fun _ _ => List.Forall₂.nil⟩
  | @cons o s steps own ho _ ih =>
    obtain ⟨n, hn⟩ := ho
    obtain ⟨m, hm⟩ := ih
    refine ⟨max n m, fun fuel' hle => List.Forall₂.cons ?_ (hm fuel' (le_trans (le_max_right n m) hle))⟩
    exact (o.applyCu_approx (le_trans (le_max_left n m) hle) sel d).eq_ok hn

end Fuel

/-! ## Steps that end -/

section Ends

variable {fuel : ℕ} {sel : CuSel} {d : CuMonData} {step : Step}

/-- The step does not run out of fuel. -/
def Ends {α : Type} (x : Except FilterFailure α) : Prop := x ≠ .error .outOfFuel

theorem ends_pure {α : Type} (a : α) : Ends (pure a) := fun h => nomatch h

theorem ends_throw {α : Type} {e : FilterFailure} (h : e ≠ .outOfFuel) :
    Ends (throw e : Except FilterFailure α) := fun he => h (Except.error.inj he)

theorem Ends.bind {α β : Type} {x : Except FilterFailure α} {f : α → Except FilterFailure β}
    (hx : Ends x) (hf : ∀ a, x = .ok a → Ends (f a)) : Ends (x >>= f) := by
  intro h
  rcases bind_eq_error.mp h with h | ⟨a, ha, h⟩
  · exact hx h
  · exact hf a ha h

theorem Ends.map {α β : Type} {x : Except FilterFailure α} (hx : Ends x) (f : α → β) :
    Ends (f <$> x) := fun h => hx (map_eq_error.mp h)

theorem ends_deref {α : Type} (o : Option α) : Ends (deref o) := by
  cases o with
  | none => exact ends_throw (by decide)
  | some a => exact ends_pure a

namespace ByTimeStamp

theorem bounds_ends (f : ByTimeStamp) (range : ℕ × ℕ) (num : ℕ) (findAt : ℕ → Option ℕ) :
    Ends (f.bounds range num findAt) := by
  refine Ends.bind ?_ fun startIdx _ => Ends.bind ?_ fun endIdx _ => ends_pure _
  · unfold startIdx
    split_ifs
    · exact ends_pure _
    · exact ends_pure _
    · exact ends_deref _
  · unfold endIdx
    split_ifs
    · exact ends_pure _
    · exact ends_pure _
    · exact ends_deref _

theorem filterCounts_ends (f : ByTimeStamp) : Ends (f.filterCounts sel d) := by
  unfold filterCounts
  split
  · exact ends_throw (by decide)
  · split
    · exact ends_throw (by decide)
    · split
      · exact ends_pure _
      · refine (bounds_ends f _ _ _).bind fun b _ => ?_
        dsimp only
        split
        · exact ends_throw (by decide)
        · exact ends_pure _

theorem filterSlices_ends (f : ByTimeStamp) : Ends (f.filterSlices sel d) := by
  unfold filterSlices
  split
  · exact ends_throw (by decide)
  · split
    · exact ends_throw (by decide)
    · split
      · exact ends_pure _
      · refine (bounds_ends f _ _ _).bind fun b _ => ?_
        dsimp only
        split
        · exact ends_throw (by decide)
        · exact ends_pure _

theorem applyCu_ends (f : ByTimeStamp) : Ends (f.applyCu sel d) := by
  refine Ends.bind ?_ fun newSel _ => ?_
  · split
    · exact filterCounts_ends f
    · exact ends_pure _
  · split
    · exact filterSlices_ends f
    · exact ends_pure _

end ByTimeStamp

theorem TrimSlices.applyCu_ends : Ends (TrimSlices.applyCu sel d) := by
  unfold TrimSlices.applyCu
  split
  · exact ends_throw (by decide)
  · split
    · exact ends_throw (by decide)
    · split
      · exact ends_throw (by decide)
      · split
        · exact ends_throw (by decide)
        · split
          · exact ends_throw (by decide)
          · exact ends_pure _

namespace HasTagStackId

variable {toKeep : List ℕ}

theorem keepIntervals_ends (p : PerIntervalSlices) (sels : List (List Bool)) :
    Ends (keepIntervals toKeep p sels) := by
  induction p generalizing sels with
  | nil => exact ends_pure _
  | cons slices p ih =>
    cases sels with
    | nil => exact ends_throw (by decide)
    | cons v sels => exact (ih sels).bind fun _ _ => ends_pure _

theorem keepSlices_ends (slices : List Tagstack.Slice) (v : List Bool) :
    Ends (keepSlices toKeep slices v) := by
  induction slices generalizing v with
  | nil => exact ends_pure _
  | cons s slices ih =>
    cases v with
    | nil =>
      rw [keepSlices]
      split
      · exact ih []
      · exact ends_throw (by decide)
    | cons b v => exact (ih v).bind fun _ _ => ends_pure _

theorem keepAllSlices_ends (p : PerIntervalSlices) (sels : List (List Bool)) :
    Ends (keepAllSlices toKeep p sels) := by
  induction p generalizing sels with
  | nil => exact ends_pure _
  | cons slices p ih =>
    cases sels with
    | nil =>
      rw [keepAllSlices]
      split
      · exact ih []
      · exact ends_throw (by decide)
    | cons v sels =>
      exact (keepSlices_ends slices v).bind fun _ _ => (ih sels).bind fun _ _ => ends_pure _

theorem applyCu_ends {keepInterval : Bool} : Ends (applyCu toKeep keepInterval sel d) := by
  unfold applyCu
  split
  · exact ends_throw (by decide)
  · split
    · exact ends_throw (by decide)
    · split
      · exact (keepIntervals_ends _ _).bind fun _ _ => ends_pure _
      · exact (keepAllSlices_ends _ _).bind fun _ _ => ends_pure _

end HasTagStackId

/-- Without flags of rows every step ends, with a selection or with an exception. -/
theorem Step.applyCu_ends (hrows : sel.NoRows) (step : Step) :
    Ends (step.applyCu (fuel + 1) sel d) := by
  -- A combination of two selections of the shape of `sel` ends.
  have hcombine : ∀ {op : BinaryOpType} {s b : CuSel}, s.SameShape sel → b.SameShape sel →
      Ends (BinaryOp.combine op (fuel + 1) sel s b) := by
    intro op s b hs hb
    rw [BinaryOp.combine_eq_zip hs hb hrows]
    exact ends_pure _
  have hzip : ∀ {op : BinaryOpType} {s b s' : CuSel}, s.SameShape sel → b.SameShape sel →
      BinaryOp.combine op (fuel + 1) sel s b = .ok s' → s'.SameShape sel := by
    intro op s b s' hs hb h
    obtain ⟨-, rfl⟩ := BinaryOp.combine_eq_ok hs hb h
    exact (CuSel.zip_sameShape (hs.trans hb.symm)).trans hs
  induction step using Step.induction with
  | byTimeStamp cpus f => exact ByTimeStamp.applyCu_ends f
  | trimSlices cpus => exact TrimSlices.applyCu_ends
  | hasTagStackId cpus toKeep keepInterval => exact HasTagStackId.applyCu_ends
  | notOp cpus operand ih => exact ih.map _
  | binaryOp cpus op first second rest ih₁ ih₂ ih =>
    refine ih₁.bind fun s₁ h₁ => ?_
    have hs₁ := first.applyCu_sameShape h₁
    rw [BinaryOp.checkPresent_of_sameShape hs₁, bind_ok]
    refine ih₂.bind fun s₂ h₂ => ?_
    have hs₂ := second.applyCu_sameShape h₂
    refine (hcombine hs₁ hs₂).bind fun s h => ?_
    have hs := hzip hs₁ hs₂ h
    clear h hs₁ hs₂ h₁ h₂ ih₁ ih₂
    induction rest generalizing s with
    | nil => exact ends_pure s
    | cons o rest ihrest =>
      rw [Step.applyRest]
      refine (ih o (by simp)).bind fun b hb => ?_
      have hb' := o.applyCu_sameShape hb
      refine (hcombine hs hb').bind fun s' h' => ?_
      exact ihrest (fun o' ho' => ih o' (by simp [ho'])) s' (hzip hs hb' h')

end Ends

/-! ## Pointwise combinations -/

/-- The flags of several selections combined. -/
def BinaryOpType.accumulate : BinaryOpType → List Bool → Bool
  | .or, flags => flags.any id
  | .and, flags => flags.all id
  | .xor, flags => flags.foldl (· ^^ ·) false

theorem BinaryOpType.accumulate_singleton (op : BinaryOpType) (x : Bool) : op.accumulate [x] = x := by
  cases op <;> cases x <;> rfl

theorem BinaryOpType.accumulate_concat (op : BinaryOpType) (flags : List Bool) (x : Bool) :
    op.accumulate (flags ++ [x]) = op.eval (op.accumulate flags) x := by
  cases op with
  | or => simp [accumulate, eval]
  | and => simp [accumulate, eval]
  | xor => rw [accumulate, List.foldl_append]; rfl

namespace CuSel

/-- The flag of a row. -/
def countAt (s : CuSel) (i : ℕ) : Option Bool := s.selCounts.bind fun counts => counts[i]?

/-- The flag of a slice of an interval. -/
def sliceAt (s : CuSel) (c i : ℕ) : Option Bool :=
  s.selSlices.bind fun slices => slices[c]?.bind fun v => v[i]?

/-- Every flag is the combination of the flags of the selections in its place, and there
is a flag where all of them have one. -/
structure Pointwise (op : BinaryOpType) (own : List CuSel) (r : CuSel) : Prop where
  counts : ∀ i, r.countAt i = (own.mapM fun s : CuSel => s.countAt i).map op.accumulate
  slices : ∀ c i, r.sliceAt c i = (own.mapM fun s : CuSel => s.sliceAt c i).map op.accumulate

variable {op : BinaryOpType}

theorem getElem?_zipWith_eq_map₂ {α : Type} (f : α → α → α) (xs ys : List α) (i : ℕ) :
    (List.zipWith f xs ys)[i]? = Option.map₂ f xs[i]? ys[i]? := by
  rw [List.getElem?_zipWith]
  cases xs[i]? <;> cases ys[i]? <;> rfl

theorem countAt_zip (a b : CuSel) (i : ℕ) :
    (a.zip op b).countAt i = Option.map₂ op.eval (a.countAt i) (b.countAt i) := by
  obtain ⟨c₁, s₁⟩ := a
  obtain ⟨c₂, s₂⟩ := b
  cases c₁ with
  | none => cases c₂ <;> rfl
  | some c₁ =>
    cases c₂ with
    | none => exact (Option.map₂_none_right _ _).symm
    | some c₂ => exact getElem?_zipWith_eq_map₂ op.eval c₁ c₂ i

theorem sliceAt_zip (a b : CuSel) (c i : ℕ) :
    (a.zip op b).sliceAt c i = Option.map₂ op.eval (a.sliceAt c i) (b.sliceAt c i) := by
  obtain ⟨c₁, s₁⟩ := a
  obtain ⟨c₂, s₂⟩ := b
  cases s₁ with
  | none => cases s₂ <;> rfl
  | some s₁ =>
    cases s₂ with
    | none => exact (Option.map₂_none_right _ _).symm
    | some s₂ =>
      change ((List.zipWith (List.zipWith op.eval) s₁ s₂)[c]?.bind fun v => v[i]?) =
        Option.map₂ op.eval (s₁[c]?.bind fun v => v[i]?) (s₂[c]?.bind fun v => v[i]?)
      rw [getElem?_zipWith_eq_map₂]
      cases s₁[c]? with
      | none => cases s₂[c]? <;> rfl
      | some v =>
        cases s₂[c]? with
        | none => exact (Option.map₂_none_right _ _).symm
        | some w => exact getElem?_zipWith_eq_map₂ op.eval v w i

/-- What is combined two by two is combined over all. -/
theorem foldl_zip_flag {flag : CuSel → Option Bool}
    (hflag : ∀ a b, flag (a.zip op b) = Option.map₂ op.eval (flag a) (flag b))
    (a : CuSel) (own : List CuSel) :
    flag (own.foldl (CuSel.zip op) a) = ((a :: own).mapM flag).map op.accumulate := by
  induction own using List.reverseRecOn with
  | nil =>
    rw [List.foldl_nil, List.mapM_cons, List.mapM_nil]
    cases flag a with
    | none => rfl
    | some x => exact congrArg some (op.accumulate_singleton x).symm
  | append_singleton own b ih =>
    have hb : [b].mapM flag = (flag b).map fun x => [x] := by
      rw [List.mapM_cons, List.mapM_nil]
      cases flag b <;> rfl
    rw [List.foldl_append, List.foldl_cons, List.foldl_nil, hflag, ih, ← List.cons_append,
      List.mapM_append, hb]
    cases (a :: own).mapM flag with
    | none => rfl
    | some flags =>
      cases flag b with
      | none => rfl
      | some x => exact congrArg some (op.accumulate_concat flags x).symm

theorem pointwise_foldl_zip (a : CuSel) (own : List CuSel) :
    Pointwise op (a :: own) (own.foldl (CuSel.zip op) a) :=
  ⟨fun i => @foldl_zip_flag op (fun s => s.countAt i) (fun a b => countAt_zip a b i) a own,
    fun c i => @foldl_zip_flag op (fun s => s.sliceAt c i) (fun a b => sliceAt_zip a b c i) a own⟩

end CuSel

/-! ## Combinations of steps -/

section Combined

variable {op : BinaryOpType} {cpus : Option CpuSet} {first second : Step} {rest : List Step}
  {fuel : ℕ} {sel : CuSel} {d : CuMonData}

theorem applyRest_eq_ok {newSel : CuSel} {own : List CuSel} (hrows : sel.NoRows)
    (hnew : newSel.SameShape sel)
    (hown : List.Forall₂ (fun o s => Step.applyCu (fuel + 1) o sel d = .ok s) rest own) :
    Step.applyRest (fuel + 1) op sel d rest newSel = .ok (own.foldl (CuSel.zip op) newSel) := by
  induction hown generalizing newSel with
  | nil => rfl
  | @cons o s rest own ho _ ih =>
    have hs := o.applyCu_sameShape ho
    have hzip : (newSel.zip op s).SameShape sel :=
      (CuSel.zip_sameShape (hnew.trans hs.symm)).trans hnew
    rw [Step.applyRest, ho, bind_ok, BinaryOp.combine_eq_zip hnew hs hrows, bind_ok, ih hzip]
    rfl

/-- Without flags of rows, steps that each select something are combined. -/
theorem binaryOp_selects {own : List CuSel} (hrows : sel.NoRows)
    (hown : List.Forall₂ (fun o s => Step.Selects o sel d s) (first :: second :: rest) own) :
    ∃ r, (Step.binaryOp cpus op first second rest).Selects sel d r ∧ r.SameShape sel ∧
      CuSel.Pointwise op own r := by
  obtain ⟨fuel, hfuel⟩ := exists_fuel hown
  match own, hfuel (fuel + 1) (Nat.le_succ fuel) with
  | s₁ :: s₂ :: own, .cons h₁ (.cons h₂ hrest) =>
    have hs₁ := first.applyCu_sameShape h₁
    have hs₂ := second.applyCu_sameShape h₂
    have hzip : (s₁.zip op s₂).SameShape sel :=
      (CuSel.zip_sameShape (hs₁.trans hs₂.symm)).trans hs₁
    have hsel : (Step.binaryOp cpus op first second rest).Selects sel d
        ((s₂ :: own).foldl (CuSel.zip op) s₁) := by
      refine ⟨fuel + 1, ?_⟩
      rw [Step.applyCu, h₁, bind_ok, BinaryOp.checkPresent_of_sameShape hs₁, bind_ok, h₂, bind_ok,
        BinaryOp.combine_eq_zip hs₁ hs₂ hrows, bind_ok]
      exact applyRest_eq_ok hrows hzip hrest
    exact ⟨_, hsel, hsel.sameShape, CuSel.pointwise_foldl_zip s₁ (s₂ :: own)⟩

/-- **The loop that does not end.**  With a flag of a row, no combination of steps that
select something ends. -/
theorem binaryOp_outOfFuel {s₁ s₂ : CuSel} (hrows : ¬ sel.NoRows)
    (h₁ : first.Selects sel d s₁) (h₂ : second.Selects sel d s₂) (fuel : ℕ) :
    (Step.binaryOp cpus op first second rest).applyCu fuel sel d = .error .outOfFuel := by
  obtain ⟨n, hn⟩ := h₁
  obtain ⟨m, hm⟩ := h₂
  -- With less fuel than the operands need, it is they that run out.
  have hfirst : Approx .outOfFuel (first.applyCu fuel sel d) (.ok s₁) := by
    rcases Nat.le_total fuel n with hle | hle
    · rw [← hn]
      exact first.applyCu_approx hle sel d
    · exact Or.inr ((first.applyCu_approx hle sel d).eq_ok hn)
  have hsecond : Approx .outOfFuel (second.applyCu fuel sel d) (.ok s₂) := by
    rcases Nat.le_total fuel m with hle | hle
    · rw [← hm]
      exact second.applyCu_approx hle sel d
    · exact Or.inr ((second.applyCu_approx hle sel d).eq_ok hm)
  have hs₁ := first.applyCu_sameShape hn
  have hs₂ := second.applyCu_sameShape hm
  rw [Step.applyCu]
  rcases hfirst with hfirst | hfirst
  · rw [hfirst, bind_error]
  · rw [hfirst, bind_ok, BinaryOp.checkPresent_of_sameShape hs₁, bind_ok]
    rcases hsecond with hsecond | hsecond
    · rw [hsecond, bind_error]
    · rw [hsecond, bind_ok, BinaryOp.combine_outOfFuel hs₁ hs₂ hrows, bind_error]

/-- **Combined filters.**  For every compute unit, every selection of it and all operands
that each select something, the combination ends with the selection that combines theirs,
flag by flag, exactly if the selection has no flag of a row. -/
theorem combined_iff_noRows (cpus : Option CpuSet) (op : BinaryOpType) (first second : Step)
    (rest : List Step) (sel : CuSel) (d : CuMonData) (own : List CuSel)
    (hown : List.Forall₂ (fun o s => Step.Selects o sel d s) (first :: second :: rest) own) :
    (∃ r, (Step.binaryOp cpus op first second rest).Selects sel d r ∧ r.SameShape sel ∧
      CuSel.Pointwise op own r) ↔ sel.NoRows := by
  constructor
  · rintro ⟨r, ⟨fuel, hr⟩, -, -⟩
    by_contra hrows
    match own, hown with
    | s₁ :: s₂ :: own, .cons h₁ (.cons h₂ _) =>
      rw [binaryOp_outOfFuel hrows h₁ h₂ fuel] at hr
      cases hr
  · exact fun hrows => binaryOp_selects hrows hown

end Combined

/-- Two slices of one interval, without counts. -/
def slicesOnly : CuMonData :=
  ⟨none, some [[⟨10, 5, 1, .na, .na⟩, ⟨15, 5, 2, .na, .na⟩]]⟩

/-- The first slice or the second one. -/
theorem combined_slicesOnly :
    (∃ r, (Step.binaryOp none .or (.hasTagStackId none [1] false)
      (.hasTagStackId none [2] false) []).Selects (CuSel.ofCuMonData slicesOnly) slicesOnly r ∧
        r.SameShape (CuSel.ofCuMonData slicesOnly) ∧
        CuSel.Pointwise .or [⟨none, some [[true, false]]⟩, ⟨none, some [[false, true]]⟩] r) :=
  (combined_iff_noRows none .or (.hasTagStackId none [1] false) (.hasTagStackId none [2] false) []
    (CuSel.ofCuMonData slicesOnly) slicesOnly _
    (.cons ⟨0, rfl⟩ (.cons ⟨0, rfl⟩ .nil))).mpr rfl

/-- A row, without slices. -/
def oneRow : CuMonData := ⟨some ⟨["cycles"], [⟨10, 5, [7]⟩], by simp⟩, none⟩

/-- Every row. -/
def allRows : Step := .byTimeStamp none { ByTimeStamp.default with filterSliceIntervals := false }

/-- Both operands select the row, and their combination never ends. -/
theorem not_combined_oneRow :
    allRows.Selects (CuSel.ofCuMonData oneRow) oneRow ⟨some [true], none⟩ ∧
      ∀ fuel, (Step.binaryOp none .and allRows allRows []).applyCu fuel
        (CuSel.ofCuMonData oneRow) oneRow = .error .outOfFuel := by
  have h : allRows.Selects (CuSel.ofCuMonData oneRow) oneRow ⟨some [true], none⟩ := ⟨0, rfl⟩
  exact ⟨h, binaryOp_outOfFuel (by decide) h h⟩

end Mon
end IntegratedCLI
