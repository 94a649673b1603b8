import Mathlib.Data.List.Basic

/-!
# Runs of a deterministic system

A system is a function `step : σ → α → σ`: a state takes one input to the next
state.  A run is a list of inputs, and the state it ends in is the left fold of
`step`.

Two properties of a run recur.  `Along step C s as` says that every input is
given in a state where `C` allows it: it is how a condition on the steps of a
run is stated.  `Throughout step P s as` says that `P` holds in every state the
run passes through, the first one included.

The rules relate the two.  `throughout_of_along` is the invariant rule: what a
permitted step preserves holds throughout a run of permitted steps.
`throughout_iff_along` is its converse half for a condition that is exact at
every step.
-/

namespace Run

variable {σ α : Type*} (step : σ → α → σ)

/-- Every input of the run is given in a state where `C` allows it. -/
def Along (C : σ → α → Prop) : σ → List α → Prop
  | _, [] => True
  | s, a :: as => C s a ∧ Along C (step s a) as

/-- `P` holds in every state of the run. -/
def Throughout (P : σ → Prop) : σ → List α → Prop
  | s, [] => P s
  | s, a :: as => P s ∧ Throughout P (step s a) as

variable {step} {C D : σ → α → Prop} {P Q : σ → Prop} {s : σ} {a : α} {as bs : List α}

@[simp] theorem along_nil : Along step C s [] := trivial

@[simp] theorem along_cons :
    Along step C s (a :: as) ↔ C s a ∧ Along step C (step s a) as := Iff.rfl

@[simp] theorem throughout_nil : Throughout step P s [] ↔ P s := Iff.rfl

@[simp] theorem throughout_cons :
    Throughout step P s (a :: as) ↔ P s ∧ Throughout step P (step s a) as := Iff.rfl

theorem along_append :
    Along step C s (as ++ bs) ↔ Along step C s as ∧ Along step C (as.foldl step s) bs := by
  induction as generalizing s with
  | nil => simp
  | cons a as ih => simp [ih, and_assoc]

theorem Along.mono (h : ∀ s a, C s a → D s a) (hs : Along step C s as) :
    Along step D s as := by
  induction as generalizing s with
  | nil => trivial
  | cons a as ih => exact ⟨h _ _ hs.1, ih hs.2⟩

theorem Along.and (h : Along step C s as) (h' : Along step D s as) :
    Along step (fun s a => C s a ∧ D s a) s as := by
  induction as generalizing s with
  | nil => trivial
  | cons a as ih => exact ⟨⟨h.1, h'.1⟩, ih h.2 h'.2⟩

/-- Two conditions that agree where `J` holds agree along a run that keeps `J`. -/
theorem along_congr_of_inv {J : σ → Prop} {E : α → Prop}
    (hJ : ∀ s a, J s → E a → J (step s a)) (h : ∀ s a, J s → E a → (C s a ↔ D s a))
    (h0 : J s) (hE : ∀ a ∈ as, E a) : Along step C s as ↔ Along step D s as := by
  induction as generalizing s with
  | nil => exact Iff.rfl
  | cons a as ih =>
    have hEa : E a := hE a (by simp)
    rw [along_cons, along_cons, h s a h0 hEa,
      ih (hJ s a h0 hEa) fun b hb => hE b (by simp [hb])]

instance decidableAlong [∀ s a, Decidable (C s a)] : ∀ s as, Decidable (Along step C s as)
  | _, [] => isTrue trivial
  | s, a :: as =>
    have := decidableAlong (step s a) as
    inferInstanceAs (Decidable (C s a ∧ Along step C (step s a) as))

/-- A condition on the input alone is a condition on the list of inputs. -/
theorem along_const {C : α → Prop} : Along step (fun _ => C) s as ↔ ∀ a ∈ as, C a := by
  induction as generalizing s with
  | nil => simp
  | cons a as ih => simp [ih]

theorem Throughout.first (h : Throughout step P s as) : P s := by
  cases as with
  | nil => exact h
  | cons a as => exact h.1

theorem Throughout.last (h : Throughout step P s as) : P (as.foldl step s) := by
  induction as generalizing s with
  | nil => exact h
  | cons a as ih => exact ih h.2

theorem Throughout.mono (hPQ : ∀ s, P s → Q s) (h : Throughout step P s as) :
    Throughout step Q s as := by
  induction as generalizing s with
  | nil => exact hPQ _ h
  | cons a as ih => exact ⟨hPQ _ h.1, ih h.2⟩

/-- **The invariant rule.**  What every permitted step preserves holds throughout
a run of permitted steps. -/
theorem throughout_of_along (hstep : ∀ s a, P s → C s a → P (step s a)) (h0 : P s)
    (h : Along step C s as) : Throughout step P s as := by
  induction as generalizing s with
  | nil => exact h0
  | cons a as ih => exact ⟨h0, ih (hstep s a h0 h.1) h.2⟩

/-- What follows at every permitted step from an invariant holds along a run of
permitted steps. -/
theorem along_of_inv (hstep : ∀ s a, P s → C s a → P (step s a))
    (h : ∀ s a, P s → C s a → D s a) (h0 : P s) (hs : Along step C s as) : Along step D s as := by
  induction as generalizing s with
  | nil => trivial
  | cons a as ih => exact ⟨h s a h0 hs.1, ih (hstep s a h0 hs.1) hs.2⟩

/-- The invariant rule, read at the end of the run. -/
theorem invariant_of_along (hstep : ∀ s a, P s → C s a → P (step s a)) (h0 : P s)
    (h : Along step C s as) : P (as.foldl step s) :=
  (throughout_of_along hstep h0 h).last

/-- Where the permitted inputs are exactly the ones that preserve `P`, the runs
through `P` are exactly the runs of permitted steps.  `J` is what holds of every
run of inputs in `D`, permitted or not. -/
theorem throughout_iff_along {J : σ → Prop} {D : α → Prop}
    (hJ : ∀ s a, J s → D a → J (step s a))
    (hstep : ∀ s a, J s → D a → P s → (P (step s a) ↔ C s a))
    (hJ0 : J s) (hD : ∀ a ∈ as, D a) (h0 : P s) :
    Throughout step P s as ↔ Along step C s as := by
  induction as generalizing s with
  | nil => simpa using h0
  | cons a as ih =>
    have hDa : D a := hD a (by simp)
    have hDas : ∀ b ∈ as, D b := fun b hb => hD b (by simp [hb])
    constructor
    · rintro ⟨_, h⟩
      exact ⟨(hstep s a hJ0 hDa h0).mp h.first, (ih (hJ s a hJ0 hDa) hDas h.first).mp h⟩
    · rintro ⟨hC, h⟩
      have hP : P (step s a) := (hstep s a hJ0 hDa h0).mpr hC
      exact ⟨h0, (ih (hJ s a hJ0 hDa) hDas hP).mpr h⟩

/-- Where an invariant implies `P`, is kept by the permitted inputs, and every other
input ends in a state without `P`, the runs through `P` are exactly the runs of
permitted steps. -/
theorem throughout_iff_along_of_inv {Inv : σ → Prop}
    (hstep : ∀ s a, Inv s → C s a → Inv (step s a)) (hP : ∀ s, Inv s → P s)
    (hbreak : ∀ s a, Inv s → ¬ C s a → ¬ P (step s a)) (h0 : Inv s) :
    Throughout step P s as ↔ Along step C s as := by
  induction as generalizing s with
  | nil => simpa using hP s h0
  | cons a as ih =>
    constructor
    · rintro ⟨_, h⟩
      have hC : C s a := by
        by_contra hC
        exact hbreak s a h0 hC h.first
      exact ⟨hC, (ih (hstep s a h0 hC)).mp h⟩
    · rintro ⟨hC, h⟩
      exact ⟨hP s h0, (ih (hstep s a h0 hC)).mpr h⟩

/-- The same, in runs along which `V` holds of every input and of the state it is given
in. -/
theorem throughout_iff_along_of_valid {Inv : σ → Prop} {V : σ → α → Prop}
    (hstep : ∀ s a, Inv s → V s a → C s a → Inv (step s a)) (hP : ∀ s, Inv s → P s)
    (hbreak : ∀ s a, Inv s → V s a → ¬ C s a → ¬ P (step s a)) (h0 : Inv s)
    (hV : Along step V s as) : Throughout step P s as ↔ Along step C s as := by
  induction as generalizing s with
  | nil => simpa using hP s h0
  | cons a as ih =>
    obtain ⟨hVa, hVas⟩ := hV
    constructor
    · rintro ⟨_, h⟩
      have hC : C s a := by
        by_contra hC
        exact hbreak s a h0 hVa hC h.first
      exact ⟨hC, (ih (hstep s a h0 hVa hC) hVas).mp h⟩
    · rintro ⟨hC, h⟩
      exact ⟨hP s h0, (ih (hstep s a h0 hVa hC) hVas).mpr h⟩

/-! ## Sums -/

variable (step) in
/-- The sum of what each step of the run contributes. -/
def total (cost : σ → α → ℕ) : σ → List α → ℕ
  | _, [] => 0
  | s, a :: as => cost s a + total cost (step s a) as

@[simp] theorem total_nil {cost : σ → α → ℕ} : total step cost s [] = 0 := rfl

@[simp] theorem total_cons {cost : σ → α → ℕ} :
    total step cost s (a :: as) = cost s a + total step cost (step s a) as := rfl

/-- A quantity that every step raises by what the step contributes is raised by the sum. -/
theorem Along.total {f : σ → ℕ} {cost : σ → α → ℕ}
    (h : Along step (fun s a => f (step s a) = f s + cost s a) s as) :
    f (as.foldl step s) = f s + Run.total step cost s as := by
  induction as generalizing s with
  | nil => rfl
  | cons a as ih => rw [List.foldl_cons, ih h.2, h.1, total_cons, Nat.add_assoc]

theorem Along.total_congr {cost cost' : σ → α → ℕ}
    (h : Along step (fun s a => cost s a = cost' s a) s as) :
    Run.total step cost s as = Run.total step cost' s as := by
  induction as generalizing s with
  | nil => rfl
  | cons a as ih => rw [total_cons, total_cons, ih h.2, h.1]

/-- What follows at every permitted step from an invariant and from what holds at the end
of the run, where what holds at the end holds before, too. -/
theorem along_of_last {J : σ → Prop}
    (hstep : ∀ s a, P s → C s a → P (step s a) ∧ (J (step s a) → J s ∧ D s a))
    (h0 : P s) (h : Along step C s as) (hJ : J (as.foldl step s)) : J s ∧ Along step D s as := by
  induction as generalizing s with
  | nil => exact ⟨hJ, trivial⟩
  | cons a as ih =>
    obtain ⟨hP, hback⟩ := hstep s a h0 h.1
    obtain ⟨hJ₁, hD⟩ := ih hP h.2 hJ
    obtain ⟨hJ₀, hDa⟩ := hback hJ₁
    exact ⟨hJ₀, hDa, hD⟩

end Run
