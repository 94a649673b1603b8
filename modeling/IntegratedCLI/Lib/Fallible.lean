import Mathlib.Tactic.Common

/-!
# Results that may be an exception

Rules for `Except ε`: what it means that a composed result is a value, and the
invariant rule for a fold that may raise.

A computation that is given fuel raises one of the exceptions when the fuel runs out.
`Approx e x y` says that `x` is `y`, unless it raised `e`: it is how a result with less
fuel relates to one with more.
-/

namespace Fallible

variable {ε α β : Type}

theorem bind_eq_ok {x : Except ε α} {f : α → Except ε β} {b : β} :
    x >>= f = .ok b ↔ ∃ a, x = .ok a ∧ f a = .ok b := by
  cases x with
  | error e => simp [bind, Except.bind]
  | ok a => simp [bind, Except.bind]

theorem map_eq_ok {x : Except ε α} {f : α → β} {b : β} :
    f <$> x = .ok b ↔ ∃ a, x = .ok a ∧ f a = b := by
  cases x with
  | error e => simp [Functor.map, Except.map]
  | ok a => simp [Functor.map, Except.map]

theorem pure_eq_ok {a b : α} : (pure a : Except ε α) = .ok b ↔ a = b := by
  simp [pure, Except.pure]

/-- A fold that returns a value keeps what each of its steps keeps. -/
theorem foldlM_invariant {f : β → α → Except ε β} {P : β → Prop} {xs : List α} {b b' : β}
    (hf : ∀ x ∈ xs, ∀ b b', P b → f b x = .ok b' → P b') (hb : P b)
    (h : xs.foldlM f b = .ok b') : P b' := by
  induction xs generalizing b with
  | nil =>
    cases h
    exact hb
  | cons x xs ih =>
    rw [List.foldlM_cons, bind_eq_ok] at h
    obtain ⟨c, hc, h⟩ := h
    exact ih (fun y hy => hf y (by simp [hy])) (hf x (by simp) b c hb hc) h

/-- What a step establishes for its element, and every step keeps, holds of all elements
after the fold. -/
theorem foldlM_establishes {f : β → α → Except ε β} {Q : α → β → Prop} {xs : List α} {b b' : β}
    (hf : ∀ x ∈ xs, ∀ b b', f b x = .ok b' → Q x b')
    (hkeep : ∀ x y b b', Q x b → f b y = .ok b' → Q x b')
    (h : xs.foldlM f b = .ok b') : ∀ x ∈ xs, Q x b' := by
  induction xs generalizing b with
  | nil => exact fun x hx => nomatch hx
  | cons y xs ih =>
    rw [List.foldlM_cons, bind_eq_ok] at h
    obtain ⟨c, hc, h⟩ := h
    intro x hx
    rcases List.mem_cons.mp hx with rfl | hx
    · exact foldlM_invariant (fun y _ b b' hb hb' => hkeep x y b b' hb hb')
        (hf x List.mem_cons_self b c hc) h
    · exact ih (fun y hy => hf y (List.mem_cons_of_mem _ hy)) h x hx

/-- A fold returns a value if each step does where the invariant holds. -/
theorem foldlM_ok {f : β → α → Except ε β} {P : β → Prop} {xs : List α} {b : β}
    (hf : ∀ x ∈ xs, ∀ b, P b → ∃ b', f b x = .ok b' ∧ P b') (hb : P b) :
    ∃ b', xs.foldlM f b = .ok b' ∧ P b' := by
  induction xs generalizing b with
  | nil => exact ⟨b, rfl, hb⟩
  | cons x xs ih =>
    obtain ⟨c, hc, hP⟩ := hf x List.mem_cons_self b hb
    obtain ⟨b', h, hb'⟩ := ih (fun y hy => hf y (List.mem_cons_of_mem _ hy)) hP
    exact ⟨b', by rw [List.foldlM_cons, hc]; exact h, hb'⟩

/-- A fold of which each step raises or not whatever was done before. -/
theorem foldlM_eq_ok {f : β → α → Except ε β} {g : β → α → β} {P : α → Prop}
    (hf : ∀ b x b', f b x = .ok b' ↔ P x ∧ b' = g b x) {xs : List α} {b b' : β} :
    xs.foldlM f b = .ok b' ↔ (∀ x ∈ xs, P x) ∧ b' = xs.foldl g b := by
  induction xs generalizing b with
  | nil =>
    rw [List.foldlM_nil, pure_eq_ok]
    simp [eq_comm]
  | cons x xs ih =>
    rw [List.foldlM_cons, bind_eq_ok, List.forall_mem_cons, List.foldl_cons]
    constructor
    · rintro ⟨c, hc, h⟩
      obtain ⟨hx, rfl⟩ := (hf b x c).mp hc
      obtain ⟨hxs, rfl⟩ := ih.mp h
      exact ⟨⟨hx, hxs⟩, rfl⟩
    · rintro ⟨⟨hx, hxs⟩, rfl⟩
      exact ⟨g b x, (hf b x _).mpr ⟨hx, rfl⟩, ih.mpr ⟨hxs, rfl⟩⟩

theorem bind_ok {a : α} {f : α → Except ε β} : ((.ok a : Except ε α) >>= f) = f a := rfl

theorem bind_error {e : ε} {f : α → Except ε β} :
    ((.error e : Except ε α) >>= f) = .error e := rfl

theorem bind_eq_error {x : Except ε α} {f : α → Except ε β} {e : ε} :
    x >>= f = .error e ↔ x = .error e ∨ ∃ a, x = .ok a ∧ f a = .error e := by
  cases x with
  | error e' => simp [bind, Except.bind]
  | ok a => simp [bind, Except.bind]

theorem map_eq_error {x : Except ε α} {f : α → β} {e : ε} :
    f <$> x = .error e ↔ x = .error e := by
  cases x with
  | error e' => simp [Functor.map, Except.map]
  | ok a => simp [Functor.map, Except.map]

/-! ## Running out -/

/-- `x` is `y`, unless it ran out. -/
def Approx (e : ε) (x y : Except ε α) : Prop := x = .error e ∨ x = y

variable {e : ε} {x y : Except ε α} {f g : α → Except ε β}

theorem approx_refl (x : Except ε α) : Approx e x x := Or.inr rfl

theorem Approx.bind (h : Approx e x y) (hf : ∀ a, Approx e (f a) (g a)) :
    Approx e (x >>= f) (y >>= g) := by
  rcases h with rfl | rfl
  · exact Or.inl rfl
  · cases x with
    | error e' => exact Or.inr rfl
    | ok a => exact hf a

theorem Approx.map (h : Approx e x y) (f : α → β) : Approx e (f <$> x) (f <$> y) := by
  rcases h with rfl | rfl
  · exact Or.inl rfl
  · exact Or.inr rfl

/-- A value that is there with less fuel is there with more. -/
theorem Approx.eq_ok {a : α} (h : Approx e x y) (hx : x = .ok a) : y = .ok a := by
  rcases h with h | rfl
  · rw [h] at hx
    cases hx
  · exact hx

end Fallible
