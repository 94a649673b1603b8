import Mathlib.Order.Defs.Unbundled
import Mathlib.Tactic.Common

/-!
# Computations with a state that survives an exception

`EStateM ε σ α` is a computation that reads and writes a state of type `σ` and
either returns a value or raises an exception.  What was written before an
exception stays written: this is how a method of a mutable object behaves.

Four notions are defined for such a computation `m`.

* `after m s` is the state in which `m`, begun in `s`, ends, in either way, and
  `result m s` is what it returns or raises.
* `Outcome m Q E s` says that if `m` returns then `Q` holds of the value and the
  last state, and if it raises then `E` holds of the exception and the last
  state.  It is a weakest precondition; the rules compute it along the program.
* `Moves R m` says that `m` only ever takes a state to one that `R` relates to
  it.  With `R` a preorder the rules are compositional, so that a frame
  condition or the growth of a state is checked one primitive at a time.

`zoom` runs a computation on one component of the state.
-/

namespace Effect

variable {ε σ τ α β : Type}

/-- A computation that begins by reading the state. -/
theorem run_get (f : σ → EStateM ε σ α) (s : σ) : (get >>= f) s = f s s := rfl

section Running

variable {m : EStateM ε σ α} {f : α → EStateM ε σ β} {h : ε → EStateM ε σ α} {s s' : σ} {a : α}
  {e : ε}

theorem run_bind_ok (hm : m s = .ok a s') : (m >>= f) s = f a s' := by
  show EStateM.bind m f s = _
  unfold EStateM.bind
  rw [hm]

theorem run_bind_error (hm : m s = .error e s') : (m >>= f) s = .error e s' := by
  show EStateM.bind m f s = _
  unfold EStateM.bind
  rw [hm]

theorem run_tryCatch_ok (hm : m s = .ok a s') : (tryCatch m h) s = .ok a s' := by
  show EStateM.tryCatch m h s = _
  unfold EStateM.tryCatch
  rw [hm]

theorem run_tryCatch_error (hm : m s = .error e s') : (tryCatch m h) s = h e s' := by
  show EStateM.tryCatch m h s = _
  unfold EStateM.tryCatch
  rw [hm]
  rfl

end Running

/-! ## Outcomes -/

/-- The state in which the computation ends, by returning or by raising. -/
def after (m : EStateM ε σ α) (s : σ) : σ :=
  match m s with
  | .ok _ s' => s'
  | .error _ s' => s'

theorem after_bind_ok {m : EStateM ε σ α} {f : α → EStateM ε σ β} {s s' : σ} {a : α}
    (h : m s = .ok a s') : after (m >>= f) s = after (f a) s' := by
  unfold after
  rw [run_bind_ok h]

theorem after_bind_error {m : EStateM ε σ α} {f : α → EStateM ε σ β} {s s' : σ} {e : ε}
    (h : m s = .error e s') : after (m >>= f) s = s' := by
  unfold after
  rw [run_bind_error h]

/-- What a computation returns or raises. -/
def result (m : EStateM ε σ α) (s : σ) : Except ε α :=
  match m s with
  | .ok a _ => .ok a
  | .error e _ => .error e

/-- What holds when the computation ends. -/
def Outcome (m : EStateM ε σ α) (Q : α → σ → Prop) (E : ε → σ → Prop) (s : σ) : Prop :=
  match m s with
  | .ok a s' => Q a s'
  | .error e s' => E e s'

section Rules

variable {m : EStateM ε σ α} {f : α → EStateM ε σ β} {h : ε → EStateM ε σ α}
  {Q Q' : α → σ → Prop} {E E' : ε → σ → Prop} {s : σ}

@[simp] theorem outcome_pure (a : α) : Outcome (pure a : EStateM ε σ α) Q E s ↔ Q a s := Iff.rfl

@[simp] theorem outcome_throw (e : ε) :
    Outcome (throw e : EStateM ε σ α) Q E s ↔ E e s := Iff.rfl

@[simp] theorem outcome_get {Q : σ → σ → Prop} :
    Outcome (get : EStateM ε σ σ) Q E s ↔ Q s s := Iff.rfl

@[simp] theorem outcome_set (s' : σ) {Q : PUnit → σ → Prop} :
    Outcome (set s' : EStateM ε σ PUnit) Q E s ↔ Q ⟨⟩ s' := Iff.rfl

@[simp] theorem outcome_modify (g : σ → σ) {Q : PUnit → σ → Prop} :
    Outcome (modify g : EStateM ε σ PUnit) Q E s ↔ Q ⟨⟩ (g s) := Iff.rfl

@[simp] theorem outcome_bind {Q : β → σ → Prop} :
    Outcome (m >>= f) Q E s ↔ Outcome m (fun a s' => Outcome (f a) Q E s') E s := by
  show (match (EStateM.bind m f) s with | .ok a s' => Q a s' | .error e s' => E e s') ↔ _
  unfold EStateM.bind Outcome
  cases m s <;> rfl

@[simp] theorem outcome_map (g : α → β) {Q : β → σ → Prop} :
    Outcome (g <$> m) Q E s ↔ Outcome m (fun a s' => Q (g a) s') E s := by
  show (match (EStateM.map g m) s with | .ok a s' => Q a s' | .error e s' => E e s') ↔ _
  unfold EStateM.map Outcome
  cases m s <;> rfl

@[simp] theorem outcome_tryCatch :
    Outcome (tryCatch m h) Q E s ↔ Outcome m Q (fun e s' => Outcome (h e) Q E s') s := by
  show (match (EStateM.tryCatch m h) s with | .ok a s' => Q a s' | .error e s' => E e s') ↔ _
  unfold EStateM.tryCatch Outcome
  cases m s <;> rfl

theorem Outcome.mono (hm : Outcome m Q E s) (hQ : ∀ a s', Q a s' → Q' a s')
    (hE : ∀ e s', E e s' → E' e s') : Outcome m Q' E' s := by
  unfold Outcome at *
  cases hs : m s with
  | ok a s' => rw [hs] at hm; exact hQ a s' hm
  | error e s' => rw [hs] at hm; exact hE e s' hm

theorem Outcome.and (hm : Outcome m Q E s) (hm' : Outcome m Q' E' s) :
    Outcome m (fun a s' => Q a s' ∧ Q' a s') (fun e s' => E e s' ∧ E' e s') s := by
  unfold Outcome at *
  cases hs : m s <;> (rw [hs] at hm hm'; exact ⟨hm, hm'⟩)

theorem outcome_true : Outcome m (fun _ _ => True) (fun _ _ => True) s := by
  unfold Outcome
  cases m s <;> trivial

/-- Every computation ends as it does when it is run. -/
theorem outcome_run :
    Outcome m (fun a s' => m s = .ok a s') (fun e s' => m s = .error e s') s := by
  unfold Outcome
  cases m s <;> rfl

theorem Outcome.of_error (hm : Outcome m Q E s) {e : ε} {s' : σ} (hrun : m s = .error e s') :
    E e s' := by
  unfold Outcome at hm
  rw [hrun] at hm
  exact hm

theorem Outcome.of_run (hm : Outcome m Q E s) {a : α} {s' : σ} (hrun : m s = .ok a s') : Q a s' := by
  unfold Outcome at hm
  rw [hrun] at hm
  exact hm

/-- What is the same for a value and an exception is about the last state. -/
theorem outcome_after {P : σ → Prop} :
    Outcome m (fun _ => P) (fun _ => P) s ↔ P (after m s) := by
  unfold Outcome after
  cases m s <;> rfl

/-- What is about the result and the last state. -/
theorem outcome_result {P : Except ε α → σ → Prop} :
    Outcome m (fun a => P (.ok a)) (fun e => P (.error e)) s ↔ P (result m s) (after m s) := by
  unfold Outcome result after
  cases m s <;> rfl

/-- A computation that can only return one value. -/
theorem result_eq_ok {a : α} (h : Outcome m (fun a' _ => a' = a) (fun _ _ => False) s) :
    result m s = .ok a := by
  unfold Outcome at h
  unfold result
  cases hs : m s with
  | ok a' s' =>
    rw [hs] at h
    rw [show a' = a from h]
  | error e s' =>
    rw [hs] at h
    exact h.elim

/-- A computation that is known to return. -/
theorem Outcome.of_result_ok (hm : Outcome m Q E s) {a : α} (hr : result m s = .ok a) :
    Outcome m (fun a' s' => a' = a ∧ Q a' s') (fun _ _ => False) s := by
  unfold Outcome result at *
  cases hs : m s with
  | ok a' s' =>
    rw [hs] at hm hr
    exact ⟨Except.ok.inj hr, hm⟩
  | error e s' =>
    rw [hs] at hr
    cases hr

/-- A computation that is known to raise. -/
theorem Outcome.of_result_error (hm : Outcome m Q E s) {e : ε} (hr : result m s = .error e) :
    Outcome m (fun _ _ => False) (fun e' s' => e' = e ∧ E e' s') s := by
  unfold Outcome result at *
  cases hs : m s with
  | ok a s' =>
    rw [hs] at hr
    cases hr
  | error e' s' =>
    rw [hs] at hm hr
    exact ⟨Except.error.inj hr, hm⟩

/-- `k` holds of the value and the last state, if the computation returns. -/
def passes (m : EStateM ε σ α) (k : α → σ → Bool) (s : σ) : Bool :=
  match m s with
  | .ok a s' => k a s'
  | .error _ _ => true

theorem passes_iff {k : α → σ → Bool} :
    passes m k s = true ↔ Outcome m (fun a s' => k a s' = true) (fun _ _ => True) s := by
  unfold passes Outcome
  cases m s <;> simp

/-- `k` holds of the value and the last state, or the computation raises and `b` allows that. -/
def follows (b : Bool) (m : EStateM ε σ α) (k : α → σ → Bool) (s : σ) : Bool :=
  match m s with
  | .ok a s' => k a s'
  | .error _ _ => b

theorem follows_iff {b : Bool} {k : α → σ → Bool} :
    follows b m k s = true ↔ Outcome m (fun a s' => k a s' = true) (fun _ _ => b = true) s := by
  unfold follows Outcome
  cases m s <;> simp

/-- A loop keeps what each of its rounds keeps. -/
theorem outcome_forM {f : α → EStateM ε σ PUnit} {I : σ → Prop} {E : ε → σ → Prop} {xs : List α}
    (hf : ∀ x ∈ xs, ∀ s, I s → Outcome (f x) (fun _ => I) E s) (hs : I s) :
    Outcome (forM xs f) (fun _ => I) E s := by
  induction xs generalizing s with
  | nil => exact hs
  | cons x xs ih =>
    rw [List.forM_cons, outcome_bind]
    refine (hf x (by simp) s hs).mono (fun _ s' hs' => ?_) (fun _ _ h => h)
    exact ih (fun y hy => hf y (by simp [hy])) hs'

/-- A loop with an accumulator keeps what each of its rounds keeps. -/
theorem outcome_foldlM {f : β → α → EStateM ε σ β} {I : β → σ → Prop} {E : ε → σ → Prop}
    {xs : List α} {b : β}
    (hf : ∀ x ∈ xs, ∀ b s, I b s → Outcome (f b x) I E s) (hs : I b s) :
    Outcome (xs.foldlM f b) I E s := by
  induction xs generalizing s b with
  | nil => exact hs
  | cons x xs ih =>
    rw [List.foldlM_cons, outcome_bind]
    refine (hf x (by simp) b s hs).mono (fun b' s' hs' => ?_) (fun _ _ h => h)
    exact ih (fun y hy => hf y (by simp [hy])) hs'

end Rules

/-! ## Moves -/

/-- The computation takes every state to one that `R` relates to it. -/
def Moves (R : σ → σ → Prop) (m : EStateM ε σ α) : Prop := ∀ s, R s (after m s)

section Moves

variable {R S : σ → σ → Prop} {m : EStateM ε σ α}

theorem moves_iff : Moves R m ↔ ∀ s, Outcome m (fun _ s' => R s s') (fun _ s' => R s s') s := by
  simp only [Moves, outcome_after]

theorem Moves.outcome (hm : Moves R m) (s : σ) :
    Outcome m (fun _ s' => R s s') (fun _ s' => R s s') s := moves_iff.mp hm s

theorem Moves.mono (hm : Moves R m) (h : ∀ s s', R s s' → S s s') : Moves S m :=
  fun s => h _ _ (hm s)

theorem moves_modify {g : σ → σ} (h : ∀ s, R s (g s)) :
    Moves R (modify g : EStateM ε σ PUnit) := h

/-- What follows a move may use that it starts from where the move ended. -/
theorem Moves.step {s : σ} (hm : Moves R m) {Q : α → σ → Prop} {E : ε → σ → Prop}
    (hQ : ∀ a s', R s s' → Q a s') (hE : ∀ e s', R s s' → E e s') : Outcome m Q E s :=
  (hm.outcome s).mono (fun a s' => hQ a s') (fun e s' => hE e s')

theorem moves_map {g : α → β} (hm : Moves R m) : Moves R (g <$> m) := by
  refine moves_iff.mpr fun s => ?_
  rw [outcome_map]
  exact hm.outcome s

variable [IsPreorder σ R]

theorem moves_pure (a : α) : Moves R (pure a : EStateM ε σ α) := fun s => refl_of R s

theorem moves_throw (e : ε) : Moves R (throw e : EStateM ε σ α) := fun s => refl_of R s

theorem moves_get : Moves R (get : EStateM ε σ σ) := fun s => refl_of R s

theorem moves_bind {f : α → EStateM ε σ β} (hm : Moves R m) (hf : ∀ a, Moves R (f a)) :
    Moves R (m >>= f) := by
  refine moves_iff.mpr fun s => ?_
  rw [outcome_bind]
  refine hm.step (fun a s' hs' => ?_) (fun _ _ h => h)
  exact (hf a).step (fun _ _ h => trans_of R hs' h) (fun _ _ h => trans_of R hs' h)

theorem moves_tryCatch {h : ε → EStateM ε σ α} (hm : Moves R m) (hh : ∀ e, Moves R (h e)) :
    Moves R (tryCatch m h) := by
  refine moves_iff.mpr fun s => ?_
  rw [outcome_tryCatch]
  refine hm.step (fun _ _ h => h) (fun e s' hs' => ?_)
  exact (hh e).step (fun _ _ h => trans_of R hs' h) (fun _ _ h => trans_of R hs' h)

theorem moves_forM {f : α → EStateM ε σ PUnit} {xs : List α} (hf : ∀ x ∈ xs, Moves R (f x)) :
    Moves R (forM xs f) := by
  induction xs with
  | nil => exact moves_pure _
  | cons x xs ih =>
    rw [List.forM_cons]
    exact moves_bind (hf x (by simp)) fun _ => ih fun y hy => hf y (by simp [hy])

theorem moves_foldlM {f : β → α → EStateM ε σ β} {xs : List α}
    (hf : ∀ x ∈ xs, ∀ b, Moves R (f b x)) (b : β) : Moves R (xs.foldlM f b) := by
  induction xs generalizing b with
  | nil => exact moves_pure _
  | cons x xs ih =>
    rw [List.foldlM_cons]
    exact moves_bind (hf x (by simp) b) fun b' => ih (fun y hy => hf y (by simp [hy])) b'

end Moves

/-- The states that agree in a part of the state. -/
def Keeps (f : σ → τ) (s s' : σ) : Prop := f s' = f s

instance (f : σ → τ) : IsPreorder σ (Keeps f) where
  refl _ := rfl
  trans _ _ _ h h' := h'.trans h

/-- What follows and does not write leaves the state that it begins in. -/
theorem after_bind_keeps {m : EStateM ε σ α} {f : α → EStateM ε σ β}
    (hf : ∀ a, Moves (Keeps id) (f a)) (s : σ) : after (m >>= f) s = after m s := by
  cases hm : m s with
  | ok a s' =>
    rw [after_bind_ok hm]
    refine (hf a s').trans ?_
    unfold after
    rw [hm]
    rfl
  | error e s' =>
    rw [after_bind_error hm]
    unfold after
    rw [hm]

/-- What holds of the first state holds of the second. -/
def Preserves (P : σ → Prop) (s s' : σ) : Prop := P s → P s'

instance (P : σ → Prop) : IsPreorder σ (Preserves P) where
  refl _ := id
  trans _ _ _ h h' := h' ∘ h

/-! ## Results that do not touch the state -/

/-- Return the value, or raise the exception. -/
def lift (x : Except ε α) : EStateM ε σ α :=
  match x with
  | .ok a => pure a
  | .error e => throw e

@[simp] theorem lift_ok (a : α) : (lift (.ok a) : EStateM ε σ α) = pure a := rfl

@[simp] theorem lift_error (e : ε) : (lift (.error e) : EStateM ε σ α) = throw e := rfl

theorem outcome_lift {x : Except ε α} {Q : α → σ → Prop} {E : ε → σ → Prop} {s : σ} :
    Outcome (lift x) Q E s ↔ (∀ a, x = .ok a → Q a s) ∧ ∀ e, x = .error e → E e s := by
  cases x with
  | ok a => simp
  | error e => simp

theorem moves_lift {R : σ → σ → Prop} [IsPreorder σ R] (x : Except ε α) :
    Moves R (lift x : EStateM ε σ α) := by
  cases x with
  | ok a => exact moves_pure a
  | error e => exact moves_throw e

/-! ## One component of the state -/

/-- Run `m` on the component of the state that `read` gives and `write` replaces. -/
def zoom (read : σ → τ) (write : τ → σ → σ) (m : EStateM ε τ α) : EStateM ε σ α := fun s =>
  match m (read s) with
  | .ok a t => .ok a (write t s)
  | .error e t => .error e (write t s)

@[simp] theorem outcome_zoom {read : σ → τ} {write : τ → σ → σ} {m : EStateM ε τ α}
    {Q : α → σ → Prop} {E : ε → σ → Prop} {s : σ} :
    Outcome (zoom read write m) Q E s ↔
      Outcome m (fun a t => Q a (write t s)) (fun e t => E e (write t s)) (read s) := by
  unfold Outcome zoom
  cases m (read s) <;> rfl

end Effect
