import IntegratedCLI.Lib.Effect
import IntegratedCLI.Lib.Run

/-!
# Simulation of one computation by another

`m` and `n` are computations on states of two kinds, which `R` relates.
`Matches R V m n s t` says that `m`, begun in `s`, and `n`, begun in `t`, end in
the same way: both return, and `V` relates the values, or both raise the same
exception; and `R` relates the states they leave.

The rules are compositional in the program: a bind matches a bind, and a `tryCatch`
a `tryCatch`.  So programs that are built alike from primitives match as soon as
the primitives do.

A system is a computation for every input, `perform`.  `replies` are what it
returns along a list of inputs.  `replies_eq_of_matches` is the run rule: if each
permitted step matches with equal values, then so do the runs.
-/

namespace Effect

variable {ε σ τ σ' α β γ δ : Type}

/-! ## Matching -/

/-- The computations end alike, in related states. -/
def Matches (R : σ → τ → Prop) (V : α → β → Prop) (m : EStateM ε σ α) (n : EStateM ε τ β)
    (s : σ) (t : τ) : Prop :=
  match m s, n t with
  | .ok a s', .ok b t' => V a b ∧ R s' t'
  | .error e s', .error f t' => e = f ∧ R s' t'
  | _, _ => False

section Rules

variable {R S : σ → τ → Prop} {V W : α → β → Prop} {U : γ → δ → Prop}
  {m : EStateM ε σ α} {n : EStateM ε τ β} {s : σ} {t : τ}

theorem matches_pure {a : α} {b : β} (h : R s t) (hab : V a b) :
    Matches R V (pure a) (pure b : EStateM ε τ β) s t := ⟨hab, h⟩

theorem matches_throw (e : ε) (h : R s t) :
    Matches R V (throw e : EStateM ε σ α) (throw e : EStateM ε τ β) s t := ⟨rfl, h⟩

theorem Matches.mono (hm : Matches R V m n s t) (hR : ∀ s t, R s t → S s t)
    (hV : ∀ a b, V a b → W a b) : Matches S W m n s t := by
  unfold Matches at *
  cases hs : m s <;> cases ht : n t <;> simp only [hs, ht] at hm ⊢
  · exact ⟨hV _ _ hm.1, hR _ _ hm.2⟩
  · exact ⟨hm.1, hR _ _ hm.2⟩

/-- The first computations may relate their states more closely than the second. -/
theorem matches_bind_of {f : α → EStateM ε σ γ} {g : β → EStateM ε τ δ}
    (hm : Matches R V m n s t) (hRS : ∀ s t, R s t → S s t)
    (hf : ∀ a b s' t', V a b → R s' t' → Matches S U (f a) (g b) s' t') :
    Matches S U (m >>= f) (n >>= g) s t := by
  show Matches S U (EStateM.bind m f) (EStateM.bind n g) s t
  unfold Matches EStateM.bind
  unfold Matches at hm
  cases hs : m s <;> cases ht : n t <;> simp only [hs, ht] at hm ⊢
  · exact hf _ _ _ _ hm.1 hm.2
  · exact ⟨hm.1, hRS _ _ hm.2⟩

theorem matches_bind {f : α → EStateM ε σ γ} {g : β → EStateM ε τ δ}
    (hm : Matches R V m n s t)
    (hf : ∀ a b s' t', V a b → R s' t' → Matches R U (f a) (g b) s' t') :
    Matches R U (m >>= f) (n >>= g) s t :=
  matches_bind_of hm (fun _ _ h => h) hf

/-- Both sides read their states. -/
theorem matches_get {f : σ → EStateM ε σ γ} {g : τ → EStateM ε τ δ} :
    Matches R U (get >>= f) (get >>= g) s t ↔ Matches R U (f s) (g t) s t := Iff.rfl

/-- Both sides write their states. -/
theorem matches_set_bind {s' : σ} {t' : τ} {f : PUnit → EStateM ε σ γ}
    {g : PUnit → EStateM ε τ δ} :
    Matches R U (set s' >>= f) (set t' >>= g) s t ↔ Matches R U (f ⟨⟩) (g ⟨⟩) s' t' := Iff.rfl

/-- One side goes on after a computation that has returned. -/
theorem matches_of_run {m : EStateM ε σ γ} {f : γ → EStateM ε σ α} {c : γ} {s' : σ}
    (hm : m s = .ok c s') (h : Matches R V (f c) n s' t) : Matches R V (m >>= f) n s t := by
  show Matches R V (EStateM.bind m f) n s t
  unfold Matches EStateM.bind
  rw [hm]
  exact h

/-- One side has raised an exception. -/
theorem matches_of_run_error {m : EStateM ε σ γ} {f : γ → EStateM ε σ α} {e : ε} {s' : σ}
    (hm : m s = .error e s') (h : R s' t) :
    Matches R V (m >>= f) (throw e : EStateM ε τ β) s t := by
  show Matches R V (EStateM.bind m f) _ s t
  unfold Matches EStateM.bind
  rw [hm]
  exact ⟨rfl, h⟩

theorem matches_tryCatch {h : ε → EStateM ε σ α} {k : ε → EStateM ε τ β}
    (hm : Matches R V m n s t)
    (hh : ∀ e s' t', R s' t' → Matches R V (h e) (k e) s' t') :
    Matches R V (tryCatch m h) (tryCatch n k) s t := by
  show Matches R V (EStateM.tryCatch m h) (EStateM.tryCatch n k) s t
  unfold Matches EStateM.tryCatch
  unfold Matches at hm
  cases hs : m s <;> cases ht : n t <;> simp only [hs, ht] at hm ⊢
  · exact hm
  · obtain ⟨rfl, hR⟩ := hm
    exact hh _ _ _ hR

/-- The same test on both sides. -/
theorem matches_ite {p q : Prop} [Decidable p] [Decidable q] {m' : EStateM ε σ α}
    {n' : EStateM ε τ β} (hpq : p ↔ q) (hm : q → Matches R V m n s t)
    (hm' : ¬ q → Matches R V m' n' s t) :
    Matches R V (if p then m else m') (if q then n else n') s t := by
  by_cases hq : q
  · rw [if_pos hq, if_pos (hpq.mpr hq)]
    exact hm hq
  · rw [if_neg hq, if_neg (fun hp => hq (hpq.mp hp))]
    exact hm' hq

/-- One computation runs on a component of a larger state. -/
theorem matches_zoom {S : σ' → τ → Prop} {read : σ' → σ} {write : σ → σ' → σ'} {s : σ'}
    (hm : Matches R V m n (read s) t) (h : ∀ u t', R u t' → S (write u s) t') :
    Matches S V (zoom read write m) n s t := by
  unfold Matches zoom
  unfold Matches at hm
  cases hs : m (read s) <;> cases ht : n t <;> simp only [hs, ht] at hm ⊢
  · exact ⟨hm.1, h _ _ hm.2⟩
  · exact ⟨hm.1, h _ _ hm.2⟩

/-- The states that are left are related. -/
theorem Matches.after (hm : Matches R V m n s t) : R (after m s) (after n t) := by
  unfold Matches at hm
  unfold Effect.after
  cases hs : m s <;> cases ht : n t <;> simp only [hs, ht] at hm ⊢
  · exact hm.2
  · exact hm.2

/-- What holds of one side when it ends, carried over to the other. -/
theorem Matches.outcome (hm : Matches R V m n s t) {Q : β → τ → Prop} {E : ε → τ → Prop}
    (hn : Outcome n Q E t) :
    Outcome m (fun a s' => ∃ b t', V a b ∧ R s' t' ∧ Q b t')
      (fun e s' => ∃ t', R s' t' ∧ E e t') s := by
  unfold Matches at hm
  unfold Outcome at *
  cases hs : m s <;> cases ht : n t <;> simp only [hs, ht] at hm hn ⊢
  · exact ⟨_, _, hm.1, hm.2, hn⟩
  · obtain ⟨rfl, hR⟩ := hm
    exact ⟨_, hR, hn⟩

end Rules

/-! ## Runs -/

/-- What a system returns along a list of inputs. -/
def replies (perform : β → EStateM ε σ α) : σ → List β → List (Except ε α)
  | _, [] => []
  | s, b :: bs => result (perform b) s :: replies perform (after (perform b) s) bs

section Runs

variable {R : σ → τ → Prop} {perform : β → EStateM ε σ α} {perform' : β → EStateM ε τ α}
  {C : σ → β → Prop} {s : σ} {t : τ} {bs : List β}

theorem Matches.result {m : EStateM ε σ α} {n : EStateM ε τ α} (hm : Matches R Eq m n s t) :
    result m s = result n t := by
  unfold Matches at hm
  unfold Effect.result
  cases hs : m s <;> cases ht : n t <;> simp only [hs, ht] at hm ⊢
  · rw [hm.1]
  · rw [hm.1]

/-- **The run rule.**  Where every permitted step matches, the systems give the
same replies along a run of permitted steps. -/
theorem replies_eq_of_matches
    (h : ∀ s t b, R s t → C s b → Matches R Eq (perform b) (perform' b) s t) (h0 : R s t)
    (hbs : Run.Along (fun s b => after (perform b) s) C s bs) :
    replies perform s bs = replies perform' t bs := by
  induction bs generalizing s t with
  | nil => rfl
  | cons b bs ih =>
    have hm := h s t b h0 hbs.1
    rw [replies, replies, hm.result, ih hm.after hbs.2]

end Runs

end Effect
