import IntegratedCLI.Lib.Run
import Mathlib.Data.List.Induction

/-!
# What holds since an input

A table that a system keeps is often a digest of the inputs so far: a key is in it if it was put
there and was not removed since.  `Since step P Q s as` says that some input of the run satisfied
`P` in the state it was given in, and that every input after it satisfied `Q`.

`since_append_singleton` is the rule for one input more, and `since_of_step` the induction with
it: what becomes true with an input of `P`, and stays true exactly with the inputs of `Q`, holds
at the end of a run if and only if it holds since such an input.
-/

namespace Run

variable {σ α : Type*} (step : σ → α → σ)

/-- An input of the run satisfied `P`, and every later one satisfied `Q`. -/
def Since (P Q : σ → α → Prop) : σ → List α → Prop
  | _, [] => False
  | s, a :: as => P s a ∧ Along step Q (step s a) as ∨ Since P Q (step s a) as

variable {step} {P Q : σ → α → Prop} {s : σ} {a : α} {as : List α}

theorem since_append_singleton :
    Since step P Q s (as ++ [a]) ↔
      P (as.foldl step s) a ∨ Since step P Q s as ∧ Q (as.foldl step s) a := by
  induction as generalizing s with
  | nil => simp [Since]
  | cons b as ih =>
    rw [List.cons_append, Since, ih, along_append, List.foldl_cons, Since]
    simp only [along_cons, along_nil, and_true]
    tauto

theorem Since.exists_mem (h : Since step P Q s as) : ∃ s', ∃ a ∈ as, P s' a := by
  induction as generalizing s with
  | nil => exact h.elim
  | cons a as ih =>
    obtain ⟨hP, _⟩ | h := h
    · exact ⟨s, a, List.mem_cons_self, hP⟩
    · obtain ⟨s', b, hb, hP⟩ := ih h
      exact ⟨s', b, List.mem_cons_of_mem _ hb, hP⟩

/-- **The rule for tables.**  A property that an input of `P` establishes, and that every other
input keeps where it satisfies `Q` and ends where it does not, holds at the end of a run exactly
if there was an input of `P` and `Q` was satisfied since. -/
theorem since_of_step {R : σ → Prop} (h0 : ¬ R s)
    (hstep : ∀ s a, R (step s a) ↔ P s a ∨ R s ∧ Q s a) (as : List α) :
    R (as.foldl step s) ↔ Since step P Q s as := by
  induction as using List.reverseRecOn with
  | nil => exact iff_of_false h0 id
  | append_singleton as a ih =>
    rw [List.foldl_append, List.foldl_cons, List.foldl_nil, hstep, since_append_singleton, ih]

end Run
