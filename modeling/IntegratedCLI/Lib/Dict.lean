import Mathlib.Data.List.Nodup
import Mathlib.Tactic.Common

/-!
# Dictionaries in order of insertion

A dictionary is the list of its entries, in the order in which their keys were
first set.  `put` replaces the value of a key where it stands, or appends the key
at the end.  Looking a key up is `List.lookup`.
-/

namespace Dict

variable {κ ν : Type} [DecidableEq κ]

/-- The dictionary with `v` at `k`. -/
def put : List (κ × ν) → κ → ν → List (κ × ν)
  | [], k, v => [(k, v)]
  | e :: d, k, v => if e.1 = k then (k, v) :: d else e :: put d k v

/-- The value at `k`. -/
abbrev get? (d : List (κ × ν)) (k : κ) : Option ν := d.lookup k

/-- The dictionary without the key. -/
def drop (d : List (κ × ν)) (k : κ) : List (κ × ν) := d.filter fun e => e.1 ≠ k

variable {d : List (κ × ν)} {k k' : κ} {v : ν}

theorem lookup_cons (e : κ × ν) (d : List (κ × ν)) (k : κ) :
    (e :: d).lookup k = if k = e.1 then some e.2 else d.lookup k := by
  rw [List.lookup_cons]
  by_cases h : k = e.1
  · simp [h]
  · rw [if_neg h, beq_eq_false_iff_ne.mpr h]

theorem lookup_put (d : List (κ × ν)) (k k' : κ) (v : ν) :
    (put d k v).lookup k' = if k' = k then some v else d.lookup k' := by
  induction d with
  | nil => rw [put, lookup_cons]
  | cons e d ih =>
    unfold put
    split
    · rename_i he
      rw [lookup_cons, lookup_cons, he]
      by_cases h : k' = k
      · rw [if_pos h, if_pos h]
      · rw [if_neg h, if_neg h, if_neg h]
    · rename_i he
      rw [lookup_cons, lookup_cons, ih]
      by_cases h : k' = e.1
      · have hk : k' ≠ k := fun hk => he (h ▸ hk)
        rw [if_pos h, if_neg hk, if_pos h]
      · rw [if_neg h, if_neg h]

@[simp] theorem lookup_put_self : (put d k v).lookup k = some v := by
  rw [lookup_put, if_pos rfl]

section Map

variable {μ : Type} (g : ν → μ)

/-- A value of a dictionary whose values are mapped. -/
theorem lookup_map (d : List (κ × ν)) (k : κ) :
    (d.map fun e => (e.1, g e.2)).lookup k = (d.lookup k).map g := by
  induction d with
  | nil => rfl
  | cons e d ih =>
    rw [List.map_cons, lookup_cons, lookup_cons, ih]
    dsimp only
    split
    · rfl
    · rfl

theorem map_put (d : List (κ × ν)) (k : κ) (v : ν) :
    (put d k v).map (fun e => (e.1, g e.2)) = put (d.map fun e => (e.1, g e.2)) k (g v) := by
  induction d with
  | nil => rfl
  | cons e d ih =>
    rw [List.map_cons, put, put]
    dsimp only
    split
    · rfl
    · rw [List.map_cons, ih]

end Map

/-- Setting a key to what it has changes nothing. -/
theorem put_self (h : d.lookup k = some v) : put d k v = d := by
  induction d with
  | nil => simp at h
  | cons e d ih =>
    rw [lookup_cons] at h
    unfold put
    split
    · rename_i he
      rw [if_pos he.symm, Option.some_inj] at h
      rw [← h, ← he]
    · rename_i he
      rw [if_neg (Ne.symm he)] at h
      rw [ih h]

theorem lookup_put_ne (h : k' ≠ k) : (put d k v).lookup k' = d.lookup k' := by
  rw [lookup_put, if_neg h]

/-- An entry of the changed dictionary is the new one, or an old one. -/
theorem mem_put {e : κ × ν} (h : e ∈ put d k v) : e = (k, v) ∨ e ∈ d := by
  induction d with
  | nil => exact Or.inl (List.mem_singleton.mp h)
  | cons x d ih =>
    unfold put at h
    split at h
    · rcases List.mem_cons.mp h with rfl | h
      · exact Or.inl rfl
      · exact Or.inr (List.mem_cons_of_mem _ h)
    · rcases List.mem_cons.mp h with rfl | h
      · exact Or.inr List.mem_cons_self
      · rcases ih h with h | h
        · exact Or.inl h
        · exact Or.inr (List.mem_cons_of_mem _ h)

/-- An entry of another key is kept. -/
theorem mem_put_of_ne {e : κ × ν} (h : e ∈ d) (hk : e.1 ≠ k) : e ∈ put d k v := by
  induction d with
  | nil => exact absurd h List.not_mem_nil
  | cons x d ih =>
    unfold put
    split
    · rename_i hx
      rcases List.mem_cons.mp h with rfl | h
      · exact absurd hx hk
      · exact List.mem_cons_of_mem _ h
    · rcases List.mem_cons.mp h with rfl | h
      · exact List.mem_cons_self
      · exact List.mem_cons_of_mem _ (ih h)

theorem mem_put_self (d : List (κ × ν)) (k : κ) (v : ν) : (k, v) ∈ put d k v := by
  induction d with
  | nil => exact List.mem_singleton.mpr rfl
  | cons x d ih =>
    unfold put
    split
    · exact List.mem_cons_self
    · exact List.mem_cons_of_mem _ ih

/-- What is found is an entry. -/
theorem mem_of_lookup (h : d.lookup k = some v) : (k, v) ∈ d := by
  induction d with
  | nil => simp at h
  | cons e d ih =>
    rw [lookup_cons] at h
    split at h
    · rename_i he
      cases h
      rw [he]
      exact List.mem_cons_self
    · exact List.mem_cons_of_mem _ (ih h)

/-- The keys of the changed dictionary are the old ones and the new one. -/
theorem mem_keys_put {x : κ} : x ∈ (put d k v).map Prod.fst ↔ x = k ∨ x ∈ d.map Prod.fst := by
  induction d with
  | nil => simp [put]
  | cons e d ih =>
    unfold put
    split
    · rename_i he
      subst he
      simp
    · simp only [List.map_cons, List.mem_cons, ih]
      tauto

/-- No key is set twice. -/
theorem nodup_put (h : (d.map Prod.fst).Nodup) : ((put d k v).map Prod.fst).Nodup := by
  induction d with
  | nil => simp [put]
  | cons e d ih =>
    rw [List.map_cons, List.nodup_cons] at h
    unfold put
    split
    · rename_i he
      subst he
      rw [List.map_cons, List.nodup_cons]
      exact h
    · rename_i he
      rw [List.map_cons, List.nodup_cons, mem_keys_put]
      refine ⟨?_, ih h.2⟩
      rintro (rfl | hx)
      · exact he rfl
      · exact h.1 hx

section Fold

variable {α : Type} {f : α → κ} {g : α → ν} {xs : List α}

end Fold

/-- With no key set twice, an entry is what is found under its key. -/
theorem lookup_of_mem (hd : (d.map Prod.fst).Nodup) (h : (k, v) ∈ d) : d.lookup k = some v := by
  induction d with
  | nil => simp at h
  | cons e d ih =>
    rw [List.map_cons, List.nodup_cons] at hd
    rw [lookup_cons]
    rcases List.mem_cons.mp h with rfl | h
    · rw [if_pos rfl]
    · have hne : k ≠ e.1 := by
        rintro rfl
        exact hd.1 (List.mem_map.mpr ⟨_, h, rfl⟩)
      rw [if_neg hne]
      exact ih hd.2 h

/-- With no key set twice, dropping a key takes its entry out. -/
theorem perm_drop (hd : (d.map Prod.fst).Nodup) (h : (k, v) ∈ d) : d.Perm ((k, v) :: drop d k) := by
  induction d with
  | nil => simp at h
  | cons e d ih =>
    obtain ⟨hnot, hd⟩ := List.nodup_cons.mp hd
    by_cases he : e.1 = k
    · have hfirst : e = (k, v) := by
        rcases List.mem_cons.mp h with h | h
        · exact h.symm
        · exact absurd (List.mem_map_of_mem h) (he ▸ hnot)
      have hrest : drop d k = d := by
        refine List.filter_eq_self.mpr fun e' he' => decide_eq_true fun heq => hnot ?_
        exact List.mem_map.mpr ⟨e', he', heq.trans he.symm⟩
      have hdrop : drop (e :: d) k = drop d k := List.filter_cons_of_neg (by simp [he])
      rw [hdrop, hrest, hfirst]
    · have hdrop : drop (e :: d) k = e :: drop d k := List.filter_cons_of_pos (by simp [he])
      have hmem : (k, v) ∈ d :=
        List.mem_of_ne_of_mem (fun heq => he (congrArg Prod.fst heq).symm) h
      rw [hdrop]
      exact ((ih hd hmem).cons e).trans (List.Perm.swap (k, v) e (drop d k))

/-! ## Merging -/

section Merge

/-- The dictionary `left` with the entries of `right`; where both have a key, `value` gives
what it has then. -/
def mergeWith (value : ν → ν → ν) (left right : List (κ × ν)) : List (κ × ν) :=
  right.foldl (fun d e => put d e.1 (((d.lookup e.1).map (value · e.2)).getD e.2)) left

variable {value : ν → ν → ν} {left right : List (κ × ν)}

@[simp] theorem mergeWith_nil : mergeWith value left [] = left := rfl

theorem mergeWith_cons (e : κ × ν) :
    mergeWith value left (e :: right)
      = mergeWith value (put left e.1 (((left.lookup e.1).map (value · e.2)).getD e.2)) right := rfl

/-- A key that is only on one side has the value of that side. -/
theorem lookup_mergeWith (value : ν → ν → ν) (left : List (κ × ν))
    (hr : (right.map Prod.fst).Nodup) (k : κ) :
    (mergeWith value left right).lookup k
      = ((right.lookup k).map fun w => ((left.lookup k).map (value · w)).getD w).or
          (left.lookup k) := by
  induction right generalizing left with
  | nil => rfl
  | cons e right ih =>
    rw [List.map_cons, List.nodup_cons] at hr
    rw [mergeWith_cons, ih _ hr.2, lookup_cons, lookup_put]
    by_cases hk : k = e.1
    · have hnone : right.lookup k = none := by
        rw [List.lookup_eq_none_iff]
        intro e' he'
        rw [bne_iff_ne]
        rintro rfl
        exact hr.1 (hk ▸ List.mem_map_of_mem he')
      rw [if_pos hk, if_pos hk, hnone, hk]
      rfl
    · rw [if_neg hk, if_neg hk]

end Merge

end Dict
