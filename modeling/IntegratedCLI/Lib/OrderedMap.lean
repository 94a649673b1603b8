import Mathlib.Data.List.Basic
import Mathlib.Data.List.Induction
import Mathlib.Data.List.Pairwise
import Mathlib.Order.Lattice
import Mathlib.Tactic.Common

/-!
# Maps in the order of their keys

An ordered map is the list of its entries, whose keys increase strictly.  A map
carries the proof of this, so the operations that walk along the entries can stop
early, and no key has two values.

`emplace` adds a key that is not there yet, `modify` and `mapValues` change the value
of one key or of all, `filter` removes entries, and `walk` goes through the entries in order, with an
accumulator, and may change each value.
-/

variable {κ ν α : Type}

/-- The entries of a map, in the order of their keys. -/
structure OrderedMap (κ ν : Type) [LinearOrder κ] where
  entries : List (κ × ν)
  sorted : entries.Pairwise fun a b => a.1 < b.1

namespace OrderedMap

variable [LinearOrder κ]

section Lists

/-- Add an entry where its key belongs, unless the key is there. -/
def emplaceList (k : κ) (v : ν) : List (κ × ν) → List (κ × ν)
  | [] => [(k, v)]
  | e :: es => if k < e.1 then (k, v) :: e :: es
    else if k = e.1 then e :: es else e :: emplaceList k v es

/-- Go through the entries with an accumulator, and change the values. -/
def walkList (f : α → κ → ν → α × ν) : α → List (κ × ν) → α × List (κ × ν)
  | a, [] => (a, [])
  | a, e :: es =>
    let r := f a e.1 e.2
    let rest := walkList f r.1 es
    (rest.1, (e.1, r.2) :: rest.2)

variable {k k' : κ} {v : ν} {e : κ × ν} {es : List (κ × ν)}

theorem lookup_cons' : (e :: es).lookup k = if k = e.1 then some e.2 else es.lookup k := by
  rw [List.lookup_cons]
  by_cases h : k = e.1
  · rw [if_pos h, beq_iff_eq.mpr h]
  · rw [if_neg h, beq_eq_false_iff_ne.mpr h]

theorem lookup_eq_none_of_lt (h : ∀ e ∈ es, k < e.1) : es.lookup k = none := by
  induction es with
  | nil => rfl
  | cons e es ih =>
    rw [lookup_cons', if_neg (ne_of_lt (h e (by simp)))]
    exact ih fun e' he' => h e' (by simp [he'])

theorem mem_emplaceList (h : e ∈ emplaceList k v es) : e = (k, v) ∨ e ∈ es := by
  induction es with
  | nil => exact .inl (by simpa [emplaceList] using h)
  | cons e' es ih =>
    unfold emplaceList at h
    split_ifs at h
    · exact List.mem_cons.mp h
    · exact .inr h
    · rcases List.mem_cons.mp h with h | h
      · exact .inr (by simp [h])
      · exact (ih h).imp_right fun h => by simp [h]

theorem sorted_emplaceList (h : es.Pairwise fun a b => a.1 < b.1) :
    (emplaceList k v es).Pairwise fun a b => a.1 < b.1 := by
  induction es with
  | nil => exact List.pairwise_singleton _ _
  | cons e es ih =>
    obtain ⟨he, hes⟩ := List.pairwise_cons.mp h
    unfold emplaceList
    split_ifs with h₁ h₂
    · refine List.pairwise_cons.mpr ⟨fun b hb => ?_, h⟩
      rcases List.mem_cons.mp hb with rfl | hb
      · exact h₁
      · exact lt_trans h₁ (he b hb)
    · exact h
    · refine List.pairwise_cons.mpr ⟨fun b hb => ?_, ih hes⟩
      rcases mem_emplaceList hb with rfl | hb
      · exact lt_of_le_of_ne (not_lt.mp h₁) (Ne.symm h₂)
      · exact he b hb

theorem lookup_emplaceList (h : es.Pairwise fun a b => a.1 < b.1) :
    (emplaceList k v es).lookup k' = if k' = k then some ((es.lookup k).getD v)
      else es.lookup k' := by
  induction es with
  | nil => rw [emplaceList, lookup_cons']; rfl
  | cons e es ih =>
    obtain ⟨he, hes⟩ := List.pairwise_cons.mp h
    unfold emplaceList
    split_ifs with h₁ h₂ h₃ h₄ h₅
    · have hnone : (e :: es).lookup k = none := lookup_eq_none_of_lt fun b hb => by
        rcases List.mem_cons.mp hb with rfl | hb
        · exact h₁
        · exact lt_trans h₁ (he b hb)
      rw [h₂, lookup_cons', if_pos rfl, hnone]
      rfl
    · rw [lookup_cons', if_neg h₂]
    · rw [h₄, h₃, lookup_cons', if_pos rfl]
      rfl
    · rfl
    · rw [h₅] at ih ⊢
      rw [lookup_cons', if_neg h₃, ih hes, if_pos rfl, lookup_cons', if_neg h₃]
    · rw [lookup_cons', lookup_cons', ih hes, if_neg h₅]

omit [LinearOrder κ] in
theorem keys_walkList (f : α → κ → ν → α × ν) (a : α) :
    (walkList f a es).2.map Prod.fst = es.map Prod.fst := by
  induction es generalizing a with
  | nil => rfl
  | cons e es ih =>
    show e.1 :: _ = e.1 :: _
    rw [ih]

end Lists

variable {m : OrderedMap κ ν} {k k' : κ} {v : ν}

/-- The value of a key. -/
def get? (m : OrderedMap κ ν) (k : κ) : Option ν := m.entries.lookup k

def empty : OrderedMap κ ν := ⟨[], List.Pairwise.nil⟩

/-- The map with the key, whose value is `v` unless it has one. -/
def emplace (m : OrderedMap κ ν) (k : κ) (v : ν) : OrderedMap κ ν :=
  ⟨emplaceList k v m.entries, sorted_emplaceList m.sorted⟩

/-- The map with another value for a key that it has. -/
def modify (m : OrderedMap κ ν) (k : κ) (f : ν → ν) : OrderedMap κ ν :=
  ⟨m.entries.map fun e => if e.1 = k then (e.1, f e.2) else e, by
    refine List.pairwise_map.mpr (m.sorted.imp fun {a b} h => ?_)
    split_ifs <;> exact h⟩

/-- The map with the value for the key, whether it was there or not. -/
def put (m : OrderedMap κ ν) (k : κ) (v : ν) : OrderedMap κ ν :=
  (m.emplace k v).modify k fun _ => v

/-- The map with the entries that are to be kept. -/
def filter (m : OrderedMap κ ν) (p : κ → ν → Bool) : OrderedMap κ ν :=
  ⟨m.entries.filter fun e => p e.1 e.2, m.sorted.filter _⟩

/-- The map with other values. -/
def mapValues (m : OrderedMap κ ν) (f : ν → ν) : OrderedMap κ ν :=
  ⟨m.entries.map fun e => (e.1, f e.2), List.pairwise_map.mpr m.sorted⟩

/-- Go through the map with an accumulator, and change the values. -/
def walk (f : α → κ → ν → α × ν) (a : α) (m : OrderedMap κ ν) : α × OrderedMap κ ν :=
  ((walkList f a m.entries).1, ⟨(walkList f a m.entries).2, by
    have h := List.pairwise_map.mpr m.sorted
    rw [← keys_walkList f a] at h
    exact List.pairwise_map.mp h⟩)

@[simp] theorem get?_empty : (empty : OrderedMap κ ν).get? k = none := rfl

/-- The entries are the keys with their values. -/
theorem mem_entries : (k, v) ∈ m.entries ↔ m.get? k = some v := by
  obtain ⟨es, hs⟩ := m
  show (k, v) ∈ es ↔ es.lookup k = some v
  induction es with
  | nil => simp
  | cons e es ih =>
    obtain ⟨he, hes⟩ := List.pairwise_cons.mp hs
    rw [lookup_cons', List.mem_cons]
    by_cases hk : k = e.1
    · rw [if_pos hk]
      constructor
      · rintro (h | h)
        · rw [← h]
        · exact absurd (he _ h) (hk ▸ lt_irrefl _)
      · intro h
        exact .inl (Prod.ext hk (Option.some.inj h).symm)
    · rw [if_neg hk, ← ih hes]
      constructor
      · rintro (h | h)
        · exact absurd (congrArg Prod.fst h) hk
        · exact h
      · exact .inr

theorem get?_eq_none : m.get? k = none ↔ k ∉ m.entries.map Prod.fst := by
  rw [Option.eq_none_iff_forall_ne_some]
  constructor
  · intro h hk
    obtain ⟨e, he, rfl⟩ := List.mem_map.mp hk
    exact h e.2 (mem_entries.mp he)
  · exact fun h v hv => h (List.mem_map.mpr ⟨(k, v), mem_entries.mpr hv, rfl⟩)

/-- A walk changes no key. -/
theorem keys_walk (f : α → κ → ν → α × ν) (a : α) :
    (walk f a m).2.entries.map Prod.fst = m.entries.map Prod.fst := keys_walkList f a

/-- What the walk keeps of every value is what the values had. -/
theorem get?_walk_map {β : Type} {g : ν → β} {f : α → κ → ν → α × ν}
    (hg : ∀ a k v, g (f a k v).2 = g v) (a : α) :
    ((walk f a m).2.get? k).map g = (m.get? k).map g := by
  obtain ⟨es, hs⟩ := m
  show ((walkList f a es).2.lookup k).map g = (es.lookup k).map g
  clear hs
  induction es generalizing a with
  | nil => rfl
  | cons e es ih =>
    rw [walkList, lookup_cons', lookup_cons']
    dsimp only
    split
    · rw [Option.map_some, Option.map_some, hg]
    · exact ih _

theorem get?_emplace :
    (m.emplace k v).get? k' = if k' = k then some ((m.get? k).getD v) else m.get? k' :=
  lookup_emplaceList m.sorted

/-- A key that is not there is added. -/
theorem perm_emplace (h : k ∉ m.entries.map Prod.fst) :
    (m.emplace k v).entries.Perm ((k, v) :: m.entries) := by
  obtain ⟨es, hs⟩ := m
  change k ∉ es.map Prod.fst at h
  change (emplaceList k v es).Perm ((k, v) :: es)
  clear hs
  induction es with
  | nil => exact List.Perm.refl _
  | cons e es ih =>
    have hne : k ≠ e.1 := fun heq => h (by simp [heq])
    have hes : k ∉ es.map Prod.fst := fun hmem => h (List.mem_cons_of_mem _ hmem)
    rw [emplaceList, if_neg hne]
    split_ifs with hlt
    · exact List.Perm.refl _
    · exact ((ih hes).cons e).trans (List.Perm.swap _ _ _)

/-- Adding entries with different keys one after the other keeps them all. -/
theorem perm_foldl_emplace {β : Type} (key : β → κ) (val : β → ν) (bs : List β)
    (hnodup : (bs.map key).Nodup) :
    (bs.foldl (fun d b => d.emplace (key b) (val b)) (empty : OrderedMap κ ν)).entries.Perm
      (bs.map fun b => (key b, val b)) := by
  induction bs using List.reverseRecOn with
  | nil => exact List.Perm.refl _
  | append_singleton bs b ih =>
    rw [List.map_append, List.nodup_append] at hnodup
    obtain ⟨hbs, -, hdisjoint⟩ := hnodup
    have hnew : key b ∉ (bs.foldl (fun d b => d.emplace (key b) (val b))
        (empty : OrderedMap κ ν)).entries.map Prod.fst := by
      rw [((ih hbs).map Prod.fst).mem_iff, List.map_map]
      exact fun hmem => hdisjoint _ hmem _ (by simp) rfl
    rw [List.foldl_append, List.map_append]
    exact (perm_emplace hnew).trans (((ih hbs).cons _).trans (List.perm_append_singleton _ _).symm)

theorem get?_modify (f : ν → ν) :
    (m.modify k f).get? k' = if k' = k then (m.get? k).map f else m.get? k' := by
  obtain ⟨es, hs⟩ := m
  show (es.map fun e => if e.1 = k then (e.1, f e.2) else e).lookup k'
    = if k' = k then (es.lookup k).map f else es.lookup k'
  clear hs
  induction es with
  | nil => split_ifs <;> rfl
  | cons e es ih =>
    rw [List.map_cons, lookup_cons', ih, lookup_cons', lookup_cons']
    by_cases hk : k' = k
    · subst hk
      by_cases he : k' = e.1
      · simp [he]
      · rw [if_neg (Ne.symm he), if_neg he, if_pos rfl, if_pos rfl, if_neg he]
    · rw [if_neg hk, if_neg hk]
      by_cases he : e.1 = k
      · rw [if_pos he, if_neg (he ▸ hk), if_neg (he ▸ hk)]
      · rw [if_neg he]

theorem get?_put : (m.put k v).get? k' = if k' = k then some v else m.get? k' := by
  rw [put, get?_modify, get?_emplace, get?_emplace, if_pos rfl]
  split <;> rfl

theorem get?_mapValues (f : ν → ν) : (m.mapValues f).get? k = (m.get? k).map f := by
  obtain ⟨es, hs⟩ := m
  show (es.map fun e => (e.1, f e.2)).lookup k = (es.lookup k).map f
  clear hs
  induction es with
  | nil => rfl
  | cons e es ih =>
    rw [List.map_cons, lookup_cons', lookup_cons', ih]
    split_ifs <;> rfl

theorem get?_filter (p : κ → ν → Bool) :
    (m.filter p).get? k = (m.get? k).filter fun v => p k v := by
  obtain ⟨es, hs⟩ := m
  show (es.filter fun e => p e.1 e.2).lookup k = (es.lookup k).filter fun v => p k v
  induction es with
  | nil => rfl
  | cons e es ih =>
    obtain ⟨he, hes⟩ := List.pairwise_cons.mp hs
    rw [List.filter_cons, lookup_cons']
    by_cases hk : k = e.1
    · have hnone : es.lookup k = none := lookup_eq_none_of_lt fun b hb => hk ▸ he b hb
      rw [if_pos hk]
      split_ifs with hp
      · rw [lookup_cons', if_pos hk, Option.filter_some, if_pos (hk ▸ hp)]
      · rw [ih hes, hnone, Option.filter_some, if_neg (hk ▸ hp)]
        rfl
    · rw [if_neg hk, ← ih hes]
      split_ifs
      · rw [lookup_cons', if_neg hk]
      · rfl

/-- Removing a key. -/
theorem get?_filter_ne :
    (m.filter fun k' _ => k' ≠ k).get? k' = if k' = k then none else m.get? k' := by
  rw [get?_filter]
  split
  · rename_i h
    cases m.get? k' with
    | none => rfl
    | some v => rw [Option.filter_some, if_neg (by simp [h])]
  · rename_i h
    cases m.get? k' with
    | none => rfl
    | some v => rw [Option.filter_some, if_pos (by simp [h])]

end OrderedMap
