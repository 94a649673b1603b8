import Mathlib.Data.List.Basic
import Mathlib.Data.List.Pairwise
import Mathlib.Data.Nat.Basic
import Mathlib.Order.Basic
import Mathlib.Tactic.Common

/-!
# Registries of names

A registry gives each name that is put in it an id, and keeps the id of the entry
the name hangs under.  The ids are counted up: an id is spent when it is given out,
and may be spent on nothing.

Names are compared by a relation `same`, which may be coarser than equality, and
`under p n` says that `n` hangs under `p`.  A registry is in order (`Ordered`) when
its ids increase along the entries, no two names are the same, and every name that
is not a root hangs under an entry with a smaller id.  `spend` and `register` keep a
registry in order, and what they make is `Later`: the old entries are there as they
were, and a new entry has an id that had not been spent.
-/

/-- An entry: its id, the id of the entry it hangs under, and its name. -/
structure RegistryEntry (ν : Type) where
  id : ℕ
  parent : ℕ
  name : ν

/-- The entries in the order they were made, and the next id. -/
structure Registry (ν : Type) where
  entries : List (RegistryEntry ν)
  next : ℕ

namespace Registry

variable {ν : Type}

/-- Spend an id on nothing. -/
def spend (r : Registry ν) : Registry ν := ⟨r.entries, r.next + 1⟩

/-- Make an entry with the next id. -/
def register (r : Registry ν) (parent : ℕ) (name : ν) : Registry ν :=
  ⟨r.entries ++ [⟨r.next, parent, name⟩], r.next + 1⟩

/-- The old entries are there, and the new ones have ids that had not been spent. -/
structure Later (r r' : Registry ν) : Prop where
  entries : ∃ new, r'.entries = r.entries ++ new ∧ ∀ e ∈ new, r.next ≤ e.id
  next : r.next ≤ r'.next

theorem Later.refl (r : Registry ν) : r.Later r :=
  ⟨⟨[], by simp, by simp⟩, le_rfl⟩

theorem Later.trans {r r' r'' : Registry ν} (h : r.Later r') (h' : r'.Later r'') :
    r.Later r'' := by
  obtain ⟨new, heq, hnew⟩ := h.entries
  obtain ⟨new', heq', hnew'⟩ := h'.entries
  refine ⟨⟨new ++ new', by rw [heq', heq, List.append_assoc], fun e he => ?_⟩, h.next.trans h'.next⟩
  rcases List.mem_append.mp he with he | he
  · exact hnew e he
  · exact h.next.trans (hnew' e he)

theorem later_spend (r : Registry ν) : r.Later r.spend :=
  ⟨⟨[], by simp [spend], by simp⟩, Nat.le_succ _⟩

theorem later_register (r : Registry ν) (parent : ℕ) (name : ν) :
    r.Later (r.register parent name) :=
  ⟨⟨_, rfl, by simp⟩, Nat.le_succ _⟩

/-- A registry that is in order. -/
structure Ordered (same under : ν → ν → Prop) (root : ν → Prop) (r : Registry ν) : Prop where
  increasing : r.entries.Pairwise fun e e' => e.id < e'.id
  id_lt : ∀ e ∈ r.entries, e.id < r.next
  distinct : r.entries.Pairwise fun e e' => ¬ same e.name e'.name
  parent : ∀ e ∈ r.entries, root e.name ∨
    ∃ q ∈ r.entries, q.id = e.parent ∧ q.id < e.id ∧ under q.name e.name

variable {same under : ν → ν → Prop} {root : ν → Prop} {r : Registry ν}

theorem ordered_nil (same under : ν → ν → Prop) (root : ν → Prop) (next : ℕ) :
    Ordered same under root ⟨[], next⟩ :=
  ⟨List.Pairwise.nil, by simp, List.Pairwise.nil, by simp⟩

theorem Ordered.spend (h : Ordered same under root r) : Ordered same under root r.spend :=
  ⟨h.increasing, fun e he => Nat.lt_succ_of_lt (h.id_lt e he), h.distinct, h.parent⟩

/-- A new name that hangs under an entry, or is a root, keeps the registry in order. -/
theorem Ordered.register (h : Ordered same under root r) {parent : ℕ} {name : ν}
    (hnew : ∀ e ∈ r.entries, ¬ same e.name name)
    (hparent : root name ∨ ∃ q ∈ r.entries, q.id = parent ∧ under q.name name) :
    Ordered same under root (r.register parent name) := by
  refine ⟨?_, ?_, ?_, ?_⟩
  · refine List.pairwise_append.mpr ⟨h.increasing, by simp, fun e he e' he' => ?_⟩
    rw [List.mem_singleton.mp he']
    exact h.id_lt e he
  · intro e he
    rcases List.mem_append.mp he with he | he
    · exact Nat.lt_succ_of_lt (h.id_lt e he)
    · rw [List.mem_singleton.mp he]
      exact Nat.lt_succ_self _
  · refine List.pairwise_append.mpr ⟨h.distinct, by simp, fun e he e' he' => ?_⟩
    rw [List.mem_singleton.mp he']
    exact hnew e he
  · intro e he
    rcases List.mem_append.mp he with he | he
    · refine (h.parent e he).imp_right ?_
      rintro ⟨q, hq, hparents⟩
      exact ⟨q, List.mem_append_left _ hq, hparents⟩
    · rw [List.mem_singleton.mp he]
      refine hparent.imp_right ?_
      rintro ⟨q, hq, hid, hunder⟩
      exact ⟨q, List.mem_append_left _ hq, hid, h.id_lt q hq, hunder⟩

/-- An id belongs to one place. -/
theorem Ordered.place_unique (h : Ordered same under root r) {i j : ℕ}
    (hi : i < r.entries.length) (hj : j < r.entries.length)
    (heq : r.entries[i].id = r.entries[j].id) : i = j := by
  have hlt := List.pairwise_iff_getElem.mp h.increasing
  rcases Nat.lt_trichotomy i j with hij | hij | hij
  · exact absurd heq (Nat.ne_of_lt (hlt i j hi hj hij))
  · exact hij
  · exact absurd heq.symm (Nat.ne_of_lt (hlt j i hj hi hij))

theorem Ordered.nodup_ids (h : Ordered same under root r) :
    (r.entries.map RegistryEntry.id).Nodup :=
  List.pairwise_map.mpr (h.increasing.imp fun hlt => Nat.ne_of_lt hlt)

end Registry
