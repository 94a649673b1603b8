import IntegratedCLI.Orquesta.Json

/-!
# Merging documents

`merge_dicts` on documents that share nothing: what the merged dictionary is, apart from
the objects it is made of, which are in `Json`.  A key of both sides keeps its place.  Where
both values are dictionaries they are merged in turn, and elsewhere the right one wins, or
the left one if nothing is to be overwritten.
-/

namespace IntegratedCLI
namespace Orquesta
namespace Json

mutual

/-- What a key has that both sides have. -/
def mergeValue (overwrite : Bool) : Json → Json → Json
  | .dict left, .dict right => .dict (mergeDicts overwrite left right)
  | l, r => if overwrite then r else l

def mergeDicts (overwrite : Bool) (left : List (String × Json)) :
    List (String × Json) → List (String × Json)
  | [] => left
  | (k, v) :: right =>
    match left.lookup k with
    | none => mergeDicts overwrite (Dict.put left k v) right
    | some l => mergeDicts overwrite (Dict.put left k (mergeValue overwrite l v)) right

end

theorem mergeDicts_eq (overwrite : Bool) (left right : List (String × Json)) :
    mergeDicts overwrite left right = Dict.mergeWith (mergeValue overwrite) left right := by
  induction right generalizing left with
  | nil => rfl
  | cons e right ih =>
    obtain ⟨k, v⟩ := e
    rw [mergeDicts, Dict.mergeWith_cons]
    cases left.lookup k with
    | none => exact ih _
    | some l => exact ih _

example : mergeDicts true [("a", .dict [("x", .num 1)])] [("a", .dict [("y", .num 2)])]
    = [("a", .dict [("x", .num 1), ("y", .num 2)])] := rfl

/-! ## Paths -/

inductive Step where
  | key (k : String)
  | index (i : ℕ)
  deriving DecidableEq, Repr

/-- What is at the end of the path. -/
def get? : Json → List Step → Option Json
  | j, [] => some j
  | .dict fields, .key k :: path => (fields.lookup k).bind fun v => get? v path
  | .list xs, .index i :: path => xs[i]?.bind fun v => get? v path
  | _, _ :: _ => none

/-- A dictionary or a list, whatever is in it, or the document. -/
def shape : Json → Json
  | .dict _ => .dict []
  | .list _ => .list []
  | j => j

/-- The documents are equal; the order of the fields does not matter. -/
def Agree (a b : Json) : Prop :=
  ∀ path, (a.get? path).map shape = (b.get? path).map shape

/-- No dictionary has a key twice. -/
def Distinct (j : Json) : Prop :=
  ∀ path fields, j.get? path = some (.dict fields) → (fields.map Prod.fst).Nodup

/-- Where both have a dictionary, the new one has the keys of the old one. -/
def Covers (old new : Json) : Prop :=
  ∀ (ks : List String) (left right : List (String × Json)),
    old.get? (ks.map .key) = some (.dict left) → new.get? (ks.map .key) = some (.dict right) →
      ∀ k, (left.lookup k).isSome → (right.lookup k).isSome

theorem Agree.refl (a : Json) : Agree a a := fun _ => rfl

theorem Agree.symm {a b : Json} (h : Agree a b) : Agree b a := fun path => (h path).symm

theorem Agree.trans {a b c : Json} (h : Agree a b) (h' : Agree b c) : Agree a c :=
  fun path => (h path).trans (h' path)

variable {old new v w : Json} {left right : List (String × Json)} {k : String}

@[simp] theorem get?_nil : old.get? [] = some old := by
  cases old <;> rfl

@[simp] theorem get?_dict (path : List Step) :
    (dict left).get? (.key k :: path) = (left.lookup k).bind fun v => v.get? path := rfl

/-- A field of a document without a repeated key is one. -/
theorem Distinct.field (h : (dict right).Distinct) (hv : right.lookup k = some v) : v.Distinct := by
  intro path fields hpath
  refine h (.key k :: path) fields ?_
  rw [get?_dict, hv]
  exact hpath

theorem Distinct.nodup (h : (dict right).Distinct) : (right.map Prod.fst).Nodup := h [] right rfl

theorem Covers.field (h : Covers (dict left) (dict right)) (hv : left.lookup k = some v)
    (hw : right.lookup k = some w) : Covers v w := by
  intro ks left' right' hleft hright
  refine h (k :: ks) left' right' ?_ ?_
  · rw [List.map_cons, get?_dict, hv]
    exact hleft
  · rw [List.map_cons, get?_dict, hw]
    exact hright

theorem exists_field {path : List Step} (h : old.get? (.key k :: path) = some new) :
    ∃ fields v, old = dict fields ∧ fields.lookup k = some v ∧ v.get? path = some new := by
  cases old with
  | dict fields =>
    obtain ⟨v, hv, hpath⟩ := Option.bind_eq_some_iff.mp h
    exact ⟨fields, v, rfl, hv, hpath⟩
  | null | bool | num | float | str | list => cases h

/-- Where one of the values is not a dictionary the right one is taken. -/
theorem mergeValue_eq (h : ¬ ∃ left right, old = dict left ∧ new = dict right) :
    mergeValue true old new = new := by
  cases old <;> cases new <;> simp_all [mergeValue]

/-- What a key has after a merge. -/
theorem lookup_mergeDicts (h : (right.map Prod.fst).Nodup) (k : String) :
    (mergeDicts true left right).lookup k
      = ((right.lookup k).map fun w => ((left.lookup k).map (mergeValue true · w)).getD w).or
          (left.lookup k) := by
  rw [mergeDicts_eq]
  exact Dict.lookup_mergeWith (mergeValue true) left h k

/-- **A value is what the merge makes of it** exactly if it has all the keys of the old one. -/
theorem agree_mergeValue_iff (hnew : new.Distinct) :
    Agree new (mergeValue true old new) ↔ Covers old new := by
  constructor
  · intro h ks
    induction ks generalizing old new with
    | nil =>
      intro left right hleft hright k hk
      rw [List.map_nil, get?_nil, Option.some_inj] at hleft hright
      subst hleft hright
      have hat := h [.key k]
      rw [mergeValue, get?_dict, get?_dict, lookup_mergeDicts hnew.nodup] at hat
      cases hr : right.lookup k with
      | some w => rfl
      | none =>
        obtain ⟨v, hv⟩ := Option.isSome_iff_exists.mp hk
        rw [hr, hv] at hat
        simp at hat
    | cons k ks ih =>
      intro left right hleft hright
      obtain ⟨l, u, rfl, hu, hleft⟩ := exists_field hleft
      obtain ⟨r, w, rfl, hw, hright⟩ := exists_field hright
      refine ih (hnew.field hw) (fun path => ?_) left right hleft hright
      have hat := h (.key k :: path)
      rw [mergeValue, get?_dict, get?_dict, lookup_mergeDicts hnew.nodup, hw, hu] at hat
      exact hat
  · intro h path
    induction path generalizing old new with
    | nil =>
      rw [get?_nil, get?_nil, Option.map_some, Option.map_some]
      by_cases hboth : ∃ left right, old = dict left ∧ new = dict right
      · obtain ⟨left, right, rfl, rfl⟩ := hboth
        rfl
      · rw [mergeValue_eq hboth]
    | cons step path ih =>
      by_cases hboth : ∃ left right, old = dict left ∧ new = dict right
      · obtain ⟨left, right, rfl, rfl⟩ := hboth
        cases step with
        | index i => rfl
        | key k =>
          rw [mergeValue, get?_dict, get?_dict, lookup_mergeDicts hnew.nodup]
          cases hw : right.lookup k with
          | none =>
            have hnone : left.lookup k = none := by
              by_contra hsome
              have := h [] left right rfl rfl k (Option.ne_none_iff_isSome.mp hsome)
              rw [hw] at this
              cases this
            rw [hnone]
            rfl
          | some w =>
            cases hu : left.lookup k with
            | none => rfl
            | some u => exact ih (hnew.field hw) (h.field hu hw)
      · rw [mergeValue_eq hboth]

end Json
end Orquesta
end IntegratedCLI
