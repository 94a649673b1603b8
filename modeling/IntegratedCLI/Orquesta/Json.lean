import Mathlib.Data.Int.Notation
import Mathlib.Data.List.Basic
import IntegratedCLI.Lib.Dict

/-!
# JSON documents and dictionaries that share parts

Inputs, results and published values are JSON documents (`Json`).  The contexts
of a workflow are dictionaries too, but these are objects: `merge_dicts` writes
into its left argument, and it puts the nested dictionaries of the right argument
into the left one without a copy.  So two contexts can come to share a nested
dictionary, and a later merge into the one changes the other.

`Dicts` is the heap of these objects.  A `Value` is a JSON document that is not a
dictionary, or a reference to a dictionary on the heap.  `load` puts a document
on the heap and `dump` takes one off it, which is what a deep copy does.

A nested dictionary is reached by one sequence of keys from a context only, so
that no dictionary is inside itself and no chain of references is longer than
the heap.  The length of the heap bounds the recursion of `dump` and `mergeDicts`.
-/

namespace IntegratedCLI
namespace Orquesta

/-! ## Documents -/

/-- A JSON document.  A number that is not an integer is kept as its literal. -/
inductive Json where
  | null
  | bool (b : Bool)
  | num (n : ℤ)
  | float (literal : String)
  | str (s : String)
  | list (xs : List Json)
  | dict (fields : List (String × Json))
  deriving Repr

namespace Json

instance : Inhabited Json := ⟨null⟩

/-- Whether a condition with this value holds. -/
def truthy : Json → Bool
  | null => false
  | bool b => b
  | num n => n ≠ 0
  | float literal => literal ≠ "0.0"
  | str s => s ≠ ""
  | list xs => !xs.isEmpty
  | dict fields => !fields.isEmpty

/-- The value as an `int`, of which `bool` is a subclass. -/
def asInt : Json → Option ℤ
  | num n => some n
  | bool b => some (if b then 1 else 0)
  | _ => none

mutual

/-- Equality of documents; the order of the fields does not matter. -/
def equal : Json → Json → Bool
  | null, null => true
  | bool a, bool b => a == b
  | num a, num b => a == b
  | float a, float b => a == b
  | str a, str b => a == b
  | list xs, list ys => equalLists xs ys
  | dict fields, dict fields' => fields.length == fields'.length && equalFields fields fields'
  | _, _ => false

def equalLists : List Json → List Json → Bool
  | [], [] => true
  | x :: xs, y :: ys => equal x y && equalLists xs ys
  | _, _ => false

def equalFields : List (String × Json) → List (String × Json) → Bool
  | [], _ => true
  | (k, v) :: fields, fields' =>
    match fields'.lookup k with
    | some v' => equal v v' && equalFields fields fields'
    | none => false

end

end Json

/-! ## The heap of dictionaries -/

/-- The identity of a dictionary. -/
abbrev Ref := ℕ

/-- A value in a dictionary on the heap.  A document under `json` is not a
dictionary itself. -/
inductive Value where
  | json (j : Json)
  | dict (r : Ref)
  deriving Repr

/-- The dictionaries, each at the position that is its identity. -/
abbrev Dicts := List (List (String × Value))

namespace Dicts

def read (h : Dicts) (r : Ref) : List (String × Value) := (h[r]?).getD []

/-- `left[k] = v` -/
def setItem (h : Dicts) (l : Ref) (k : String) (v : Value) : Dicts :=
  h.modify l fun d => Dict.put d k v

/-- A new dictionary. -/
def alloc (h : Dicts) (d : List (String × Value)) : Ref × Dicts := (h.length, h ++ [d])

mutual

/-- Put a document on the heap. -/
def load : Json → Dicts → Value × Dicts
  | .dict fields, h =>
    let (d, h) := loadFields fields h
    let (r, h) := alloc h d
    (.dict r, h)
  | j, h => (.json j, h)

def loadFields : List (String × Json) → Dicts → List (String × Value) × Dicts
  | [], h => ([], h)
  | (k, j) :: fields, h =>
    let (v, h) := load j h
    let (d, h) := loadFields fields h
    ((k, v) :: d, h)

end

/-- Take a document off the heap, through at most `n` dictionaries. -/
def dump (h : Dicts) : ℕ → Value → Json
  | _, .json j => j
  | 0, .dict _ => .null
  | n + 1, .dict r => .dict ((h.read r).map fun e => (e.1, dump h n e.2))

/-- A deep copy of a dictionary, as the list of its fields. -/
def fields (h : Dicts) (r : Ref) : List (String × Json) :=
  (h.read r).map fun e => (e.1, h.dump h.length e.2)

/-- One key of a merge into `l`.  `rest` merges two nested dictionaries. -/
def mergeItem (rest : Ref → Ref → Dicts → Dicts) (l : Ref) (h : Dicts) (e : String × Value) :
    Dicts :=
  match (h.read l).lookup e.1, e.2 with
  | none, v => h.setItem l e.1 v
  | some (.dict l'), .dict r' => rest l' r' h
  | some _, v => h.setItem l e.1 v

/-- Merge the dictionary `r` into the dictionary `l`, through at most `n` levels. -/
def mergeDicts : ℕ → Ref → Ref → Dicts → Dicts
  | 0, _, _, h => h
  | n + 1, l, r, h => (h.read r).foldl (mergeItem (mergeDicts n) l) h

/-- Merge with the recursion that the heap allows. -/
def merge (l r : Ref) (h : Dicts) : Dicts := mergeDicts (h.length + 1) l r h

end Dicts

end Orquesta
end IntegratedCLI
