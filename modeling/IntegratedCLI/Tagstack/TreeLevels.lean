import IntegratedCLI.Common.Pow2
import IntegratedCLI.Tagstack.Combinator

/-!
# The levels of the binary tree

`PerCpuSliceGenerator` gives the tree as many levels as the smallest balanced tree needs
that has a leaf for every CPU, and two at least.  A level halves the number of nodes and
rounds up, so that `2 ^ L` streams or less are one node after `L` levels
(`makeBinaryTree_ok`).

A combinator asks its first child without a test, and its second one only if there is one.
`Solid` says of a tree that no child is asked that is missing.
-/

namespace IntegratedCLI
namespace Tagstack

/-- The levels of the tree for that many CPUs: two for the cases 0, 1 and 2, and as many
as `log2NextPow2` says for the others. -/
def numLevels (n : ℕ) : Option ℕ := (Common.log2NextPow2_uint64 (BitVec.ofNat 64 n)).map (max 2)

namespace Stream

/-- The input streams of the tree, from the left. -/
def inputs : Stream → List Input
  | null => []
  | input s => [s]
  | combinator a b _ => a.inputs ++ b.inputs

/-- The streams and the combinators of the tree. -/
def nodes : Stream → List Stream
  | null => []
  | input s => [input s]
  | combinator a b c => combinator a b c :: (a.nodes ++ b.nodes)

/-- The children whose `prepareNext` is called. -/
def dereferenced : Stream → List Stream
  | combinator a b _ => a :: if b.isNull then [] else [b]
  | _ => []

/-- The tree is not missing, and no node of it asks a child that is. -/
structure Solid (t : Stream) : Prop where
  notNull : t.isNull = false
  children : ∀ node ∈ t.nodes, ∀ child ∈ node.dereferenced, child.isNull = false

variable {a b t : Stream} {ts : List Stream} {c : CombinatorState}

theorem Solid.input (s : Input) : Solid (input s) := by
  refine ⟨rfl, fun node hnode child hchild => ?_⟩
  rw [List.mem_singleton.mp hnode] at hchild
  cases hchild

theorem Solid.combinator (ha : a.Solid) (hb : b.isNull = false → b.Solid) :
    Solid (combinator a b c) := by
  refine ⟨rfl, fun node hnode => ?_⟩
  rcases List.mem_cons.mp hnode with rfl | hnode
  · intro child hchild
    rcases List.mem_cons.mp hchild with rfl | hchild
    · exact ha.notNull
    · split at hchild
      · cases hchild
      · rename_i hb
        rw [List.mem_singleton.mp hchild]
        rwa [Bool.not_eq_true] at hb
  · rcases List.mem_append.mp hnode with hnode | hnode
    · exact ha.children node hnode
    · cases hnull : b.isNull with
      | true =>
        cases b with
        | null => cases hnode
        | input _ => cases hnull
        | combinator _ _ _ => cases hnull
      | false => exact (hb hnull).children node hnode

/-! ## One level -/

theorem length_pairUp (ts : List Stream) : (pairUp ts).length = (ts.length + 1) / 2 := by
  induction ts using pairUp.induct with
  | case1 => rfl
  | case2 a => simp [pairUp]
  | case3 a b rest ih =>
    rw [pairUp, List.length_cons, ih, List.length_cons, List.length_cons]
    omega

theorem inputs_pairUp (ts : List Stream) : (pairUp ts).flatMap inputs = ts.flatMap inputs := by
  induction ts using pairUp.induct with
  | case1 => rfl
  | case2 a => simp [pairUp, inputs]
  | case3 a b rest ih => simp [pairUp, inputs, ih]

theorem solid_pairUp (h : ∀ t ∈ ts, t.Solid) : ∀ t ∈ pairUp ts, t.Solid := by
  induction ts using pairUp.induct with
  | case1 => exact h
  | case2 a =>
    intro t ht
    rw [List.mem_singleton.mp ht]
    exact (h a List.mem_cons_self).combinator fun hnull => by cases hnull
  | case3 a b rest ih =>
    have ha := h a List.mem_cons_self
    have hb := h b (List.mem_cons_of_mem a List.mem_cons_self)
    intro t ht
    rcases List.mem_cons.mp ht with rfl | ht
    · exact ha.combinator fun _ => hb
    · refine ih (fun t ht => h t ?_) t ht
      exact List.mem_cons_of_mem a (List.mem_cons_of_mem b ht)

/-! ## All levels -/

/-- **The tree** over as many streams as its levels have room for. -/
theorem makeBinaryTree_ok {depth : ℕ} (hsolid : ∀ t ∈ ts, t.Solid) (hpos : 1 ≤ ts.length)
    (hle : ts.length ≤ 2 ^ (depth + 1)) :
    ∃ root, makeBinaryTree depth ts = .ok root ∧ root.inputs = ts.flatMap inputs ∧
      root.Solid := by
  have hne : ts ≠ [] := List.ne_nil_of_length_pos hpos
  have hlength := length_pairUp ts
  have hinputs := inputs_pairUp ts
  have hnodes := solid_pairUp hsolid
  induction depth generalizing ts with
  | zero =>
    obtain ⟨root, hroot⟩ := List.length_eq_one_iff.mp (show (pairUp ts).length = 1 by omega)
    rw [hroot] at hinputs hnodes
    refine ⟨root, ?_, ?_, hnodes root List.mem_cons_self⟩
    · unfold makeBinaryTree
      rw [if_neg hne, hroot]
      rfl
    · rw [← hinputs, List.flatMap_singleton]
  | succ depth ih =>
    have hhalf : 2 ^ (depth + 1 + 1) = 2 * 2 ^ (depth + 1) := by omega
    have hpos' : 1 ≤ (pairUp ts).length := by omega
    obtain ⟨root, hroot, hall, hsound⟩ := ih hnodes hpos' (by omega)
      (List.ne_nil_of_length_pos hpos') (length_pairUp _) (inputs_pairUp _) (solid_pairUp hnodes)
    refine ⟨root, ?_, hall.trans hinputs, hsound⟩
    unfold makeBinaryTree
    rw [if_neg hne]
    exact hroot

/-- **The merge tree is complete**: with the levels that the caller computes there is one
root, every input stream is one leaf of the tree, and no child is asked that is missing. -/
theorem makeBinaryTree_complete {streams : List Input} {L : ℕ}
    (hL : numLevels streams.length = some L) (hpos : 1 ≤ streams.length)
    (hle : streams.length ≤ 2 ^ L) :
    ∃ root, makeBinaryTree (L - 1) (streams.map input) = .ok root ∧ root.inputs = streams ∧
      ∀ node ∈ root.nodes, ∀ child ∈ node.dereferenced, child.isNull = false := by
  obtain ⟨k, _, rfl⟩ := Option.map_eq_some_iff.mp hL
  have hsolid : ∀ t ∈ streams.map input, t.Solid := by
    intro t ht
    obtain ⟨s, _, rfl⟩ := List.mem_map.mp ht
    exact Solid.input s
  have hlevels : max 2 k - 1 + 1 = max 2 k := by omega
  have hfits : (streams.map input).length ≤ 2 ^ (max 2 k - 1 + 1) := by
    rwa [List.length_map, hlevels]
  obtain ⟨root, hroot, hinputs, hsound⟩ := makeBinaryTree_ok hsolid (by rwa [List.length_map]) hfits
  refine ⟨root, hroot, ?_, hsound.children⟩
  rw [hinputs, List.flatMap_map]
  exact List.flatMap_singleton' streams

/-- Three input streams with nothing in them. -/
def threeInputs : List Input := List.replicate 3 ⟨⟨[], none⟩, []⟩

theorem makeBinaryTree_complete_three :
    ∃ root, makeBinaryTree 1 (threeInputs.map input) = .ok root ∧ root.inputs = threeInputs ∧
      ∀ node ∈ root.nodes, ∀ child ∈ node.dereferenced, child.isNull = false :=
  makeBinaryTree_complete (L := 2) (by decide +kernel) (by decide) (by decide)

end Stream

end Tagstack
end IntegratedCLI
