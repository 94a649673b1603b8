import IntegratedCLI.Orquesta.ContextReads
import IntegratedCLI.Orquesta.Merging

/-!
# The documents of the heap

What `merge_dicts` does to dictionaries that are objects, in `Json`, and what it makes of
documents that share nothing, in `Merging`, agree where the merge is calm: the document of
the entries laid over each other is the merge of their documents (`dump_foldl_lay`).

A document that is put on the heap is taken off it again (`dump_load`), however many
dictionaries are made after it.  `Stores` says that a dictionary stands for its document
in this way.
-/

namespace IntegratedCLI
namespace Orquesta

open Effect

namespace Dicts

/-! ## Documents that are put on the heap -/

/-- The documents of the entries, through at most `n` dictionaries. -/
def dumpFields (h : Dicts) (n : ℕ) (d : Fields) : List (String × Json) :=
  d.map fun e => (e.1, h.dump n e.2)

mutual

theorem prefix_load : ∀ (j : Json) (h : Dicts), h <+: (load j h).2
  | .dict fields, h => (prefix_loadFields fields h).trans (List.prefix_append _ _)
  | .null, _ | .bool _, _ | .num _, _ | .float _, _ | .str _, _ | .list _, _ => List.prefix_rfl

theorem prefix_loadFields : ∀ (fields : List (String × Json)) (h : Dicts),
    h <+: (loadFields fields h).2
  | [], _ => List.prefix_rfl
  | (_, j) :: fields, h => (prefix_load j h).trans (prefix_loadFields fields _)

end

mutual

/-- **A document that was put on the heap** is taken off it again. -/
theorem dump_load : ∀ (j : Json) (h : Dicts), ∃ N, ∀ n, N ≤ n → ∀ H : Dicts, (load j h).2 <+: H →
    H.dump n (load j h).1 = j
  | .dict fields, h => by
    obtain ⟨N, hN⟩ := dump_loadFields fields h
    refine ⟨N + 1, fun n hn H hp => ?_⟩
    obtain ⟨n, rfl⟩ := Nat.exists_eq_add_of_le' (Nat.le_add_left 1 N |>.trans hn)
    have hlast : H.read (loadFields fields h).2.length = (loadFields fields h).1 := by
      rw [read_longer hp (by simp [load, alloc])]
      simp [load, alloc, read]
    show H.dump (n + 1) (.dict (loadFields fields h).2.length) = _
    rw [dump, hlast]
    exact congrArg Json.dict (hN n (Nat.le_of_succ_le_succ hn) H
      ((List.prefix_append _ _).trans hp))
  | .null, _ | .bool _, _ | .num _, _ | .float _, _ | .str _, _ | .list _, _ =>
    ⟨0, fun n _ H _ => by cases n <;> rfl⟩

theorem dump_loadFields : ∀ (fields : List (String × Json)) (h : Dicts), ∃ N, ∀ n, N ≤ n →
    ∀ H : Dicts, (loadFields fields h).2 <+: H → H.dumpFields n (loadFields fields h).1 = fields
  | [], _ => ⟨0, fun _ _ _ _ => rfl⟩
  | (k, j) :: fields, h => by
    obtain ⟨N, hN⟩ := dump_load j h
    obtain ⟨N', hN'⟩ := dump_loadFields fields (load j h).2
    refine ⟨max N N', fun n hn H hp => ?_⟩
    have hfirst := hN n ((le_max_left _ _).trans hn) H ((prefix_loadFields fields _).trans hp)
    have hrest := hN' n ((le_max_right _ _).trans hn) H hp
    show (k, H.dump n (load j h).1) :: H.dumpFields n (loadFields fields (load j h).2).1 = _
    rw [hfirst, hrest]

end

/-- The dictionary stands for the fields, whatever dictionaries are made after it. -/
def Stores (h : Dicts) (r : Ref) (fields : List (String × Json)) : Prop :=
  ∃ N, ∀ n, N ≤ n → ∀ H : Dicts, h <+: H → H.dump n (.dict r) = .dict fields

theorem Stores.longer {h H : Dicts} {r : Ref} {fields : List (String × Json)}
    (hs : h.Stores r fields) (hp : h <+: H) : H.Stores r fields := by
  obtain ⟨N, hN⟩ := hs
  exact ⟨N, fun n hn H' hp' => hN n hn H' (hp.trans hp')⟩

/-! ## Merging what is on the heap -/

section Merge

variable {h : Dicts}

theorem lookup_dumpFields (n : ℕ) (d : Fields) (k : String) :
    (h.dumpFields n d).lookup k = (d.lookup k).map (h.dump n) :=
  Dict.lookup_map (h.dump n) d k

theorem dumpFields_put (n : ℕ) (d : Fields) (k : String) (v : Value) :
    h.dumpFields n (Dict.put d k v) = Dict.put (h.dumpFields n d) k (h.dump n v) :=
  Dict.map_put (h.dump n) d k v

/-- A value that is no dictionary wins over every other one. -/
theorem mergeValue_plain {j : Json} (hj : (Value.json j).IsPlain) (l : Json) :
    Json.mergeValue true l j = j :=
  Json.mergeValue_eq fun ⟨_, _, _, hright⟩ => by
    subst hright
    exact hj

theorem mergeValue_over_plain {j : Json} (hj : (Value.json j).IsPlain) (w : Json) :
    Json.mergeValue true j w = w :=
  Json.mergeValue_eq fun ⟨_, _, hleft, _⟩ => by
    subst hleft
    exact hj

/-- A dictionary that is within the other one adds nothing to the document of it. -/
theorem mergeValue_within (hh : h.Plain) (n : ℕ) : ∀ {l r : Ref}, (∀ m, h.Within m l r) →
    Json.mergeValue true (h.dump n (.dict l)) (h.dump n (.dict r)) = h.dump n (.dict l) := by
  induction n with
  | zero => exact fun _ => rfl
  | succ n ih =>
    intro l r hw
    have hloop : ∀ es ⊆ h.read r, Json.mergeDicts true (h.dumpFields n (h.read l))
        (h.dumpFields n es) = h.dumpFields n (h.read l) := by
      intro es
      induction es with
      | nil => exact fun _ => rfl
      | cons e es ihes =>
        intro hes
        obtain ⟨k, v⟩ := e
        have he : (k, v) ∈ h.read r := hes List.mem_cons_self
        have hlevel := fun m => hw (m + 1) (k, v) he
        dsimp only at hlevel
        show Json.mergeDicts true _ ((k, h.dump n v) :: h.dumpFields n es) = _
        rw [Json.mergeDicts, lookup_dumpFields]
        cases hk : (h.read l).lookup k with
        | none =>
          have hnone := hlevel 0
          rw [hk] at hnone
          exact hnone.elim
        | some w =>
          rw [hk] at hlevel
          have hsame : Json.mergeValue true (h.dump n w) (h.dump n v) = h.dump n w := by
            cases w with
            | json j =>
              obtain rfl : .json j = v := hlevel 0
              have hj : (Value.json j).IsPlain := hh.read he
              rw [dump]
              exact mergeValue_plain hj j
            | dict l' =>
              cases v with
              | json j => cases hlevel 0
              | dict r' => exact ih hlevel
          rw [Option.map_some]
          dsimp only
          rw [hsame, Dict.put_self]
          · exact ihes (List.subset_of_cons_subset hes)
          · rw [lookup_dumpFields, hk]
            rfl
    show Json.dict (Json.mergeDicts true (h.dumpFields n (h.read l)) (h.dumpFields n (h.read r))) = _
    rw [hloop _ (List.Subset.refl _)]
    rfl

/-- **The entries laid over each other** are, as documents, merged. -/
theorem dumpFields_lay (hh : h.Plain) (n : ℕ) {d : Fields} {es : List (String × Value)}
    (hd : ∀ x ∈ d, x.2.IsPlain) (hes : ∀ e ∈ es, e.2.IsPlain) (hcalm : h.CalmOver d es) :
    h.dumpFields n (es.foldl lay d) =
      Json.mergeDicts true (h.dumpFields n d) (h.dumpFields n es) := by
  induction es generalizing d with
  | nil => rfl
  | cons e es ih =>
    obtain ⟨k, v⟩ := e
    obtain ⟨hfirst, hrest⟩ := hcalm
    have hv : v.IsPlain := hes (k, v) List.mem_cons_self
    have hput : ∀ x ∈ Dict.put d k v, x.2.IsPlain := by
      intro x hx
      rcases Dict.mem_put hx with rfl | hx
      · exact hv
      · exact hd x hx
    show h.dumpFields n (es.foldl lay (lay d (k, v))) =
      Json.mergeDicts true (h.dumpFields n d) ((k, h.dump n v) :: h.dumpFields n es)
    rw [Json.mergeDicts, lookup_dumpFields]
    cases hk : d.lookup k with
    | none =>
      simp only [lay, hk] at hrest ⊢
      rw [ih hput (fun e he => hes e (List.mem_cons_of_mem _ he)) hrest, dumpFields_put]
      rfl
    | some w =>
      cases w with
      | json j =>
        have hj : (Value.json j).IsPlain := hd _ (Dict.mem_of_lookup hk)
        simp only [lay, hk] at hrest ⊢
        rw [ih hput (fun e he => hes e (List.mem_cons_of_mem _ he)) hrest, dumpFields_put,
          Option.map_some]
        dsimp only
        rw [dump, mergeValue_over_plain hj]
      | dict l =>
        cases v with
        | json j =>
          simp only [lay, hk] at hrest ⊢
          rw [ih hput (fun e he => hes e (List.mem_cons_of_mem _ he)) hrest, dumpFields_put,
            Option.map_some]
          dsimp only
          have hj : h.dump n (.json j) = j := by rw [dump]
          rw [hj, mergeValue_plain hv]
        | dict r =>
          -- the dictionary stays, and its document has what the other one has
          simp only [lay, hk] at hrest ⊢
          rw [ih hd (fun e he => hes e (List.mem_cons_of_mem _ he)) hrest, Option.map_some]
          dsimp only
          rw [mergeValue_within hh n (fun m => hfirst l r hk rfl m), Dict.put_self]
          rw [lookup_dumpFields, hk]
          rfl

/-! ## A heap with more dictionaries -/

theorem CalmOver.longer {H : Dicts} (hp : h <+: H) (hh : h.Closed) {d : Fields}
    {es : List (String × Value)} (hd : ∀ x ∈ d, x.2.Below h.length)
    (hes : ∀ e ∈ es, e.2.Below h.length) (hcalm : h.CalmOver d es) : H.CalmOver d es := by
  induction es generalizing d with
  | nil => trivial
  | cons e es ih =>
    obtain ⟨hfirst, hrest⟩ := hcalm
    refine ⟨fun l r hl hr n => ?_, ih (below_lay hd (hes e List.mem_cons_self))
      (fun e' he' => hes e' (List.mem_cons_of_mem _ he')) hrest⟩
    have hr' := hes e List.mem_cons_self
    rw [hr] at hr'
    exact within_longer hp hh n (hd _ (Dict.mem_of_lookup hl)) hr' (hfirst l r hl hr n)

theorem plain_lay {d : Fields} {e : String × Value} (hd : ∀ x ∈ d, x.2.IsPlain)
    (he : e.2.IsPlain) : ∀ x ∈ lay d e, x.2.IsPlain := by
  have hput : ∀ x ∈ Dict.put d e.1 e.2, x.2.IsPlain := by
    intro x hx
    rcases Dict.mem_put hx with rfl | hx
    · exact he
    · exact hd x hx
  unfold lay
  split
  · exact hput
  · exact hd
  · exact hput

theorem plain_foldl_lay {d : Fields} {es : List (String × Value)} (hd : ∀ x ∈ d, x.2.IsPlain)
    (hes : ∀ e ∈ es, e.2.IsPlain) : ∀ x ∈ es.foldl lay d, x.2.IsPlain := by
  induction es generalizing d with
  | nil => exact hd
  | cons e es ih =>
    exact ih (plain_lay hd (hes e List.mem_cons_self)) fun e' he' =>
      hes e' (List.mem_cons_of_mem _ he')

end Merge

end Dicts

/-! ## Contexts laid over each other -/

section Contexts

variable {s s' : Conductor}

/-- There is a context for each of the indices. -/
def InRange (s : Conductor) (idxs : List ℕ) : Prop := ∀ i ∈ idxs, i < s.contexts.length

theorem contextFields_ok {idxs : List ℕ} (h : InRange s idxs) :
    contextFields s idxs = .ok (laid s [] idxs) := by
  rw [contextFields, if_pos]
  exact List.all_eq_true.mpr fun i hi => decide_eq_true (h i hi)

theorem laid_append {is js : List ℕ} (h : InRange s is) (d : Fields) :
    laid s d (is ++ js) = laid s (laid s d is) js := by
  induction is generalizing d with
  | nil => rfl
  | cons i is ih =>
    obtain ⟨c, hc⟩ : ∃ c, s.contexts[i]? = some c :=
      ⟨_, List.getElem?_eq_getElem (h i List.mem_cons_self)⟩
    rw [List.cons_append]
    simp only [laid, hc]
    exact ih (fun j hj => h j (List.mem_cons_of_mem _ hj)) _

theorem CalmContexts.append {is js : List ℕ} (h : InRange s is) {d : Fields}
    (hcalm : CalmContexts s d (is ++ js)) :
    CalmContexts s d is ∧ CalmContexts s (laid s d is) js := by
  induction is generalizing d with
  | nil => exact ⟨trivial, hcalm⟩
  | cons i is ih =>
    obtain ⟨c, hc⟩ : ∃ c, s.contexts[i]? = some c :=
      ⟨_, List.getElem?_eq_getElem (h i List.mem_cons_self)⟩
    rw [List.cons_append] at hcalm
    simp only [CalmContexts, laid, hc] at hcalm ⊢
    obtain ⟨his, hjs⟩ := ih (fun j hj => h j (List.mem_cons_of_mem _ hj)) hcalm.2
    exact ⟨⟨hcalm.1, his⟩, hjs⟩

theorem plain_laid (hs : s.dicts.Plain) {d : Fields} (hd : ∀ x ∈ d, x.2.IsPlain)
    (idxs : List ℕ) : ∀ x ∈ laid s d idxs, x.2.IsPlain := by
  induction idxs generalizing d with
  | nil => exact hd
  | cons i is ih =>
    unfold laid
    cases s.contexts[i]? with
    | none => exact hd
    | some c => exact ih (Dicts.plain_foldl_lay hd fun e he => hs.read he)

/-- The document of a context is overlaid with the document of the last context. -/
theorem dumpFields_laid (hs : s.dicts.Plain) {own : List ℕ} (hown : InRange s own) {k : ℕ}
    {c : Ref} (hc : s.contexts[k]? = some c) (hcalm : CalmContexts s [] (own ++ [k])) (n : ℕ) :
    s.dicts.dumpFields n (laid s [] (own ++ [k])) =
      Json.mergeDicts true (s.dicts.dumpFields n (laid s [] own))
        (s.dicts.dumpFields n (s.dicts.read c)) := by
  have hover := (hcalm.append hown).2
  rw [laid_append hown]
  simp only [CalmContexts, laid, hc] at hover ⊢
  exact Dicts.dumpFields_lay hs n (plain_laid hs (fun x hx => (List.not_mem_nil hx).elim) own)
    (fun e he => hs.read he) hover.1

/-! ### More dictionaries -/

section Longer

variable (hs : Grounded s) (hcontexts : s'.contexts = s.contexts) (hp : s.dicts <+: s'.dicts)

include hs hcontexts hp

theorem CalmContexts.longer {d : Fields} (hd : ∀ x ∈ d, x.2.Below s.dicts.length) {idxs : List ℕ}
    (hcalm : CalmContexts s d idxs) : CalmContexts s' d idxs := by
  induction idxs generalizing d with
  | nil => trivial
  | cons i is ih =>
    unfold CalmContexts at hcalm ⊢
    rw [hcontexts]
    cases hc : s.contexts[i]? with
    | none => trivial
    | some c =>
      rw [hc] at hcalm
      dsimp only at hcalm ⊢
      rw [Dicts.read_longer hp (hs.contexts c (List.mem_of_getElem? hc))]
      have hbelow : ∀ e ∈ s.dicts.read c, e.2.Below s.dicts.length := fun e he => hs.dicts.read he
      exact ⟨hcalm.1.longer hp hs.dicts hd hbelow, ih (Dicts.below_foldl_lay hd hbelow) hcalm.2⟩

end Longer

/-! ### What is read -/

section Answers

variable (hs : Grounded s) (wf : Workflow)

include hs

theorem answer_getTaskContext {idxs : List ℕ} (hrange : InRange s idxs)
    (hcalm : CalmContexts s [] idxs) (n : ℕ) :
    (ContextRead.getTaskContext idxs).answer wf n s = .ok [(none, document s n (laid s [] idxs))] := by
  have hv := (steady_taskContext hs hcalm).alone
  rw [contextFields_ok hrange] at hv
  exact hv.answer (q := .getTaskContext idxs) hs List.prefix_rfl n

omit hs in
/-- The contexts of the next tasks are found if each of the tasks has contexts. -/
theorem lookup_transitionFields {e : TaskState} {r : ℕ} (edges : List Edge)
    (hctxs : ∀ edge ∈ edges, (e.next.lookup ⟨edge.dst, edge.key⟩).getD false = true →
      ∃ d, initialFields s edge.dst r = .ok d) (held : List (TransitionId × Fields)) :
    ∃ fs, transitionFields s e r held edges = .ok fs ∧
      (∀ tid d, held.lookup tid = some d → initialFields s tid.task r = .ok d →
        fs.lookup tid = some d) ∧
      ∀ edge ∈ edges, (e.next.lookup ⟨edge.dst, edge.key⟩).getD false = true →
        ∀ d, initialFields s edge.dst r = .ok d → fs.lookup ⟨edge.dst, edge.key⟩ = some d := by
  induction edges generalizing held with
  | nil => exact ⟨held, rfl, fun _ _ h _ => h, fun _ h => (List.not_mem_nil h).elim⟩
  | cons edge edges ih =>
    have hrest := ih fun edge' h => hctxs edge' (List.mem_cons_of_mem _ h)
    rw [transitionFields]
    by_cases hsat : (e.next.lookup ⟨edge.dst, edge.key⟩).getD false = true
    · obtain ⟨d₀, hd₀⟩ := hctxs edge List.mem_cons_self hsat
      rw [if_pos hsat, hd₀]
      obtain ⟨fs, hfs, hheld, hedges⟩ := hrest (Dict.put held ⟨edge.dst, edge.key⟩ d₀)
      refine ⟨fs, hfs, fun tid d htid hd => hheld tid d ?_ hd, fun edge' h hmark d hd => ?_⟩
      · rw [Dict.lookup_put]
        split
        · rename_i heq
          subst heq
          exact congrArg some (Except.ok.inj (hd₀.symm.trans hd))
        · exact htid
      · rcases List.mem_cons.mp h with rfl | h
        · refine hheld _ d ?_ hd
          rw [Dict.lookup_put_self]
          exact congrArg some (Except.ok.inj (hd₀.symm.trans hd))
        · exact hedges edge' h hmark d hd
    · rw [if_neg hsat]
      obtain ⟨fs, hfs, hheld, hedges⟩ := hrest held
      refine ⟨fs, hfs, hheld, fun edge' h hmark d hd => ?_⟩
      rcases List.mem_cons.mp h with rfl | h
      · exact absurd hmark hsat
      · exact hedges edge' h hmark d hd

/-- The read of the contexts of the next tasks. -/
theorem answer_getTaskTransitionContexts {t : String} {r : ℕ} {e : TaskState}
    (he : s.getTaskStateEntry t r = some e)
    (hctxs : ∀ edge ∈ wf.graph.getNextTransitions t,
      (e.next.lookup ⟨edge.dst, edge.key⟩).getD false = true →
        ∃ idxs, contextsOfTask s edge.dst r = some idxs ∧ InRange s idxs ∧ CalmContexts s [] idxs) :
    ∃ fs : List (TransitionId × Fields),
      (∀ n, (ContextRead.getTaskTransitionContexts t r).answer wf n s =
        .ok (fs.map fun f => (some f.1, document s n f.2))) ∧
      ∀ edge ∈ wf.graph.getNextTransitions t,
        (e.next.lookup ⟨edge.dst, edge.key⟩).getD false = true →
          ∀ idxs, contextsOfTask s edge.dst r = some idxs →
            fs.lookup ⟨edge.dst, edge.key⟩ = some (laid s [] idxs) := by
  have hinit : ∀ edge ∈ wf.graph.getNextTransitions t,
      (e.next.lookup ⟨edge.dst, edge.key⟩).getD false = true →
        ∀ idxs, contextsOfTask s edge.dst r = some idxs →
          initialFields s edge.dst r = .ok (laid s [] idxs) := by
    intro edge hedge hmark idxs hidxs
    obtain ⟨idxs', hidxs', hrange, -⟩ := hctxs edge hedge hmark
    rw [hidxs', Option.some_inj] at hidxs
    subst hidxs
    rw [initialFields, hidxs']
    exact contextFields_ok hrange
  obtain ⟨fs, hfs, -, hlookup⟩ := lookup_transitionFields (wf.graph.getNextTransitions t)
    (fun edge hedge hmark => by
      obtain ⟨idxs, hidxs, -⟩ := hctxs edge hedge hmark
      exact ⟨_, hinit edge hedge hmark idxs hidxs⟩) []
  refine ⟨fs, fun n => ?_, fun edge hedge hmark idxs hidxs =>
    hlookup edge hedge hmark _ (hinit edge hedge hmark idxs hidxs)⟩
  have hv := steady_getTaskTransitionContexts hs wf (t := t) (r := r) fun e' he' edge hedge hmark
      idxs hidxs => by
    obtain rfl := Option.some.inj (he.symm.trans he')
    obtain ⟨idxs', hidxs', -, hcalm⟩ := hctxs edge hedge hmark
    rw [hidxs', Option.some_inj] at hidxs
    exact hidxs ▸ hcalm
  rw [he] at hv
  dsimp only at hv
  rw [hfs] at hv
  refine (hv.transitions.answer hs List.prefix_rfl n).trans ?_
  simp only [Except.map, List.map_map]
  rfl

end Answers

end Contexts

end Orquesta
end IntegratedCLI
