import Mathlib.Logic.Relation
import IntegratedCLI.Orquesta.Rerun
import IntegratedCLI.Orquesta.Updating

/-!
# The heap of a conductor

The contexts are references to dictionaries, and the values in a dictionary may be
references, too.  `HeapWrite` lists what is ever written to the contexts and to the heap:
two dictionaries are merged, dictionaries are made for a document, and one of the
dictionaries becomes a context.  Each call is a sequence of such writes (`HeapWrites`).

So in every state that a client can bring a conductor to, no reference dangles
(`Grounded`): no call takes a dictionary off the heap, and a merge puts only values into a
dictionary that are in another one.  Nor is a dictionary ever kept as a document
(`Dicts.Plain`), but as a reference.
-/

namespace IntegratedCLI
namespace Orquesta

open Effect Status

/-- A value that is not a reference, or one to a dictionary before the position. -/
def Value.Below (n : ℕ) : Value → Prop
  | .json _ => True
  | .dict r => r < n

theorem Value.Below.mono {n m : ℕ} (h : n ≤ m) : ∀ {v : Value}, v.Below n → v.Below m
  | .json _, _ => trivial
  | .dict _, hv => Nat.lt_of_lt_of_le hv h

/-- The value is not a dictionary that is kept as a document. -/
def Value.IsPlain : Value → Prop
  | .json (.dict _) => False
  | _ => True

namespace Dicts

/-- Every reference is to a dictionary of the heap. -/
def Closed (h : Dicts) : Prop := ∀ d ∈ h, ∀ e ∈ d, e.2.Below h.length

/-- No dictionary is kept as a document. -/
def Plain (h : Dicts) : Prop := ∀ d ∈ h, ∀ e ∈ d, e.2.IsPlain

/-- One of the dictionaries has the value. -/
def Has (h : Dicts) (v : Value) : Prop := ∃ d ∈ h, ∃ e ∈ d, e.2 = v

@[simp] theorem length_setItem (h : Dicts) (l : Ref) (k : String) (v : Value) :
    (h.setItem l k v).length = h.length := by
  simp [setItem]

theorem Closed.append {h : Dicts} (hh : Closed h) {d : List (String × Value)}
    (hd : ∀ e ∈ d, e.2.Below h.length) : Closed (h ++ [d]) := by
  intro d' hd' e he
  rw [List.length_append]
  refine Value.Below.mono (Nat.le_add_right _ _) ?_
  rcases List.mem_append.mp hd' with hd' | hd'
  · exact hh d' hd' e he
  · rw [List.mem_singleton.mp hd'] at he
    exact hd e he

theorem has_read {h : Dicts} {r : Ref} {e : String × Value} (he : e ∈ h.read r) : h.Has e.2 := by
  unfold Dicts.read at he
  cases hd : h[r]? with
  | none =>
    rw [hd] at he
    cases he
  | some d =>
    rw [hd] at he
    exact ⟨d, List.mem_of_getElem? hd, e, he, rfl⟩

theorem Closed.read {h : Dicts} (hh : Closed h) {r : Ref} {e : String × Value}
    (he : e ∈ h.read r) : e.2.Below h.length := by
  obtain ⟨d, hd, e', he', heq⟩ := has_read he
  exact heq ▸ hh d hd e' he'

theorem Has.of_setItem {h : Dicts} {l : Ref} {k : String} {v w : Value}
    (hw : (h.setItem l k v).Has w) : w = v ∨ h.Has w := by
  obtain ⟨d, hd, e, he, rfl⟩ := hw
  rcases Positions.mem_modify hd with hd | ⟨d', hd', rfl⟩
  · exact Or.inr ⟨d, hd, e, he, rfl⟩
  · rcases Dict.mem_put he with rfl | he
    · exact Or.inl rfl
    · exact Or.inr ⟨d', List.mem_of_getElem? hd', e, he, rfl⟩

/-- A merge puts a value into a dictionary that one of the dictionaries has. -/
theorem Has.of_mergeDicts (n : ℕ) {l r : Ref} {h : Dicts} {w : Value} :
    (mergeDicts n l r h).Has w → h.Has w := by
  induction n generalizing l r h w with
  | zero => exact id
  | succ n ih =>
    have hloop : ∀ (es : List (String × Value)) (h' : Dicts), (∀ e ∈ es, h.Has e.2) →
        (∀ w, h'.Has w → h.Has w) →
        ∀ w, (es.foldl (mergeItem (mergeDicts n) l) h').Has w → h.Has w := by
      intro es
      induction es with
      | nil => exact fun _ _ hh' => hh'
      | cons e es ihes =>
        intro h' hes hh'
        rw [List.foldl_cons]
        refine ihes _ (fun e' he' => hes e' (List.mem_cons_of_mem _ he')) fun w hw => ?_
        unfold mergeItem at hw
        split at hw
        · rcases hw.of_setItem with rfl | hw
          · exact hes e List.mem_cons_self
          · exact hh' w hw
        · exact hh' w (ih hw)
        · rcases hw.of_setItem with rfl | hw
          · exact hes e List.mem_cons_self
          · exact hh' w hw
    exact hloop (h.read r) h (fun e he => has_read he) (fun _ => id) w

/-- A merge makes no dictionary. -/
@[simp] theorem length_mergeDicts (n : ℕ) (l r : Ref) (h : Dicts) :
    (mergeDicts n l r h).length = h.length := by
  induction n generalizing l r h with
  | zero => rfl
  | succ n ih =>
    have hloop : ∀ (es : List (String × Value)) (h' : Dicts),
        (es.foldl (mergeItem (mergeDicts n) l) h').length = h'.length := by
      intro es
      induction es with
      | nil => exact fun _ => rfl
      | cons e es ihes =>
        intro h'
        rw [List.foldl_cons, ihes]
        unfold mergeItem
        split
        · simp
        · exact ih _ _ _
        · simp
    exact hloop (h.read r) h

@[simp] theorem length_merge (l r : Ref) (h : Dicts) : (merge l r h).length = h.length :=
  length_mergeDicts _ l r h

/-- A merge makes no reference that dangles. -/
theorem Closed.mergeDicts {h : Dicts} (hh : Closed h) (n : ℕ) (l r : Ref) :
    Closed (mergeDicts n l r h) := by
  intro d hd e he
  obtain ⟨d', hd', e', he', heq⟩ := Has.of_mergeDicts n ⟨d, hd, e, he, rfl⟩
  rw [length_mergeDicts, ← heq]
  exact hh d' hd' e' he'

theorem Closed.merge {h : Dicts} (hh : Closed h) (l r : Ref) : Closed (merge l r h) :=
  hh.mergeDicts _ l r

mutual

/-- A document is put on the heap with new dictionaries. -/
theorem length_le_load : ∀ (j : Json) (h : Dicts), h.length ≤ (load j h).2.length
  | .dict fields, h => by
    rw [load]
    exact (length_le_loadFields fields h).trans (by simp [alloc])
  | .null, _ => le_rfl
  | .bool _, _ => le_rfl
  | .num _, _ => le_rfl
  | .float _, _ => le_rfl
  | .str _, _ => le_rfl
  | .list _, _ => le_rfl

theorem length_le_loadFields : ∀ (fields : List (String × Json)) (h : Dicts),
    h.length ≤ (loadFields fields h).2.length
  | [], _ => le_rfl
  | (k, j) :: fields, h => by
    rw [loadFields]
    exact (length_le_load j h).trans (length_le_loadFields fields _)

end

mutual

/-- The values that stand for a document refer to dictionaries that were made. -/
theorem Closed.load : ∀ (j : Json) {h : Dicts}, Closed h →
    Closed (load j h).2 ∧ (load j h).1.Below (load j h).2.length
  | .dict fields, h, hh => by
    obtain ⟨hclosed, hbelow⟩ := Closed.loadFields fields hh
    rw [Dicts.load]
    refine ⟨hclosed.append hbelow, ?_⟩
    show (Dicts.loadFields fields h).2.length < ((Dicts.loadFields fields h).2 ++ [_]).length
    simp
  | .null, _, hh => ⟨hh, trivial⟩
  | .bool _, _, hh => ⟨hh, trivial⟩
  | .num _, _, hh => ⟨hh, trivial⟩
  | .float _, _, hh => ⟨hh, trivial⟩
  | .str _, _, hh => ⟨hh, trivial⟩
  | .list _, _, hh => ⟨hh, trivial⟩

theorem Closed.loadFields : ∀ (fields : List (String × Json)) {h : Dicts}, Closed h →
    Closed (loadFields fields h).2 ∧
      ∀ e ∈ (loadFields fields h).1, e.2.Below (loadFields fields h).2.length
  | [], h, hh => ⟨hh, fun e he => (List.not_mem_nil he).elim⟩
  | (k, j) :: fields, h, hh => by
    obtain ⟨hclosed, hbelow⟩ := Closed.load j hh
    obtain ⟨hclosed', hbelow'⟩ := Closed.loadFields fields hclosed
    rw [Dicts.loadFields]
    refine ⟨hclosed', fun e he => ?_⟩
    rcases List.mem_cons.mp he with rfl | he
    · exact hbelow.mono (length_le_loadFields fields _)
    · exact hbelow' e he

end

/-! ### Documents -/

theorem Plain.append {h : Dicts} (hh : Plain h) {d : List (String × Value)}
    (hd : ∀ e ∈ d, e.2.IsPlain) : Plain (h ++ [d]) := by
  intro d' hd' e he
  rcases List.mem_append.mp hd' with hd' | hd'
  · exact hh d' hd' e he
  · rw [List.mem_singleton.mp hd'] at he
    exact hd e he

theorem Plain.read {h : Dicts} (hh : Plain h) {r : Ref} {e : String × Value} (he : e ∈ h.read r) :
    e.2.IsPlain := by
  obtain ⟨d, hd, e', he', heq⟩ := has_read he
  exact heq ▸ hh d hd e' he'

theorem Plain.merge {h : Dicts} (hh : Plain h) (l r : Ref) : Plain (merge l r h) := by
  intro d hd e he
  obtain ⟨d', hd', e', he', heq⟩ := Has.of_mergeDicts _ ⟨d, hd, e, he, rfl⟩
  exact heq ▸ hh d' hd' e' he'

mutual

theorem Plain.load : ∀ (j : Json) {h : Dicts}, Plain h →
    Plain (load j h).2 ∧ (load j h).1.IsPlain
  | .dict fields, h, hh => by
    obtain ⟨hplain, hfields⟩ := Plain.loadFields fields hh
    rw [Dicts.load]
    exact ⟨hplain.append hfields, trivial⟩
  | .null, _, hh => ⟨hh, trivial⟩
  | .bool _, _, hh => ⟨hh, trivial⟩
  | .num _, _, hh => ⟨hh, trivial⟩
  | .float _, _, hh => ⟨hh, trivial⟩
  | .str _, _, hh => ⟨hh, trivial⟩
  | .list _, _, hh => ⟨hh, trivial⟩

theorem Plain.loadFields : ∀ (fields : List (String × Json)) {h : Dicts}, Plain h →
    Plain (loadFields fields h).2 ∧ ∀ e ∈ (loadFields fields h).1, e.2.IsPlain
  | [], h, hh => ⟨hh, fun e he => (List.not_mem_nil he).elim⟩
  | (k, j) :: fields, h, hh => by
    obtain ⟨hplain, hj⟩ := Plain.load j hh
    obtain ⟨hplain', hfields⟩ := Plain.loadFields fields hplain
    rw [Dicts.loadFields]
    refine ⟨hplain', fun e he => ?_⟩
    rcases List.mem_cons.mp he with rfl | he
    · exact hj
    · exact hfields e he

end

end Dicts

/-! ## The conductor -/

/-- No reference of the conductor to a dictionary dangles. -/
structure Grounded (s : Conductor) : Prop where
  contexts : ∀ c ∈ s.contexts, c < s.dicts.length
  dicts : s.dicts.Closed

/-- The heap may grow, and references that do not dangle still do not. -/
structure Grows (s s' : Conductor) : Prop where
  length : s.dicts.length ≤ s'.dicts.length
  grounded : Grounded s → Grounded s'

instance : IsPreorder Conductor Grows where
  refl _ := ⟨le_rfl, id⟩
  trans _ _ _ h h' := ⟨h.length.trans h'.length, h'.grounded ∘ h.grounded⟩

/-- One write to the contexts and the heap. -/
inductive HeapWrite (s : Conductor) : Conductor → Prop
  | rest {s' : Conductor} (hcontexts : s'.contexts = s.contexts) (hdicts : s'.dicts = s.dicts) :
      HeapWrite s s'
  | merge (l r : Ref) : HeapWrite s { s with dicts := s.dicts.merge l r }
  /-- A dictionary is made for the fields. -/
  | make (fields : List (String × Json)) :
      HeapWrite s { s with
        dicts := (Dicts.loadFields fields s.dicts).2 ++ [(Dicts.loadFields fields s.dicts).1] }
  | context {r : Ref} (hr : r < s.dicts.length) :
      HeapWrite s { s with contexts := s.contexts ++ [r] }

/-- Any number of writes. -/
abbrev HeapWrites : Conductor → Conductor → Prop := Relation.ReflTransGen HeapWrite

instance : IsPreorder Conductor HeapWrites where
  refl _ := .refl
  trans _ _ _ h h' := h.trans h'

/-- A preorder that every write is in has any number of them in it. -/
theorem HeapWrites.within {R : Conductor → Conductor → Prop} [IsPreorder Conductor R]
    (hR : ∀ s s', HeapWrite s s' → R s s') {s s' : Conductor} (h : HeapWrites s s') : R s s' := by
  induction h with
  | refl => exact refl_of R s
  | tail _ hw ih => exact trans_of R ih (hR _ _ hw)

/-- A new dictionary. -/
theorem grows_append {s : Conductor} {h : Dicts} {d : List (String × Value)}
    (hlen : s.dicts.length ≤ h.length)
    (hclosed : s.dicts.Closed → h.Closed ∧ ∀ e ∈ d, e.2.Below h.length) :
    Grows s { s with dicts := h ++ [d] } := by
  have hle : s.dicts.length ≤ (h ++ [d]).length := by
    rw [List.length_append]
    exact hlen.trans (Nat.le_add_right _ _)
  refine ⟨hle, fun hs => ⟨fun c hc => (hs.contexts c hc).trans_le hle, ?_⟩⟩
  exact (hclosed hs.dicts).1.append (hclosed hs.dicts).2

theorem HeapWrite.grows {s s' : Conductor} (h : HeapWrite s s') : Grows s s' := by
  cases h with
  | rest hcontexts hdicts =>
    refine ⟨hdicts ▸ le_rfl, fun h => ⟨?_, hdicts ▸ h.dicts⟩⟩
    rw [hcontexts, hdicts]
    exact h.contexts
  | merge l r =>
    refine ⟨(Dicts.length_merge l r s.dicts).ge, fun h => ⟨?_, h.dicts.merge l r⟩⟩
    rw [Dicts.length_merge]
    exact h.contexts
  | make fields =>
    exact grows_append (Dicts.length_le_loadFields fields _) fun h =>
      Dicts.Closed.loadFields fields h
  | context hr =>
    refine ⟨le_rfl, fun h => ⟨fun c hc => ?_, h.dicts⟩⟩
    rcases List.mem_append.mp hc with hc | hc
    · exact h.contexts c hc
    · rw [List.mem_singleton.mp hc]
      exact hr

theorem HeapWrites.grows {s s' : Conductor} (h : HeapWrites s s') : Grows s s' :=
  h.within fun _ _ => HeapWrite.grows

/-- A document is never kept in the place of a dictionary. -/
theorem HeapWrites.plain {s s' : Conductor} (h : HeapWrites s s') :
    s.dicts.Plain → s'.dicts.Plain := by
  refine HeapWrites.within (R := Preserves fun s => s.dicts.Plain) (fun s s' hw hs => ?_) h
  cases hw with
  | rest _ hdicts =>
    show s'.dicts.Plain
    rw [hdicts]
    exact hs
  | merge l r => exact hs.merge l r
  | make fields => exact (Dicts.Plain.loadFields fields hs).1.append (Dicts.Plain.loadFields fields hs).2
  | context _ => exact hs

theorem heap_same {s s' : Conductor} (hcontexts : s'.contexts = s.contexts)
    (hdicts : s'.dicts = s.dicts) : HeapWrites s s' := .single (.rest hcontexts hdicts)

theorem HeapWrites.same {s s₁ s' : Conductor} (h : HeapWrites s s₁)
    (hcontexts : s'.contexts = s₁.contexts) (hdicts : s'.dicts = s₁.dicts) : HeapWrites s s' :=
  h.tail (.rest hcontexts hdicts)

theorem HeapWrites.since {s s₁ s' : Conductor} (h : HeapWrites s₁ s')
    (hcontexts : s₁.contexts = s.contexts) (hdicts : s₁.dicts = s.dicts) : HeapWrites s s' :=
  .head (.rest hcontexts hdicts) h

theorem OnlyStatus.heap {s s' : Conductor} (h : OnlyStatus s s') : HeapWrites s s' := by
  unfold OnlyStatus at h
  rw [h]
  exact heap_same rfl rfl

theorem Restaged.heap {t : String} {r : ℕ} {s s' : Conductor} (h : Restaged t r s s') :
    HeapWrites s s' := by
  rw [h.rest]
  exact heap_same rfl rfl

theorem moves_same {g : Conductor → Conductor} (hcontexts : ∀ s, (g s).contexts = s.contexts)
    (hdicts : ∀ s, (g s).dicts = s.dicts) : Moves HeapWrites (modify g : M Unit) :=
  moves_modify fun s => heap_same (hcontexts s) (hdicts s)

/-! ### Contexts -/

theorem heap_merge (l r : Ref) (s : Conductor) :
    HeapWrites s { s with dicts := s.dicts.merge l r } := .single (.merge l r)

theorem mergeContext_heap (r : Ref) (i : ℕ) : Moves HeapWrites (mergeContext r i) := by
  unfold mergeContext
  refine moves_bind moves_get fun s => ?_
  split
  · exact moves_throw _
  · exact moves_modify fun s => heap_merge r _ s

/-- An empty dictionary is made. -/
theorem heap_alloc (s : Conductor) : HeapWrites s { s with dicts := s.dicts ++ [[]] } :=
  .single (.make [])

theorem getTaskContext_heap (idxs : List ℕ) : Moves HeapWrites (getTaskContext idxs) := by
  unfold getTaskContext
  refine moves_bind moves_get fun s => ?_
  refine moves_bind (moves_modify heap_alloc) fun _ => ?_
  refine moves_bind (moves_forM fun i _ => mergeContext_heap _ i) fun _ => ?_
  exact moves_bind moves_get fun _ => moves_pure _

theorem getTaskInitialContext_heap (t : String) (r : ℕ) :
    Moves HeapWrites (getTaskInitialContext t r) := by
  unfold getTaskInitialContext
  refine moves_bind moves_get fun s => ?_
  split
  · exact getTaskContext_heap _
  · split
    · exact getTaskContext_heap _
    · exact moves_throw _

/-- The fields are put into a dictionary that is made for them. -/
theorem loadDict_heap (vars : List (String × Json)) (s : Conductor) :
    Outcome (loadDict vars)
      (fun r s' => HeapWrites s s' ∧ r < s'.dicts.length ∧ s'.contexts = s.contexts)
      (fun _ _ => False) s := by
  unfold loadDict
  rw [outcome_bind, outcome_get]
  dsimp only
  rw [outcome_bind, outcome_modify, outcome_pure]
  exact ⟨.single (.make vars), by simp, rfl⟩

theorem appendContext_heap (vars : List (String × Json)) : Moves HeapWrites (appendContext vars) := by
  refine moves_iff.mpr fun s => ?_
  unfold appendContext
  rw [outcome_bind]
  refine (loadDict_heap vars s).mono ?_ fun _ _ h => h.elim
  rintro r s' ⟨hload, hr, _⟩
  rw [outcome_bind, outcome_get, outcome_bind, outcome_modify, outcome_pure]
  exact hload.tail (.context hr)

/-! ### The status of the workflow -/

theorem logError_heap (e : PyError) (t : Option String) (r : Option ℕ)
    (tid : Option TransitionId) : Moves HeapWrites (modify (Conductor.logError e t r tid) : M Unit) :=
  moves_modify fun s => (logEntry_onlyStatus _ s).heap

theorem updateEntry_heap (i : ℕ) (f : TaskState → TaskState) :
    Moves HeapWrites (modify (Conductor.updateEntry i f) : M Unit) :=
  moves_same (fun _ => rfl) fun _ => rfl

theorem updateStaged_heap (i : ℕ) (f : StagedTask → StagedTask) :
    Moves HeapWrites (modify (Conductor.updateStaged i f) : M Unit) :=
  moves_same (fun _ => rfl) fun _ => rfl

theorem processEvent_heap (i : ℕ) (event : Event) :
    Moves HeapWrites (TaskStateMachine.processEvent i event) := by
  intro s
  rcases processEvent_statusAt i event s with h | ⟨st, h⟩
  · exact heap_same (by rw [h]) (by rw [h])
  · exact heap_same (by rw [h]; rfl) (by rw [h]; rfl)

theorem processTaskEvent_heap (wf : Workflow) (t : String) (r : ℕ) (st : Status) :
    Moves HeapWrites (WorkflowStateMachine.processTaskEvent wf t r st) := by
  refine moves_iff.mpr fun s => (processTaskEvent_outcome wf t r st s).mono ?_ ?_
  · rintro _ s' ⟨_, ⟨_, rfl⟩ | ⟨new, _, ⟨rfl, _⟩ | ⟨h, _⟩⟩⟩
    · exact refl_of HeapWrites s'
    · exact heap_same rfl rfl
    · exact h.heap
  · rintro _ s' ⟨rfl, _⟩
    exact refl_of HeapWrites s'

theorem processWorkflowEvent_heap (st : Option Status) :
    Moves HeapWrites (WorkflowStateMachine.processWorkflowEvent st) := by
  refine moves_iff.mpr fun s => (processWorkflowEvent_outcome st s).mono ?_ ?_
  · rintro _ s' ⟨_, ⟨_, rfl⟩ | ⟨new, _, rfl⟩⟩
    · exact refl_of HeapWrites s'
    · exact heap_same rfl rfl
  · rintro _ s' ⟨rfl, _⟩
    exact refl_of HeapWrites s'

theorem requestWorkflowStatus_heap (st : Option Status) :
    Moves HeapWrites (requestWorkflowStatus st) := by
  unfold requestWorkflowStatus
  refine moves_bind moves_get fun s => ?_
  refine moves_bind (moves_forM fun p _ => processEvent_heap p.2 _) fun _ => ?_
  refine moves_bind (processWorkflowEvent_heap st) fun _ => ?_
  refine moves_bind moves_get fun s' => ?_
  dsimp only
  split
  · exact moves_pure _
  · split
    · exact moves_pure _
    · split
      · exact moves_throw _
      · exact moves_pure _

/-! ### The entry of an event -/

theorem orRoot_heap (l : Ref) (s : Conductor) : HeapWrites s (s.orRoot l).2 := by
  unfold Conductor.orRoot
  split
  · exact heap_same rfl rfl
  · exact refl_of HeapWrites s

theorem orEmpty_heap (p : Ref) (s : Conductor) : HeapWrites s (s.orEmpty p).2 := by
  unfold Conductor.orEmpty
  split
  · exact heap_same rfl rfl
  · exact refl_of HeapWrites s

theorem addStagedTask_heap (t : String) (r : ℕ) (ctxs prev : Ref) (ready : Bool)
    (retry : Option Ref) (s : Conductor) : HeapWrites s (s.addStagedTask t r ctxs prev ready retry) :=
  (orRoot_heap ctxs s).same rfl rfl

theorem setupRetry_heap (wf : Workflow) (spec : RetrySpec) (ctxs : Ref) :
    Moves HeapWrites (setupRetry wf spec ctxs) := by
  unfold setupRetry
  refine moves_bind moves_get fun s => ?_
  refine moves_bind (getTaskContext_heap _) fun vars => ?_
  dsimp only
  split
  · refine moves_bind (moves_pure _) fun _ => ?_
    exact moves_bind (moves_lift _) fun _ => moves_pure _
  · refine moves_bind (moves_map (moves_lift _)) fun _ => ?_
    exact moves_bind (moves_lift _) fun _ => moves_pure _

theorem addTaskState_heap (wf : Workflow) (t : String) (r : ℕ) (ctxs prev : Ref) :
    Moves HeapWrites (addTaskState wf t r ctxs prev) := by
  refine moves_iff.mpr fun s => ?_
  unfold addTaskState
  split
  · exact refl_of HeapWrites s
  · have hobjects := trans_of HeapWrites (orRoot_heap ctxs s) (orEmpty_heap prev _)
    simp only [outcome_bind, outcome_get, outcome_set]
    split
    · rw [outcome_modify]
      exact hobjects.same rfl rfl
    · rw [outcome_bind]
      refine (setupRetry_heap wf _ _).step (fun x s₁ h₁ => ?_) fun _ s₁ h₁ => ?_
      · simp only [outcome_bind, outcome_get, outcome_set]
        exact (trans_of HeapWrites hobjects h₁).same rfl rfl
      · exact trans_of HeapWrites hobjects h₁

theorem startEntry_heap (wf : Workflow) (t : String) (staged : Option StagedTask) :
    Moves HeapWrites (startEntry wf t staged) := by
  unfold startEntry
  split
  · exact moves_throw _
  · exact addTaskState_heap wf t _ _ _

theorem openEntry_heap (wf : Workflow) (t : String) (r : ℕ) (event : Event) :
    Moves HeapWrites (openEntry wf t r event) := by
  unfold openEntry ensureEntry renewEntry
  refine moves_bind moves_get fun s => ?_
  refine moves_bind (moves_bind moves_get fun s' => ?_) fun _ => ?_
  · split
    · exact startEntry_heap wf t _
    · exact moves_pure _
  · refine moves_bind (moves_bind moves_get fun s' => ?_) fun _ => ?_
    · split
      · exact moves_throw _
      · split
        · exact startEntry_heap wf t _
        · exact moves_pure _
    · refine moves_bind moves_get fun s' => ?_
      split
      · exact moves_throw _
      · exact moves_pure _

/-! ### The parts of an update -/

theorem recordEvent_heap (t : String) (r : ℕ) (event : Event) :
    Moves HeapWrites (recordEvent t r event) :=
  (recordEvent_moves t r event).mono fun _ _ => Restaged.heap

theorem restage_heap (t : String) (r idx : ℕ) : Moves HeapWrites (restage t r idx) := by
  refine moves_iff.mpr fun s => (restage_outcome t r idx s).mono ?_ ?_
  · rintro _ s' ⟨e, x, s₁, _, _, h₁, rfl⟩
    exact (trans_of HeapWrites h₁.heap (addStagedTask_heap _ _ _ _ _ _ s₁)).since rfl rfl
  · rintro _ s' rfl
    exact refl_of HeapWrites s'

theorem makeTaskContext_heap (idx : ℕ) (result : Json) :
    Moves HeapWrites (makeTaskContext idx result) := by
  unfold makeTaskContext
  refine moves_bind moves_get fun s => ?_
  split
  · exact moves_throw _
  · refine moves_bind (getTaskContext_heap _) fun vars => ?_
    exact moves_bind moves_get fun _ => moves_pure _

theorem completeTask_heap (spec : TaskSpec) (t : String) (r idx : ℕ) (st : Status)
    (event : Event) : Moves HeapWrites (completeTask spec t r idx st event) :=
  moves_bind ((closeStaged_moves spec t r st).mono fun _ _ => Restaged.heap) fun _ =>
    makeTaskContext_heap idx _

theorem needsRetry_heap (wf : Workflow) (idx : ℕ) (ctx : EvalContext) :
    Moves HeapWrites (needsRetry wf idx ctx) :=
  (needsRetry_moves wf idx ctx).mono fun s s' (h : s' = s) => h ▸ refl_of HeapWrites s'

theorem notifyWorkflow_heap (wf : Workflow) (t : String) (r idx : ℕ) :
    Moves HeapWrites (notifyWorkflow wf t r idx) := by
  unfold notifyWorkflow
  refine moves_bind moves_get fun s => ?_
  split
  · exact moves_throw _
  · exact processTaskEvent_heap wf t r _

theorem markTerminal_heap (idx : ℕ) : Moves HeapWrites (markTerminal idx) := by
  unfold markTerminal
  refine moves_bind moves_get fun s => ?_
  split
  · exact updateEntry_heap _ _
  · exact moves_pure _

theorem statusAt_heap (idx : ℕ) : Moves HeapWrites (statusAt idx) :=
  moves_bind moves_get fun _ => moves_pure _

/-! ### The transitions of a completed task -/

theorem stageTaken_heap (wf : Workflow) (t : String) (r idx : ℕ) (out : Outgoing) (edge : Edge)
    (ctxs : List ℕ) : Moves HeapWrites (stageTaken wf t r idx out edge ctxs) := by
  have hroute : Moves HeapWrites (evaluateRoute wf edge r) := by
    refine moves_iff.mpr fun s => (evaluateRoute_outcome wf edge r s).mono ?_ ?_
    · rintro route s' (⟨_, rfl, _⟩ | ⟨ids, _, rfl⟩)
      · exact refl_of HeapWrites s'
      · exact heap_same rfl rfl
    · rintro _ s' rfl
      exact refl_of HeapWrites s'
  have hnext : ∀ route, Moves HeapWrites (stageNext t edge idx route ctxs) := by
    refine fun route => moves_iff.mpr fun s => (stageNext_outcome t edge idx route ctxs s).mono ?_ ?_
    · rintro i s' (⟨i, x, _, _, _, rfl⟩ | ⟨_, rfl⟩)
      · exact heap_same rfl rfl
      · exact (addStagedTask_heap _ _ _ _ _ _ _).since rfl rfl
    · rintro _ s' rfl
      exact refl_of HeapWrites s'
  unfold stageTaken
  refine moves_bind hroute fun route => moves_bind (hnext route) fun i => ?_
  refine moves_bind moves_get fun s => ?_
  dsimp only
  refine moves_bind (updateStaged_heap i _) fun _ => ?_
  split
  · exact moves_pure _
  · split
    · exact moves_pure _
    · exact moves_pure _

theorem stageTransition_heap (wf : Workflow) (spec : TaskSpec) (t : String) (r idx : ℕ)
    (ctx : EvalContext) (out : Outgoing) (edge : Edge) :
    Moves HeapWrites (stageTransition wf spec t r idx ctx out edge) := by
  have hfailed : Moves HeapWrites (do requestWorkflowStatus (some failed); return out : M Outgoing) :=
    moves_bind (requestWorkflowStatus_heap _) fun _ => moves_pure _
  unfold stageTransition
  dsimp only
  split
  · exact moves_bind (logError_heap _ _ _ _) fun _ => hfailed
  · refine moves_bind (updateEntry_heap _ _) fun _ => ?_
    split
    · rw [takeTransition_eq]
      refine moves_bind (moves_lift _) fun found => ?_
      obtain ⟨vars, errors⟩ := found
      dsimp only
      split
      · refine moves_bind (moves_modify fun s => ?_) fun _ => hfailed
        exact (logErrors_onlyStatus _ _ _ _ s).1.heap
      · refine moves_bind moves_get fun s => ?_
        split
        · exact stageTaken_heap wf t r idx out edge _
        · refine moves_bind (appendContext_heap vars) fun new => ?_
          exact moves_bind (updateEntry_heap _ _) fun _ => stageTaken_heap wf t r idx out edge _
    · exact moves_pure _

theorem stageTransitions_heap (wf : Workflow) (spec : TaskSpec) (t : String) (r idx : ℕ)
    (ctx : EvalContext) : Moves HeapWrites (stageTransitions wf spec t r idx ctx) := by
  have hloop : Moves HeapWrites (do
      let out ← (wf.graph.getNextTransitions t).foldlM (stageTransition wf spec t r idx ctx)
        ⟨[], false, []⟩
      if out.manualFail then
        forM out.readyNext fun i =>
          modify (Conductor.updateStaged i fun x => { x with runOnFail := true })
      else pure ()
      return out.commands) := by
    refine moves_bind (moves_foldlM (fun edge _ out => ?_) _) fun out => ?_
    · exact stageTransition_heap wf spec t r idx ctx out edge
    · dsimp only
      split
      · exact moves_bind (moves_forM fun i _ => updateStaged_heap i _) fun _ => moves_pure _
      · exact moves_pure _
  unfold stageTransitions
  dsimp only
  split
  · exact moves_bind (updateEntry_heap idx _) fun _ => hloop
  · exact hloop

/-! ### Calls -/

theorem beginUpdate_heap (wf : Workflow) (t : String) (r : ℕ) (event : Event) :
    Moves HeapWrites (beginUpdate wf t r event) := by
  unfold beginUpdate
  split
  · exact moves_throw _
  · refine moves_bind moves_get fun s => moves_bind (moves_lift _) fun spec => ?_
    split
    · exact moves_throw _
    · refine moves_bind (openEntry_heap wf t r event) fun idx => ?_
      refine moves_bind (recordEvent_heap t r event) fun _ => ?_
      refine moves_bind (statusAt_heap idx) fun old => ?_
      refine moves_bind (processEvent_heap idx event) fun _ => ?_
      exact moves_bind (statusAt_heap idx) fun new => moves_pure _

theorem finishUpdate_heap {command : String × ℕ → M Unit} (hcommand : ∀ c, Moves HeapWrites (command c))
    (wf : Workflow) (spec : TaskSpec) (t : String) (r idx : ℕ) (old new : Status)
    (ctx : EvalContext) : Moves HeapWrites (finishUpdate wf spec t r idx old new ctx command) := by
  have htail : ∀ commands : List (String × ℕ), Moves HeapWrites (do
      notifyWorkflow wf t r idx
      forM commands command
      markTerminal idx) := by
    refine fun commands => moves_bind (notifyWorkflow_heap wf t r idx) fun _ => ?_
    exact moves_bind (moves_forM fun c _ => hcommand c) fun _ => markTerminal_heap idx
  unfold finishUpdate
  dsimp only
  split
  · exact moves_bind (stageTransitions_heap wf spec t r idx ctx) fun commands => htail commands
  · exact htail []

theorem updateTaskStateTo_heap (wf : Workflow) (n : ℕ) (t : String) (r : ℕ) (event : Event) :
    Moves HeapWrites (updateTaskStateTo wf n t r event) := by
  induction n generalizing t r event with
  | zero => exact moves_throw _
  | succ n ih =>
    rw [updateTaskStateTo_succ]
    refine moves_bind (beginUpdate_heap wf t r event) fun p => ?_
    have hfinish : ∀ ctx, Moves HeapWrites (finishUpdate wf p.spec t r p.idx p.old p.new ctx fun c =>
        updateTaskStateTo wf n c.1 c.2 (commandEvent c)) := fun ctx =>
      finishUpdate_heap (fun c => ih c.1 c.2 _) wf p.spec t r p.idx p.old p.new ctx
    have hrest : Moves HeapWrites (do
        if p.new ∈ completedStatuses then
          let ctx ← completeTask p.spec t r p.idx p.new event
          if ← needsRetry wf p.idx ctx then updateTaskStateTo wf n t r (.operation .taskRetry)
          else finishUpdate wf p.spec t r p.idx p.old p.new ctx fun c =>
            updateTaskStateTo wf n c.1 c.2 (commandEvent c)
        else finishUpdate wf p.spec t r p.idx p.old p.new ⟨[], none, none, none⟩ fun c =>
          updateTaskStateTo wf n c.1 c.2 (commandEvent c) : M Unit) := by
      split
      · refine moves_bind (completeTask_heap p.spec t r p.idx p.new event) fun ctx => ?_
        refine moves_bind (needsRetry_heap wf p.idx ctx) fun due => ?_
        split
        · exact ih t r _
        · exact hfinish ctx
      · exact hfinish _
    unfold continueUpdate
    dsimp only
    split
    · exact moves_bind (restage_heap t r p.idx) fun _ => hrest
    · exact hrest

theorem getTask_heap (wf : Workflow) (t : String) (r : ℕ) : Moves HeapWrites (getTask wf t r) := by
  unfold getTask
  refine moves_bind (moves_tryCatch (getTaskInitialContext_heap t r) fun e => ?_) fun vars => ?_
  · split
    · exact getTaskContext_heap _
    · exact moves_throw _
  · refine moves_bind moves_get fun s => ?_
    refine moves_bind (moves_lift _) fun spec => ?_
    refine moves_bind (moves_lift _) fun actions => ?_
    refine moves_bind (moves_lift _) fun delay => ?_
    split
    · exact moves_pure _
    · exact moves_bind (moves_lift _) fun _ => moves_pure _

theorem evaluateTaskActions_heap (task : NextTask) : Moves HeapWrites (evaluateTaskActions task) := by
  unfold evaluateTaskActions
  split
  · exact moves_pure _
  · refine moves_bind moves_get fun s => ?_
    split
    · exact moves_throw _
    · refine moves_bind (updateStaged_heap _ _) fun _ => ?_
      exact moves_bind (moves_lift _) fun _ => moves_pure _

theorem collectNext_heap (wf : Workflow) (acc : Bool × List NextTask) (x : StagedTask) :
    Moves HeapWrites (collectNext wf acc x) := by
  have hnext : Moves HeapWrites (nextTask wf x) := by
    unfold nextTask
    refine moves_bind (getTask_heap wf _ _) fun task => ?_
    refine moves_bind (evaluateTaskActions_heap task) fun task => moves_bind moves_get fun s => ?_
    extract_lets last
    split
    · exact moves_pure _
    · exact moves_pure _
  unfold collectNext
  refine moves_tryCatch (moves_bind hnext fun task => ?_) fun e => ?_
  · split
    · exact moves_pure _
    · exact moves_pure _
  · exact moves_bind (logError_heap e _ _ _) fun _ => moves_pure _

theorem getNextTasks_heap (wf : Workflow) : Moves HeapWrites (getNextTasks wf) := by
  unfold getNextTasks
  refine moves_bind moves_get fun s => ?_
  extract_lets staged remediation
  split
  · exact moves_pure _
  · refine moves_bind (moves_foldlM (fun x _ acc => collectNext_heap wf acc x) _) fun out => ?_
    obtain ⟨failOnRendering, tasks⟩ := out
    dsimp only
    split
    · exact moves_bind (requestWorkflowStatus_heap _) fun _ => moves_pure _
    · exact moves_pure _

/-! ### Running a workflow again -/

theorem popTerms_heap (is : List ℕ) (s : Conductor) :
    HeapWrites s (is.foldl (fun s i => s.popTerm i) s) := by
  induction is generalizing s with
  | nil => exact refl_of HeapWrites s
  | cons i is ih => exact (ih (s.popTerm i)).since rfl rfl

theorem startAgain_heap (wf : Workflow) (t : String) (r : ℕ) (ctxs : List ℕ) (prev : Prev) :
    Moves HeapWrites (startAgain wf t r ctxs prev) := by
  refine moves_iff.mpr fun s => ?_
  unfold startAgain
  rw [outcome_bind, outcome_get]
  dsimp only
  rw [outcome_bind, outcome_set, outcome_bind]
  refine (addTaskState_heap wf t r _ _).step (fun _ s₁ h₁ => ?_) fun _ s₁ h₁ => h₁.since rfl rfl
  rw [outcome_modify]
  exact (trans_of HeapWrites h₁ (addStagedTask_heap _ _ _ _ _ _ s₁)).since rfl rfl

theorem requestTaskRerun_heap (wf : Workflow) (t : String) (r : ℕ) (resetItems : Bool) :
    Moves HeapWrites (requestTaskRerun wf t r resetItems) := by
  have hreopen : ∀ s, HeapWrites s (reopenStaged t r s) := by
    intro s
    unfold reopenStaged
    split
    · exact refl_of HeapWrites s
    · exact heap_same rfl rfl
  have hreset : Moves HeapWrites (resetStagedItems t r resetItems) := by
    unfold resetStagedItems
    refine moves_bind moves_get fun s => ?_
    split
    · exact moves_throw _
    · exact updateStaged_heap _ _
  have hpop : Moves HeapWrites (modify fun s : Conductor =>
      (s.getTaskSequence t r).foldl (fun s i => s.popTerm i) s : M Unit) :=
    moves_modify fun s => popTerms_heap _ s
  unfold requestTaskRerun
  refine moves_bind moves_get fun s => ?_
  split
  · exact moves_throw _
  · split
    · exact moves_throw _
    · refine moves_bind (moves_lift _) fun spec => ?_
      refine moves_bind (moves_same (fun _ => rfl) fun _ => rfl) fun _ => ?_
      refine moves_bind (moves_modify hreopen) fun _ => ?_
      refine moves_bind (moves_same (fun _ => rfl) fun _ => rfl) fun _ => ?_
      split
      · exact moves_bind hreset fun _ => hpop
      · exact moves_bind (startAgain_heap wf t r _ _) fun _ => hpop

theorem requestWorkflowRerun_heap (wf : Workflow) (requests : List RerunRequest) :
    Moves HeapWrites (requestWorkflowRerun wf requests) := by
  unfold requestWorkflowRerun
  refine moves_bind moves_get fun s => ?_
  split
  · exact moves_throw _
  · dsimp only
    split
    · exact moves_throw _
    · refine moves_bind (moves_forM fun k _ => requestTaskRerun_heap wf _ _ _) fun _ => ?_
      refine moves_bind (moves_modify fun s => popTerms_heap _ s) fun _ => ?_
      exact moves_same (fun _ => rfl) fun _ => rfl

/-- What a call of a client writes to the heap. -/
theorem clientStep_heap (wf : Workflow) (s : Conductor) (c : ClientCall) :
    HeapWrites s (clientStep wf s c) := by
  cases c with
  | call c =>
    cases c with
    | requestWorkflowStatus st => exact requestWorkflowStatus_heap st s
    | updateTaskState t r event => exact updateTaskStateTo_heap wf recursionLimit t r event s
    | getNextTasks => exact getNextTasks_heap wf s
  | requestWorkflowRerun requests => exact requestWorkflowRerun_heap wf requests s

/-! ### A new workflow -/

theorem stageRoots_heap (wf : Workflow) : Moves HeapWrites (stageRoots wf) := by
  refine moves_forM fun t _ => moves_iff.mpr fun s => ?_
  rw [outcome_bind, outcome_get]
  dsimp only
  rw [outcome_set]
  exact (addStagedTask_heap _ _ _ _ _ _ _).since rfl rfl

theorem mergeFields_heap (r : Ref) (vars : List (String × Json)) :
    Moves HeapWrites (mergeFields r vars) := by
  refine moves_iff.mpr fun s => ?_
  unfold mergeFields
  rw [outcome_bind]
  refine (loadDict_heap vars s).mono (fun r' s' h => ?_) fun _ _ h => h.elim
  exact trans_of HeapWrites h.1 (heap_merge r r' s')

theorem init_heap (wf : Workflow) : HeapWrites .empty (.init wf) := by
  have hend : ∀ (d : Ref) (s : Conductor), d < s.dicts.length → Outcome (do
      let s ← get
      if s.status ∈ abendedStatuses then return
      else
        modify fun s => { s with contexts := s.contexts ++ [d], routes := s.routes ++ [[]] }
        stageRoots wf : M Unit) (fun _ => HeapWrites s) (fun _ => HeapWrites s) s := by
    intro d s hd
    rw [outcome_bind, outcome_get]
    split
    · exact refl_of HeapWrites s
    · rw [outcome_bind, outcome_modify]
      have hcontext : HeapWrites s
          { s with contexts := s.contexts ++ [d], routes := s.routes ++ [[]] } :=
        HeapWrites.same (.single (.context hd)) rfl rfl
      exact (stageRoots_heap wf).step (fun _ _ h => trans_of HeapWrites hcontext h)
        fun _ _ h => trans_of HeapWrites hcontext h
  unfold Conductor.init
  rw [← outcome_after (P := HeapWrites .empty)]
  unfold makeWorkflowState
  rw [outcome_bind]
  refine (loadDict_heap wf.parentCtx .empty).mono ?_ fun _ _ h => h.elim
  rintro d s₁ ⟨h₁, hd, _⟩
  dsimp only
  rw [outcome_bind]
  refine (mergeFields_heap d _).step (fun _ s₂ h₂ => ?_) fun _ _ h => trans_of HeapWrites h₁ h
  rw [outcome_bind, outcome_get, outcome_bind]
  refine (mergeFields_heap d _).step (fun _ s₃ h₃ => ?_) fun _ _ h =>
    trans_of HeapWrites h₁ (trans_of HeapWrites h₂ h)
  have hs₃ : HeapWrites .empty s₃ := trans_of HeapWrites h₁ (trans_of HeapWrites h₂ h₃)
  have hd₃ : d < s₃.dicts.length := hd.trans_le (HeapWrites.grows (h₂.trans h₃)).length
  split
  · rw [outcome_bind, outcome_modify, outcome_bind]
    have hlog : ∀ es, HeapWrites s₃ (s₃.logErrors es none none none) := fun es =>
      (logErrors_onlyStatus es none none none s₃).1.heap
    refine (requestWorkflowStatus_heap _).step (fun _ s₄ h₄ => ?_) fun _ s₄ h₄ => ?_
    · have hs₄ := trans_of HeapWrites (hlog _) h₄
      refine (hend d s₄ (hd₃.trans_le (HeapWrites.grows hs₄).length)).mono (fun _ _ h => ?_) fun _ _ h => ?_
      · exact trans_of HeapWrites hs₃ (trans_of HeapWrites hs₄ h)
      · exact trans_of HeapWrites hs₃ (trans_of HeapWrites hs₄ h)
    · exact trans_of HeapWrites hs₃ (trans_of HeapWrites (hlog _) h₄)
  · exact (hend d s₃ hd₃).mono (fun _ _ h => trans_of HeapWrites hs₃ h) fun _ _ h =>
      trans_of HeapWrites hs₃ h

/-- The state of a new workflow is made without references that dangle. -/
theorem init_grounded (wf : Workflow) : Grounded (.init wf) :=
  (HeapWrites.grows (init_heap wf)).grounded
    ⟨fun _ hc => (List.not_mem_nil hc).elim, fun _ hd => (List.not_mem_nil hd).elim⟩

/-! ### A restored workflow -/

/-- The contexts of the data are dictionaries that are made for them. -/
theorem Dicts.Closed.loadContexts : ∀ (cs : List (List (String × Json))) {h : Dicts}, h.Closed →
    (loadContexts cs h).2.Closed ∧ h.length ≤ (loadContexts cs h).2.length ∧
      ∀ r ∈ (loadContexts cs h).1, r < (loadContexts cs h).2.length
  | [], _, hh => ⟨hh, le_rfl, fun r hr => (List.not_mem_nil hr).elim⟩
  | c :: cs, h, hh => by
    obtain ⟨hclosed, hbelow⟩ := Closed.loadFields c hh
    obtain ⟨hclosed', hlen, hrs⟩ := loadContexts cs (hclosed.append hbelow)
    rw [List.length_append] at hlen
    refine ⟨hclosed', ?_, fun r hr => ?_⟩
    · exact (length_le_loadFields c h).trans ((Nat.le_add_right _ _).trans hlen)
    · rcases List.mem_cons.mp hr with rfl | hr
      · exact hlen
      · exact hrs r hr

theorem Dicts.Plain.loadContexts : ∀ (cs : List (List (String × Json))) {h : Dicts}, h.Plain →
    (loadContexts cs h).2.Plain
  | [], _, hh => hh
  | c :: cs, _, hh => by
    obtain ⟨hplain, hfields⟩ := Plain.loadFields c hh
    exact loadContexts cs (hplain.append hfields)

theorem deserialize_plain (data : Serialized) (errors : List LogEntry) :
    (Conductor.deserialize data errors).dicts.Plain :=
  Dicts.Plain.loadContexts data.contexts (h := []) fun _ hd => (List.not_mem_nil hd).elim

theorem deserialize_grounded (data : Serialized) (errors : List LogEntry) :
    Grounded (.deserialize data errors) := by
  obtain ⟨hclosed, _, hrs⟩ := Dicts.Closed.loadContexts data.contexts (h := [])
    fun d hd => (List.not_mem_nil hd).elim
  exact ⟨hrs, hclosed⟩

end Orquesta
end IntegratedCLI
