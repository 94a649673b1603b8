import IntegratedCLI.Lib.Run
import IntegratedCLI.Orquesta.Heap

/-!
# Reading a context

A context that is read is put together in a new dictionary, into which the stored
contexts are merged one after the other.  The new dictionary is the reader's own, but the
dictionaries inside it are those of the contexts: where two contexts have a dictionary
under the same key, the second one is merged into the dictionary of the first one, which
is still a part of the stored context.

A read is calm (`ContextRead.Calm`) if no such merge has anything to write: every entry of
the second dictionary is in the first one already.  Then the stored contexts stay as they
are, and any number of calm reads, in any order, answer as each would alone
(`readsPure`).  `overwrites` is a workflow in which one read changes what the next one
answers.
-/

namespace IntegratedCLI
namespace Orquesta

open Effect Status

abbrev Fields := List (String × Value)

namespace Dicts

/-! ## A merge with nothing to write -/

/-- The dictionary `l` has every entry of `r` already, and so have the dictionaries in
them, through at most `n` levels. -/
def Within (h : Dicts) : ℕ → Ref → Ref → Prop
  | 0, _, _ => True
  | n + 1, l, r => ∀ e ∈ h.read r,
      match (h.read l).lookup e.1, e.2 with
      | none, _ => False
      | some (.dict l'), .dict r' => Within h n l' r'
      | some w, v => w = v

theorem setItem_self {h : Dicts} {l : Ref} {k : String} {v : Value}
    (hv : (h.read l).lookup k = some v) : h.setItem l k v = h := by
  unfold Dicts.read at hv
  cases hd : h[l]? with
  | none =>
    rw [hd] at hv
    cases hv
  | some d =>
    rw [hd, Option.getD_some] at hv
    exact Positions.modify_self hd (Dict.put_self hv)

/-- There is nothing to write. -/
theorem mergeDicts_of_within {h : Dicts} (n : ℕ) :
    ∀ {l r : Ref}, h.Within n l r → mergeDicts n l r h = h := by
  induction n with
  | zero => exact fun _ => rfl
  | succ n ih =>
    intro l r hw
    have hloop : ∀ es ⊆ h.read r, es.foldl (mergeItem (mergeDicts n) l) h = h := by
      intro es
      induction es with
      | nil => exact fun _ => rfl
      | cons e es ihes =>
        intro hes
        have he := hw e (hes List.mem_cons_self)
        have hitem : mergeItem (mergeDicts n) l h e = h := by
          obtain ⟨k, v⟩ := e
          unfold mergeItem
          cases hl : (h.read l).lookup k with
          | none =>
            rw [hl] at he
            exact he.elim
          | some w =>
            rw [hl] at he
            cases w with
            | json j =>
              obtain rfl : .json j = v := he
              exact setItem_self hl
            | dict l' =>
              cases v with
              | json j => cases he
              | dict r' => exact ih he
        rw [List.foldl_cons, hitem]
        exact ihes (List.subset_of_cons_subset hes)
    exact hloop _ (List.Subset.refl _)

/-! ## A heap with more dictionaries -/

section Longer

variable {h H : Dicts} (hp : h <+: H) (hh : h.Closed)

include hp

theorem read_longer {r : Ref} (hr : r < h.length) : H.read r = h.read r := by
  obtain ⟨t, rfl⟩ := hp
  unfold Dicts.read
  rw [List.getElem?_append_left hr]

include hh

/-- The dictionaries that were there hold the same documents. -/
theorem dump_longer (n : ℕ) : ∀ {v : Value}, v.Below h.length → H.dump n v = h.dump n v := by
  induction n with
  | zero =>
    intro v _
    cases v <;> simp [dump]
  | succ n ih =>
    intro v hv
    cases v with
    | json j => simp [dump]
    | dict r =>
      simp only [dump, read_longer hp hv, Json.dict.injEq]
      refine List.map_congr_left fun e he => ?_
      rw [ih (hh.read he)]

theorem within_longer (n : ℕ) : ∀ {l r : Ref}, l < h.length → r < h.length →
    h.Within n l r → H.Within n l r := by
  induction n with
  | zero => exact fun _ _ _ => trivial
  | succ n ih =>
    intro l r hl hr hw e he
    rw [read_longer hp hr] at he
    rw [read_longer hp hl]
    have hle := hw e he
    obtain ⟨k, v⟩ := e
    cases hk : (h.read l).lookup k with
    | none =>
      rw [hk] at hle
      exact hle.elim
    | some w =>
      rw [hk] at hle
      cases w with
      | json j => exact hle
      | dict l' =>
        cases v with
        | json j => exact hle
        | dict r' =>
          have hbelow : Value.Below h.length (.dict l') := hh.read (e := (k, .dict l')) (Dict.mem_of_lookup hk)
          have hbelow' : Value.Below h.length (.dict r') := hh.read he
          exact ih hbelow hbelow' hle

end Longer

/-! ## Laying contexts over each other -/

/-- An entry is laid over the others.  A dictionary over a dictionary leaves the one that
is there. -/
def lay (d : Fields) (e : String × Value) : Fields :=
  match d.lookup e.1, e.2 with
  | none, v => Dict.put d e.1 v
  | some (.dict _), .dict _ => d
  | some _, v => Dict.put d e.1 v

/-- Every dictionary that comes to lie over a dictionary is within that one. -/
def CalmOver (h : Dicts) : Fields → List (String × Value) → Prop
  | _, [] => True
  | d, e :: es =>
    (∀ l r, d.lookup e.1 = some (.dict l) → e.2 = .dict r → ∀ n, h.Within n l r) ∧
      CalmOver h (lay d e) es

theorem below_lay {n : ℕ} {d : Fields} {e : String × Value} (hd : ∀ x ∈ d, x.2.Below n)
    (he : e.2.Below n) : ∀ x ∈ lay d e, x.2.Below n := by
  have hput : ∀ x ∈ Dict.put d e.1 e.2, x.2.Below n := by
    intro x hx
    rcases Dict.mem_put hx with rfl | hx
    · exact he
    · exact hd x hx
  unfold lay
  split
  · exact hput
  · exact hd
  · exact hput

theorem below_foldl_lay {n : ℕ} {d : Fields} {es : List (String × Value)}
    (hd : ∀ x ∈ d, x.2.Below n) (hes : ∀ e ∈ es, e.2.Below n) :
    ∀ x ∈ es.foldl lay d, x.2.Below n := by
  induction es generalizing d with
  | nil => exact hd
  | cons e es ih =>
    exact ih (below_lay hd (hes e List.mem_cons_self)) fun e' he' =>
      hes e' (List.mem_cons_of_mem _ he')

/-- A write after the dictionaries that were there. -/
theorem prefix_set {h H : Dicts} (hp : h <+: H) {l : Ref} (hl : h.length ≤ l) (d : Fields) :
    h <+: H.set l d := by
  obtain ⟨t, rfl⟩ := hp
  rw [List.set_append_right _ _ hl]
  exact List.prefix_append _ _

theorem read_set {h : Dicts} {l : Ref} (hlt : l < h.length) (d : Fields) :
    read (h.set l d) l = d := by
  simp [read, hlt]

theorem set_read {h : Dicts} {l : Ref} (hlt : l < h.length) : h.set l (h.read l) = h := by
  simp [read, hlt]

theorem setItem_eq_set {h : Dicts} {l : Ref} (hlt : l < h.length) (k : String) (v : Value) :
    h.setItem l k v = h.set l (Dict.put (h.read l) k v) := by
  simp [setItem, read, hlt, List.modify_eq_set_getElem?]

/-- **A calm merge** into a dictionary that is not one of `h` writes nothing else. -/
theorem foldl_mergeItem {h H : Dicts} (hp : h <+: H) (hh : h.Closed) {l : Ref}
    (hl : h.length ≤ l) (hlt : l < H.length) (n : ℕ) {es : List (String × Value)}
    (hd : ∀ x ∈ H.read l, x.2.Below h.length) (hes : ∀ e ∈ es, e.2.Below h.length)
    (hcalm : CalmOver h (H.read l) es) :
    es.foldl (mergeItem (mergeDicts n) l) H = H.set l (es.foldl lay (H.read l)) := by
  induction es generalizing H with
  | nil =>
    rw [List.foldl_nil, List.foldl_nil]
    exact (set_read hlt).symm
  | cons e es ih =>
    obtain ⟨hfirst, hrest⟩ := hcalm
    have hstep : mergeItem (mergeDicts n) l H e = H.set l (lay (H.read l) e) := by
      obtain ⟨k, v⟩ := e
      cases hk : (H.read l).lookup k with
      | none =>
        simp only [mergeItem, lay, hk]
        exact setItem_eq_set hlt k v
      | some w =>
        cases w with
        | json j =>
          simp only [mergeItem, lay, hk]
          exact setItem_eq_set hlt k v
        | dict l' =>
          cases v with
          | json j =>
            simp only [mergeItem, lay, hk]
            exact setItem_eq_set hlt k _
          | dict r' =>
            -- the dictionary of a context is merged into, and has the entries already
            simp only [mergeItem, lay, hk]
            have hl' : l' < h.length := hd _ (Dict.mem_of_lookup hk)
            have hr' : r' < h.length := hes _ List.mem_cons_self
            rw [mergeDicts_of_within n (within_longer hp hh n hl' hr' (hfirst l' r' hk rfl n))]
            exact (set_read hlt).symm
    have hread : read (H.set l (lay (H.read l) e)) l = lay (H.read l) e := read_set hlt _
    rw [List.foldl_cons, List.foldl_cons, hstep, ih (prefix_set hp hl _) ?_ ?_ ?_ ?_, hread,
      List.set_set]
    · simpa using hlt
    · rw [hread]
      exact below_lay hd (hes e List.mem_cons_self)
    · exact fun e' he' => hes e' (List.mem_cons_of_mem _ he')
    · rw [hread]
      exact hrest

end Dicts

/-! ## The reads -/

/-- The dictionary that the contexts with the indices are merged into, from left to right.
It is new, but what is in it belongs to the contexts. -/
def taskContext (idxs : List ℕ) : M Ref := do
  let s ← get
  let r := s.dicts.length
  modify fun s => { s with dicts := s.dicts ++ [[]] }
  forM idxs (mergeContext r)
  return r

def taskInitialContext (t : String) (r : ℕ) : M Ref := do
  let s ← get
  match s.getStagedTask t r with
  | some x => taskContext (s.list x.ctxsIn)
  | none =>
    match s.getTaskStateEntry t r with
    | some e => taskContext (s.list e.ctxsIn)
    | none => throw (.valueError "Unable to determine context for task.")

/-- The context of a task that is neither staged nor started is the first one. -/
def contextOfTask (t : String) (r : ℕ) : M Ref :=
  tryCatch (taskInitialContext t r) fun e =>
    match e with
    | .valueError _ => taskContext [0]
    | e => throw e

def contextOfEntry (idx : ℕ) : M Ref := do
  let s ← get
  match s.sequence[idx]? with
  | none => throw .indexError
  | some e => taskContext (s.list e.ctxsIn)

/-- The contexts of a terminal task are merged into the dictionary, apart from the first
context. -/
def mergeTerminalTask (r : Ref) (ctxs : List ℕ) : M Unit := do
  if 0 ∉ ctxs then throw (.valueError "list.remove(x): x not in list")
  else
    let r' ← taskContext (ctxs.erase 0)
    modify fun s => { s with dicts := s.dicts.merge r r' }

/-- The contexts of the terminal tasks, one list for each. -/
def Conductor.terminalContexts (s : Conductor) : List (List ℕ) :=
  s.getTerminalTasks.map fun p => s.list p.1.ctxsIn

def getWorkflowTerminalContext : M Ref := do
  let s ← get
  if s.status ∉ completedStatuses then
    throw (.workflowContextError "Workflow is not in completed status.")
  else
    match s.terminalContexts with
    | [] => taskContext []
    | first :: others => do
      let r ← taskContext first
      forM others (mergeTerminalTask r)
      return r

/-- The contexts of the next tasks, under the transitions to them that are satisfied. -/
def getTaskTransitionContexts (wf : Workflow) (t : String) (r : ℕ) :
    M (List (TransitionId × Ref)) := do
  let s ← get
  match s.getTaskStateEntry t r with
  | none => throw (.invalidTaskStateEntry t)
  | some e =>
    (wf.graph.getNextTransitions t).foldlM (fun contexts edge =>
      let tid : TransitionId := ⟨edge.dst, edge.key⟩
      if (e.next.lookup tid).getD false then do
        return Dict.put contexts tid (← taskInitialContext edge.dst r)
      else return contexts) []

/-- A method that returns contexts. -/
inductive ContextRead where
  | getTaskContext (idxs : List ℕ)
  | getTask (task : String) (route : ℕ)
  | makeTaskContext (idx : ℕ)
  | getWorkflowTerminalContext
  | getTaskTransitionContexts (task : String) (route : ℕ)

/-- The contexts that are returned, under their transitions if there are more than one. -/
def ContextRead.run (wf : Workflow) : ContextRead → M (List (Option TransitionId × Ref))
  | .getTaskContext idxs => return [(none, ← taskContext idxs)]
  | .getTask t r => return [(none, ← contextOfTask t r)]
  | .makeTaskContext idx => return [(none, ← contextOfEntry idx)]
  | .getWorkflowTerminalContext => return [(none, ← Orquesta.getWorkflowTerminalContext)]
  | .getTaskTransitionContexts t r =>
    return (← Orquesta.getTaskTransitionContexts wf t r).map fun p => (some p.1, p.2)

/-- The state after the read. -/
def readStep (wf : Workflow) (s : Conductor) (q : ContextRead) : Conductor := after (q.run wf) s

/-- What the read returns or raises: the documents, through at most `n` dictionaries. -/
def ContextRead.answer (wf : Workflow) (q : ContextRead) (n : ℕ) (s : Conductor) :
    Except PyError (List (Option TransitionId × Json)) :=
  (result (q.run wf) s).map fun rs =>
    rs.map fun p => (p.1, (readStep wf s q).dicts.dump n (.dict p.2))

/-- The stored contexts, through at most `n` dictionaries. -/
def Conductor.documents (n : ℕ) (s : Conductor) : List Json :=
  s.contexts.map fun c => s.dicts.dump n (.dict c)

theorem getTaskContext_eq (idxs : List ℕ) :
    getTaskContext idxs = (do
      let r ← taskContext idxs
      return (← get).dicts.fields r) := by
  unfold getTaskContext taskContext
  simp only [bind_assoc, pure_bind]

theorem getTaskInitialContext_eq (t : String) (r : ℕ) :
    getTaskInitialContext t r = (do
      let c ← taskInitialContext t r
      return (← get).dicts.fields c) := by
  unfold getTaskInitialContext taskInitialContext
  rw [bind_assoc]
  refine bind_congr fun s => ?_
  cases s.getStagedTask t r with
  | some x => exact getTaskContext_eq _
  | none =>
    cases s.getTaskStateEntry t r with
    | some e => exact getTaskContext_eq _
    | none => rfl

/-- The methods of the conductor that read a context read it so. -/
theorem after_getTaskContext (idxs : List ℕ) (s : Conductor) :
    after (getTaskContext idxs) s = after (taskContext idxs) s := by
  rw [getTaskContext_eq, after_bind_keeps fun _ => moves_bind moves_get fun _ => moves_pure _]

theorem readStep_getTaskContext (wf : Workflow) (idxs : List ℕ) (s : Conductor) :
    readStep wf s (.getTaskContext idxs) = after (getTaskContext idxs) s :=
  (after_bind_keeps (fun _ => moves_pure _) s).trans (after_getTaskContext idxs s).symm

theorem readStep_makeTaskContext (wf : Workflow) (idx : ℕ) (v : Json) (s : Conductor) :
    readStep wf s (.makeTaskContext idx) = after (makeTaskContext idx v) s := by
  refine (after_bind_keeps (fun _ => moves_pure _) s).trans ?_
  unfold makeTaskContext contextOfEntry after
  rw [run_get, run_get]
  cases s.sequence[idx]? with
  | none => rfl
  | some e =>
    refine (after_getTaskContext (s.list e.ctxsIn) s).symm.trans ?_
    exact (after_bind_keeps (fun _ => moves_bind moves_get fun _ => moves_pure _) s).symm

theorem readStep_getTask (wf : Workflow) (t : String) (r : ℕ) (s : Conductor) :
    readStep wf s (.getTask t r) = after (getTask wf t r) s := by
  refine (after_bind_keeps (fun _ => moves_pure _) s).trans ?_
  unfold getTask
  rw [after_bind_keeps]
  · unfold contextOfTask
    rw [getTaskInitialContext_eq]
    cases hrun : taskInitialContext t r s with
    | ok c s' =>
      have hrun' : (taskInitialContext t r >>= fun c => do return (← get).dicts.fields c) s =
          .ok (s'.dicts.fields c) s' := by
        rw [run_bind_ok hrun]
        rfl
      unfold after
      rw [run_tryCatch_ok hrun, run_tryCatch_ok hrun']
    | error e s' =>
      unfold after
      rw [run_tryCatch_error hrun, run_tryCatch_error (run_bind_error hrun)]
      cases e with
      | valueError message => exact (after_getTaskContext [0] s').symm
      | _ => rfl
  · refine fun vars => moves_bind moves_get fun s => moves_bind (moves_lift _) fun spec => ?_
    refine moves_bind (moves_lift _) fun actions => moves_bind (moves_lift _) fun delay => ?_
    split
    · exact moves_pure _
    · exact moves_bind (moves_lift _) fun _ => moves_pure _

/-! ## Calm reads -/

/-- The state with another heap. -/
def Conductor.over (s : Conductor) (h : Dicts) : Conductor := { s with dicts := h }

section Calm

variable (s : Conductor)

/-- The contexts laid over the entries, up to an index that there is no context for. -/
def laid : Fields → List ℕ → Fields
  | d, [] => d
  | d, i :: is =>
    match s.contexts[i]? with
    | none => d
    | some c => laid ((s.dicts.read c).foldl Dicts.lay d) is

/-- Each of the contexts is calm over the entries that the ones before it leave. -/
def CalmContexts : Fields → List ℕ → Prop
  | _, [] => True
  | d, i :: is =>
    match s.contexts[i]? with
    | none => True
    | some c =>
      s.dicts.CalmOver d (s.dicts.read c) ∧ CalmContexts ((s.dicts.read c).foldl Dicts.lay d) is

/-- The terminal tasks after the first one, each calm over the entries that the ones before
it leave. -/
def CalmTerminal : Fields → List (List ℕ) → Prop
  | _, [] => True
  | d, ctxs :: rest =>
    CalmContexts s [] (ctxs.erase 0) ∧ s.dicts.CalmOver d (laid s [] (ctxs.erase 0)) ∧
      CalmTerminal ((laid s [] (ctxs.erase 0)).foldl Dicts.lay d) rest

/-- The indices of the contexts of a task that is staged or started. -/
def contextsOfTask (t : String) (r : ℕ) : Option (List ℕ) :=
  match s.getStagedTask t r with
  | some x => some (s.list x.ctxsIn)
  | none => (s.getTaskStateEntry t r).map fun e => s.list e.ctxsIn

end Calm

/-- No dictionary of a context is laid over one that lacks an entry of it. -/
def ContextRead.Calm (wf : Workflow) (s : Conductor) : ContextRead → Prop
  | .getTaskContext idxs => CalmContexts s [] idxs
  | .getTask t r => CalmContexts s [] ((contextsOfTask s t r).getD [0])
  | .makeTaskContext idx => ∀ e, s.sequence[idx]? = some e → CalmContexts s [] (s.list e.ctxsIn)
  | .getWorkflowTerminalContext =>
    match s.terminalContexts with
    | [] => True
    | first :: others => CalmContexts s [] first ∧ CalmTerminal s (laid s [] first) others
  | .getTaskTransitionContexts t r =>
    ∀ e, s.getTaskStateEntry t r = some e → ∀ edge ∈ wf.graph.getNextTransitions t,
      (e.next.lookup ⟨edge.dst, edge.key⟩).getD false = true →
        ∀ idxs, contextsOfTask s edge.dst r = some idxs → CalmContexts s [] idxs

/-! ### What a calm read answers -/

section Answers

variable (s : Conductor)

/-- The contexts with the indices, laid over each other. -/
def contextFields (idxs : List ℕ) : Except PyError Fields :=
  if idxs.all (· < s.contexts.length) then .ok (laid s [] idxs) else .error .indexError

theorem contextFields_error {s : Conductor} {idxs : List ℕ} {e : PyError}
    (h : contextFields s idxs = .error e) : e = .indexError := by
  unfold contextFields at h
  split at h
  · cases h
  · exact (Except.error.inj h).symm

def initialFields (t : String) (r : ℕ) : Except PyError Fields :=
  match contextsOfTask s t r with
  | some idxs => contextFields s idxs
  | none => .error (.valueError "Unable to determine context for task.")

/-- The contexts of the next tasks, after those that are held already. -/
def transitionFields (e : TaskState) (r : ℕ) (held : List (TransitionId × Fields)) :
    List Edge → Except PyError (List (TransitionId × Fields))
  | [] => .ok held
  | edge :: edges =>
    if (e.next.lookup ⟨edge.dst, edge.key⟩).getD false then
      match initialFields s edge.dst r with
      | .ok d => transitionFields e r (Dict.put held ⟨edge.dst, edge.key⟩ d) edges
      | .error x => .error x
    else transitionFields e r held edges

end Answers

/-- A loop over indices ends in the state, and raises if there is no context for one. -/
def endsIn {α : Type} (s : Conductor) (idxs : List ℕ) (a : α) (s' : Conductor) :
    EStateM.Result PyError Conductor α :=
  if idxs.all (· < s.contexts.length) then .ok a s' else .error .indexError s'

section Steady

variable {s : Conductor} (hs : Grounded s)

include hs

/-- **Calm contexts** are merged without a write to any dictionary but the new one. -/
theorem forM_mergeContext {H : Dicts} (hp : s.dicts <+: H) {l : Ref} (hl : s.dicts.length ≤ l)
    (hlt : l < H.length) {idxs : List ℕ} (hd : ∀ x ∈ H.read l, x.2.Below s.dicts.length)
    (hcalm : CalmContexts s (H.read l) idxs) :
    forM idxs (mergeContext l) (s.over H) =
      endsIn s idxs () (s.over (H.set l (laid s (H.read l) idxs))) := by
  induction idxs generalizing H with
  | nil =>
    rw [laid, Dicts.set_read hlt]
    rfl
  | cons i is ih =>
    rw [List.forM_cons]
    unfold CalmContexts at hcalm
    unfold laid endsIn
    rw [List.all_cons]
    cases hc : s.contexts[i]? with
    | none =>
      have hout : ¬ i < s.contexts.length := not_lt.mpr (List.getElem?_eq_none_iff.mp hc)
      have hrun : mergeContext l i (s.over H) = .error .indexError (s.over H) := by
        unfold mergeContext
        rw [run_get]
        show (match s.contexts[i]? with | none => _ | some c => _ : M Unit) _ = _
        rw [hc]
        rfl
      rw [run_bind_error hrun, decide_eq_false hout, Bool.false_and, if_neg Bool.false_ne_true]
      dsimp only
      rw [Dicts.set_read hlt]
    | some c =>
      rw [hc] at hcalm
      obtain ⟨hover, hrest⟩ := hcalm
      have hin : i < s.contexts.length := (List.getElem?_eq_some_iff.mp hc).1
      have hbelow : c < s.dicts.length := hs.contexts c (List.mem_of_getElem? hc)
      have hmerge : H.merge l c = H.set l ((s.dicts.read c).foldl Dicts.lay (H.read l)) := by
        unfold Dicts.merge Dicts.mergeDicts
        rw [Dicts.read_longer hp hbelow]
        exact Dicts.foldl_mergeItem hp hs.dicts hl hlt _ hd (fun e he => hs.dicts.read he) hover
      have hrun : mergeContext l i (s.over H) = .ok () (s.over (H.merge l c)) := by
        unfold mergeContext
        rw [run_get]
        show (match s.contexts[i]? with | none => _ | some c => _ : M Unit) _ = _
        rw [hc]
        rfl
      rw [run_bind_ok hrun, decide_eq_true hin, Bool.true_and, hmerge]
      have hread := Dicts.read_set hlt ((s.dicts.read c).foldl Dicts.lay (H.read l))
      rw [ih (Dicts.prefix_set hp hl _) ?_ ?_ ?_, hread, List.set_set]
      · rfl
      · simpa using hlt
      · rw [hread]
        exact Dicts.below_foldl_lay hd fun e he => hs.dicts.read he
      · rw [hread]
        exact hrest

theorem taskContext_run {H : Dicts} (hp : s.dicts <+: H) {idxs : List ℕ}
    (hcalm : CalmContexts s [] idxs) :
    taskContext idxs (s.over H) =
      endsIn s idxs H.length (s.over (H ++ [laid s [] idxs])) := by
  have hread : Dicts.read (H ++ [[]]) H.length = [] := by simp [Dicts.read]
  have hloop := forM_mergeContext hs (H := H ++ [[]]) (l := H.length)
    (hp.trans (List.prefix_append _ _)) hp.length_le (by simp)
    (by simp [hread]) (hread.symm ▸ hcalm)
  rw [hread, List.set_append_right _ _ le_rfl, Nat.sub_self, List.set_cons_zero] at hloop
  unfold taskContext
  rw [run_get]
  show (forM idxs (mergeContext H.length) >>= fun _ => pure H.length) (s.over (H ++ [[]])) = _
  unfold endsIn at hloop ⊢
  split at hloop
  · rename_i hall
    rw [run_bind_ok hloop, if_pos hall]
    rfl
  · rename_i hall
    rw [run_bind_error hloop, if_neg hall]

/-- What is laid over each other is from the contexts. -/
theorem below_laid {d : Fields} (hd : ∀ x ∈ d, x.2.Below s.dicts.length) (idxs : List ℕ) :
    ∀ x ∈ laid s d idxs, x.2.Below s.dicts.length := by
  induction idxs generalizing d with
  | nil => exact hd
  | cons i is ih =>
    unfold laid
    cases s.contexts[i]? with
    | none => exact hd
    | some c => exact ih (Dicts.below_foldl_lay hd fun e he => hs.dicts.read he)

end Steady

/-! ## Reads that leave what is there -/

/-- The dictionary has the entries, and what is in them was there before. -/
structure Holds (s : Conductor) (H : Dicts) (r : Ref) (d : Fields) : Prop where
  lt : r < H.length
  read : H.read r = d
  below : ∀ x ∈ d, x.2.Below s.dicts.length

theorem Holds.mono {s : Conductor} {H H' : Dicts} {r : Ref} {d : Fields} (h : Holds s H r d)
    (hp : H <+: H') : Holds s H' r d :=
  ⟨h.lt.trans_le hp.length_le, (Dicts.read_longer hp h.lt).trans h.read, h.below⟩

/-- Begun on the heap, the computation only makes new dictionaries, and it returns what
stands for the value, or raises the exception. -/
def Settles {α β : Type} (s : Conductor) (R : Dicts → α → β → Prop) (m : M α)
    (v : Except PyError β) (H : Dicts) : Prop :=
  Outcome m
    (fun a s' => ∃ H' b, H <+: H' ∧ s' = s.over H' ∧ v = .ok b ∧ R H' a b)
    (fun e s' => ∃ H', H <+: H' ∧ s' = s.over H' ∧ v = .error e) (s.over H)

/-- It does so with the same value on every heap that has the dictionaries of `s`. -/
def Steady {α β : Type} (s : Conductor) (R : Dicts → α → β → Prop) (m : M α)
    (v : Except PyError β) : Prop :=
  ∀ H, s.dicts <+: H → Settles s R m v H

section

variable {α β γ δ : Type} {s : Conductor} {R : Dicts → α → β → Prop}
  {R' : Dicts → γ → δ → Prop} {m : M α} {v : Except PyError β} {w : Except PyError δ} {H : Dicts}

theorem settles_pure {a : α} {b : β} (h : R H a b) : Settles s R (pure a : M α) (.ok b) H :=
  ⟨H, b, List.prefix_rfl, rfl, rfl, h⟩

theorem settles_throw (e : PyError) : Settles s R (throw e : M α) (.error e) H :=
  ⟨H, List.prefix_rfl, rfl, rfl⟩

theorem Settles.bind (h : Settles s R m v H) {f : α → M γ}
    (hok : ∀ H' a b, H <+: H' → v = .ok b → R H' a b → Settles s R' (f a) w H')
    (herror : ∀ e, v = .error e → w = .error e) : Settles s R' (m >>= f) w H := by
  unfold Settles at h ⊢
  rw [outcome_bind]
  refine h.mono ?_ ?_
  · rintro a s' ⟨H₁, b, hH₁, rfl, hv, hab⟩
    refine (hok H₁ a b hH₁ hv hab).mono ?_ ?_
    · rintro c s' ⟨H₂, d, hH₂, h⟩
      exact ⟨H₂, d, hH₁.trans hH₂, h⟩
    · rintro e s' ⟨H₂, hH₂, h⟩
      exact ⟨H₂, hH₁.trans hH₂, h⟩
  · rintro e s' ⟨H₁, hH₁, hs', hv⟩
    exact ⟨H₁, hH₁, hs', herror e hv⟩

theorem Settles.congr {m' : M α} (h : Settles s R m' v H) (hrun : m (s.over H) = m' (s.over H)) :
    Settles s R m v H := by
  unfold Settles Outcome at *
  rw [hrun]
  exact h

theorem Steady.congr {m' : M α} (h : Steady s R m' v) (hrun : ∀ H, m (s.over H) = m' (s.over H)) :
    Steady s R m v :=
  fun H hp => (h H hp).congr (hrun H)

theorem Steady.map (h : Steady s R m v) {f : α → γ} {g : β → δ}
    (hfg : ∀ H a b, R H a b → R' H (f a) (g b)) :
    Steady s R' (do return f (← m)) (v.map g) := by
  refine fun H hp => (h H hp).bind (fun H' a b _ hv hab => ?_) fun e hv => ?_
  · rw [hv]
    exact settles_pure (hfg H' a b hab)
  · rw [hv]
    rfl

end

/-- Each reference, under its key, is to a dictionary that has the entries. -/
def HoldsAll {κ : Type} (s : Conductor) (H : Dicts) : List (κ × Ref) → List (κ × Fields) → Prop :=
  List.Forall₂ fun p f => p.1 = f.1 ∧ Holds s H p.2 f.2

theorem HoldsAll.mono {κ : Type} {s : Conductor} {H H' : Dicts} {rs : List (κ × Ref)}
    {fs : List (κ × Fields)} (h : HoldsAll s H rs fs) (hp : H <+: H') : HoldsAll s H' rs fs :=
  List.Forall₂.imp (fun _ _ h => ⟨h.1, h.2.mono hp⟩) h

theorem HoldsAll.put {κ : Type} [DecidableEq κ] {s : Conductor} {H : Dicts} {rs : List (κ × Ref)}
    {fs : List (κ × Fields)} (h : HoldsAll s H rs fs) (k : κ) {r : Ref} {d : Fields}
    (hr : Holds s H r d) : HoldsAll s H (Dict.put rs k r) (Dict.put fs k d) := by
  induction h with
  | nil => exact .cons ⟨rfl, hr⟩ .nil
  | cons hpf h ih =>
    unfold Dict.put
    rw [hpf.1]
    split
    · exact .cons ⟨rfl, hr⟩ h
    · exact .cons hpf ih

section Reads

variable {s : Conductor} (hs : Grounded s)

include hs

theorem steady_taskContext {idxs : List ℕ} (hcalm : CalmContexts s [] idxs) :
    Steady s (Holds s) (taskContext idxs) (contextFields s idxs) := by
  intro H hp
  unfold Settles Outcome
  rw [taskContext_run hs hp hcalm, endsIn, contextFields]
  by_cases hall : idxs.all (· < s.contexts.length) = true
  · rw [if_pos hall, if_pos hall]
    refine ⟨_, _, List.prefix_append _ _, rfl, rfl, ?_⟩
    constructor
    · simp
    · simp [Dicts.read]
    · exact below_laid hs (fun x hx => (List.not_mem_nil hx).elim) idxs
  · rw [if_neg hall, if_neg hall]
    exact ⟨_, List.prefix_append _ _, rfl, rfl⟩

omit hs in
theorem taskInitialContext_eq (t : String) (r : ℕ) (H : Dicts) :
    taskInitialContext t r (s.over H) =
      (match contextsOfTask s t r with
        | some idxs => taskContext idxs
        | none => throw (.valueError "Unable to determine context for task.") : M Ref) (s.over H) := by
  unfold taskInitialContext contextsOfTask
  rw [run_get]
  show (match s.getStagedTask t r with | some x => _ | none => _ : M Ref) _ = _
  cases s.getStagedTask t r with
  | some x => rfl
  | none =>
    show (match s.getTaskStateEntry t r with | some e => _ | none => _ : M Ref) _ = _
    cases s.getTaskStateEntry t r with
    | some e => rfl
    | none => rfl

theorem steady_taskInitialContext {t : String} {r : ℕ}
    (hcalm : ∀ idxs, contextsOfTask s t r = some idxs → CalmContexts s [] idxs) :
    Steady s (Holds s) (taskInitialContext t r) (initialFields s t r) := by
  rw [initialFields]
  cases hctx : contextsOfTask s t r with
  | some idxs =>
    refine (steady_taskContext hs (hcalm idxs hctx)).congr fun H => ?_
    rw [taskInitialContext_eq, hctx]
  | none =>
    refine fun H _ => (settles_throw _).congr ?_
    rw [taskInitialContext_eq, hctx]

theorem steady_contextOfTask {t : String} {r : ℕ}
    (hcalm : CalmContexts s [] ((contextsOfTask s t r).getD [0])) :
    Steady s (Holds s) (contextOfTask t r)
      (contextFields s ((contextsOfTask s t r).getD [0])) := by
  intro H hp
  unfold Settles contextOfTask
  rw [outcome_tryCatch]
  cases hctx : contextsOfTask s t r with
  | some idxs =>
    rw [hctx, Option.getD_some] at hcalm
    rw [Option.getD_some]
    have hinit := steady_taskInitialContext hs (t := t) (r := r) fun idxs' h => by
      rw [hctx, Option.some_inj] at h
      exact h ▸ hcalm
    rw [initialFields, hctx] at hinit
    refine (hinit H hp).mono (fun _ _ h => h) ?_
    rintro e s' ⟨H', hH, hs', he⟩
    obtain rfl := contextFields_error he
    exact ⟨H', hH, hs', he⟩
  | none =>
    rw [hctx, Option.getD_none] at hcalm
    rw [Option.getD_none]
    have hraise : taskInitialContext t r (s.over H) =
        .error (.valueError "Unable to determine context for task.") (s.over H) := by
      rw [taskInitialContext_eq, hctx]
      rfl
    unfold Outcome
    rw [hraise]
    exact steady_taskContext hs hcalm H hp

theorem steady_contextOfEntry {idx : ℕ}
    (hcalm : ∀ e, s.sequence[idx]? = some e → CalmContexts s [] (s.list e.ctxsIn)) :
    ∃ v, Steady s (Holds s) (contextOfEntry idx) v := by
  have hrun : ∀ H, contextOfEntry idx (s.over H) =
      (match s.sequence[idx]? with
        | none => throw .indexError
        | some e => taskContext (s.list e.ctxsIn) : M Ref) (s.over H) := fun _ => rfl
  cases he : s.sequence[idx]? with
  | none =>
    refine ⟨.error .indexError, fun H _ => (settles_throw _).congr ?_⟩
    rw [hrun, he]
  | some e =>
    refine ⟨_, (steady_taskContext hs (hcalm e he)).congr fun H => ?_⟩
    rw [hrun, he]

/-- The contexts of the next tasks, one after the other. -/
theorem settles_transitions {e : TaskState} {r : ℕ} (edges : List Edge)
    (hcalm : ∀ edge ∈ edges, (e.next.lookup ⟨edge.dst, edge.key⟩).getD false = true →
      ∀ idxs, contextsOfTask s edge.dst r = some idxs → CalmContexts s [] idxs)
    {held : List (TransitionId × Fields)} {out : List (TransitionId × Ref)} {H : Dicts}
    (hp : s.dicts <+: H) (hout : HoldsAll s H out held) :
    Settles s (HoldsAll s) (edges.foldlM (fun contexts edge =>
      let tid : TransitionId := ⟨edge.dst, edge.key⟩
      if (e.next.lookup tid).getD false then do
        return Dict.put contexts tid (← taskInitialContext edge.dst r)
      else return contexts) out) (transitionFields s e r held edges) H := by
  induction edges generalizing held out H with
  | nil => exact settles_pure hout
  | cons edge edges ih =>
    replace ih := fun {held out H} => @ih (fun edge' h => hcalm edge' (List.mem_cons_of_mem _ h))
      held out H
    rw [List.foldlM_cons, transitionFields]
    dsimp only
    by_cases hsat : (e.next.lookup ⟨edge.dst, edge.key⟩).getD false = true
    · rw [if_pos hsat, if_pos hsat, bind_assoc]
      have hfirst := steady_taskInitialContext hs (hcalm edge List.mem_cons_self hsat)
      refine (hfirst H hp).bind (fun H' c d hH hd hc => ?_) fun x hx => ?_
      · rw [hd, pure_bind]
        exact ih (hp.trans hH) ((hout.mono hH).put _ hc)
      · rw [hx]
    · rw [if_neg hsat, if_neg hsat, pure_bind]
      exact ih hp hout

theorem steady_getTaskTransitionContexts (wf : Workflow) {t : String} {r : ℕ}
    (hcalm : ∀ e, s.getTaskStateEntry t r = some e → ∀ edge ∈ wf.graph.getNextTransitions t,
      (e.next.lookup ⟨edge.dst, edge.key⟩).getD false = true →
        ∀ idxs, contextsOfTask s edge.dst r = some idxs → CalmContexts s [] idxs) :
    Steady s (HoldsAll s) (getTaskTransitionContexts wf t r)
      (match s.getTaskStateEntry t r with
        | none => .error (.invalidTaskStateEntry t)
        | some e => transitionFields s e r [] (wf.graph.getNextTransitions t)) := by
  have hrun : ∀ H, getTaskTransitionContexts wf t r (s.over H) =
      (match s.getTaskStateEntry t r with
        | none => throw (.invalidTaskStateEntry t)
        | some e => (wf.graph.getNextTransitions t).foldlM (fun contexts edge =>
            let tid : TransitionId := ⟨edge.dst, edge.key⟩
            if (e.next.lookup tid).getD false then do
              return Dict.put contexts tid (← taskInitialContext edge.dst r)
            else return contexts) [] : M (List (TransitionId × Ref))) (s.over H) := fun _ => rfl
  cases he : s.getTaskStateEntry t r with
  | none =>
    refine fun H _ => (settles_throw (.invalidTaskStateEntry t)).congr ?_
    rw [hrun, he]
  | some e =>
    refine fun H hp => (settles_transitions hs _ (hcalm e he) hp .nil).congr ?_
    rw [hrun, he]

/-- One terminal task is merged into the new dictionary at `H.length`. -/
theorem mergeTerminalTask_run {H K : Dicts} (hp : s.dicts <+: H) (hHK : H <+: K)
    (hlt : H.length < K.length) {d : Fields} (hread : Dicts.read K H.length = d)
    (hd : ∀ x ∈ d, x.2.Below s.dicts.length) {ctxs : List ℕ} (hzero : 0 ∈ ctxs)
    (hall : (ctxs.erase 0).all (· < s.contexts.length) = true)
    (hctxs : CalmContexts s [] (ctxs.erase 0))
    (hover : s.dicts.CalmOver d (laid s [] (ctxs.erase 0))) :
    mergeTerminalTask H.length ctxs (s.over K) =
      .ok () (s.over ((K ++ [laid s [] (ctxs.erase 0)]).set H.length
        ((laid s [] (ctxs.erase 0)).foldl Dicts.lay d))) := by
  have hbelow := below_laid hs (d := []) (fun x hx => (List.not_mem_nil hx).elim) (ctxs.erase 0)
  have hlong := List.prefix_append K [laid s [] (ctxs.erase 0)]
  have hread' : Dicts.read (K ++ [laid s [] (ctxs.erase 0)]) H.length = d :=
    (Dicts.read_longer hlong hlt).trans hread
  have hmerge : Dicts.merge H.length K.length (K ++ [laid s [] (ctxs.erase 0)]) =
      (K ++ [laid s [] (ctxs.erase 0)]).set H.length
        ((laid s [] (ctxs.erase 0)).foldl Dicts.lay d) := by
    have hlast : Dicts.read (K ++ [laid s [] (ctxs.erase 0)]) K.length =
        laid s [] (ctxs.erase 0) := by
      simp [Dicts.read]
    unfold Dicts.merge Dicts.mergeDicts
    rw [hlast, ← hread']
    refine Dicts.foldl_mergeItem (hp.trans (hHK.trans hlong)) hs.dicts hp.length_le
      (hlt.trans_le hlong.length_le) _ ?_ hbelow ?_
    · rw [hread']
      exact hd
    · rw [hread']
      exact hover
  have hrun := taskContext_run hs (hp.trans hHK) hctxs
  rw [endsIn, if_pos hall] at hrun
  rw [mergeTerminalTask, if_neg (not_not.mpr hzero), run_bind_ok hrun, ← hmerge]
  rfl

/-- **The terminal tasks** are merged into the new dictionary at `H.length`, one after the
other. -/
theorem terminal_loop {lists : List (List ℕ)} {d : Fields}
    (hd : ∀ x ∈ d, x.2.Below s.dicts.length) (hcalm : CalmTerminal s d lists) :
    ∃ v : Except PyError Fields, ∀ H K, s.dicts <+: H → H <+: K → H.length < K.length →
      Dicts.read K H.length = d →
      Outcome (forM lists (mergeTerminalTask H.length))
        (fun _ s' => ∃ K' d', H <+: K' ∧ s' = s.over K' ∧ v = .ok d' ∧ Holds s K' H.length d')
        (fun e s' => ∃ K', H <+: K' ∧ s' = s.over K' ∧ v = .error e) (s.over K) := by
  induction lists generalizing d with
  | nil =>
    exact ⟨.ok d, fun H K _ hHK hlt hread => ⟨K, d, hHK, rfl, rfl, hlt, hread, hd⟩⟩
  | cons ctxs rest ih =>
    obtain ⟨hctxs, hover, hrest⟩ := hcalm
    by_cases hzero : 0 ∉ ctxs
    · refine ⟨.error (.valueError "list.remove(x): x not in list"), fun H K _ hHK _ _ => ?_⟩
      rw [List.forM_cons, mergeTerminalTask, if_pos hzero]
      exact ⟨K, hHK, rfl, rfl⟩
    · have hbelow := below_laid hs (d := []) (fun x hx => (List.not_mem_nil hx).elim) (ctxs.erase 0)
      obtain ⟨v, hv⟩ := ih (Dicts.below_foldl_lay hd hbelow) hrest
      by_cases hall : (ctxs.erase 0).all (· < s.contexts.length) = true
      · refine ⟨v, fun H K hp hHK hlt hread => ?_⟩
        have hlong := List.prefix_append K [laid s [] (ctxs.erase 0)]
        have hlt' := hlt.trans_le hlong.length_le
        rw [List.forM_cons]
        unfold Outcome
        rw [run_bind_ok (mergeTerminalTask_run hs hp hHK hlt hread hd (not_not.mp hzero) hall hctxs
          hover)]
        refine hv H _ hp (Dicts.prefix_set (hHK.trans hlong) le_rfl _) ?_ (Dicts.read_set hlt' _)
        rw [List.length_set]
        exact hlt'
      · refine ⟨.error .indexError, fun H K hp hHK hlt hread => ?_⟩
        have hrun := taskContext_run hs (hp.trans hHK) hctxs
        rw [endsIn, if_neg hall] at hrun
        rw [List.forM_cons, mergeTerminalTask, if_neg hzero, bind_assoc]
        unfold Outcome
        rw [run_bind_error hrun]
        exact ⟨_, hHK.trans (List.prefix_append _ _), rfl, rfl⟩

theorem steady_getWorkflowTerminalContext
    (hcalm : ∀ first others, s.terminalContexts = first :: others →
      CalmContexts s [] first ∧ CalmTerminal s (laid s [] first) others) :
    ∃ v, Steady s (Holds s) getWorkflowTerminalContext v := by
  have hrun : ∀ H, getWorkflowTerminalContext (s.over H) =
      (if s.status ∉ completedStatuses then
        throw (.workflowContextError "Workflow is not in completed status.")
      else
        match s.terminalContexts with
        | [] => taskContext []
        | first :: others => do
          let r ← taskContext first
          forM others (mergeTerminalTask r)
          return r : M Ref) (s.over H) := fun _ => rfl
  by_cases hst : s.status ∉ completedStatuses
  · refine ⟨_, fun H _ => (settles_throw
      (.workflowContextError "Workflow is not in completed status.")).congr ?_⟩
    rw [hrun, if_pos hst]
  · cases hterm : s.terminalContexts with
    | nil =>
      refine ⟨_, (steady_taskContext hs (show CalmContexts s [] [] from trivial)).congr fun H => ?_⟩
      rw [hrun, if_neg hst, hterm]
    | cons first others =>
      obtain ⟨hfirst, hothers⟩ := hcalm first others hterm
      have hbelow := below_laid hs (d := []) (fun x hx => (List.not_mem_nil hx).elim) first
      obtain ⟨v, hv⟩ := terminal_loop hs hbelow hothers
      have hcons : ∀ H, getWorkflowTerminalContext (s.over H) =
          (taskContext first >>= fun r => forM others (mergeTerminalTask r) >>= fun _ => pure r :
            M Ref) (s.over H) := by
        intro H
        rw [hrun, if_neg hst, hterm]
      by_cases hall : first.all (· < s.contexts.length) = true
      · refine ⟨v, fun H hp => Settles.congr ?_ (hcons H)⟩
        have hctx := taskContext_run hs hp hfirst
        rw [endsIn, if_pos hall] at hctx
        unfold Settles Outcome
        rw [run_bind_ok hctx]
        show Outcome (forM others (mergeTerminalTask H.length) >>= fun _ => pure H.length) _ _ _
        rw [outcome_bind]
        refine (hv H _ hp (List.prefix_append _ _) (by simp) (by simp [Dicts.read])).mono ?_
          fun _ _ h => h
        rintro _ s' ⟨K, d, hHK, hs', rfl, hold⟩
        exact ⟨K, d, hHK, hs', rfl, hold⟩
      · refine ⟨.error .indexError, fun H hp => Settles.congr ?_ (hcons H)⟩
        have hctx := taskContext_run hs hp hfirst
        rw [endsIn, if_neg hall] at hctx
        unfold Settles Outcome
        rw [run_bind_error hctx]
        exact ⟨_, List.prefix_append _ _, rfl, rfl⟩

omit hs in
theorem Steady.alone {m : M Ref} {v : Except PyError Fields} (hv : Steady s (Holds s) m v) :
    Steady s (HoldsAll s) (do return [((none : Option TransitionId), ← m)])
      (v.map fun d => [(none, d)]) :=
  hv.map fun _ _ _ hold => .cons ⟨rfl, hold⟩ .nil

omit hs in
theorem Steady.transitions {wf : Workflow} {t : String} {r : ℕ}
    {v : Except PyError (List (TransitionId × Fields))}
    (hv : Steady s (HoldsAll s) (getTaskTransitionContexts wf t r) v) :
    Steady s (HoldsAll s) ((ContextRead.getTaskTransitionContexts t r).run wf)
      (v.map fun fs => fs.map fun f => (some f.1, f.2)) := by
  refine hv.map fun H rs fs h => ?_
  exact List.forall₂_map_left_iff.mpr (List.forall₂_map_right_iff.mpr
    (List.Forall₂.imp (fun p f h => ⟨congrArg some h.1, h.2⟩) h))

/-- **A calm read** is steady. -/
theorem ContextRead.Calm.steady {wf : Workflow} {q : ContextRead} (hcalm : q.Calm wf s) :
    ∃ v, Steady s (HoldsAll s) (q.run wf) v := by
  have hone : ∀ {m : M Ref}, (∃ v, Steady s (Holds s) m v) →
      ∃ v, Steady s (HoldsAll s) (do return [((none : Option TransitionId), ← m)]) v :=
    fun ⟨_, hv⟩ => ⟨_, hv.alone⟩
  cases q with
  | getTaskContext idxs => exact ⟨_, (steady_taskContext hs hcalm).alone⟩
  | getTask t r => exact ⟨_, (steady_contextOfTask hs hcalm).alone⟩
  | makeTaskContext idx => exact hone (steady_contextOfEntry hs hcalm)
  | getWorkflowTerminalContext =>
    refine hone (steady_getWorkflowTerminalContext hs fun first others h => ?_)
    unfold ContextRead.Calm at hcalm
    rw [h] at hcalm
    exact hcalm
  | getTaskTransitionContexts t r => exact ⟨_, (steady_getTaskTransitionContexts hs wf hcalm).transitions⟩

/-- The document of a dictionary with the entries. -/
def document (s : Conductor) : ℕ → Fields → Json
  | 0, _ => .null
  | n + 1, d => .dict (d.map fun e => (e.1, s.dicts.dump n e.2))

omit hs in
theorem Steady.readStep {wf : Workflow} {q : ContextRead}
    {v : Except PyError (List (Option TransitionId × Fields))}
    (hv : Steady s (HoldsAll s) (q.run wf) v) {H : Dicts} (hp : s.dicts <+: H) :
    ∃ H', H <+: H' ∧ readStep wf (s.over H) q = s.over H' := by
  have hout := hv H hp
  unfold Settles Outcome at hout
  unfold Orquesta.readStep after
  cases hrun : q.run wf (s.over H) with
  | ok rs s' =>
    rw [hrun] at hout
    obtain ⟨H', _, hH, hs', _⟩ := hout
    exact ⟨H', hH, hs'⟩
  | error e s' =>
    rw [hrun] at hout
    obtain ⟨H', hH, hs', _⟩ := hout
    exact ⟨H', hH, hs'⟩

theorem Holds.document {H : Dicts} (hp : s.dicts <+: H) {r : Ref} {d : Fields}
    (hold : Holds s H r d) (n : ℕ) : H.dump n (.dict r) = document s n d := by
  cases n with
  | zero => rfl
  | succ n =>
    rw [Dicts.dump, hold.read, Orquesta.document]
    congr 1
    refine List.map_congr_left fun e he => ?_
    rw [Dicts.dump_longer hp hs.dicts n (hold.below e he)]

theorem HoldsAll.documents {κ : Type} {H : Dicts} (hp : s.dicts <+: H) {rs : List (κ × Ref)}
    {fs : List (κ × Fields)} (h : HoldsAll s H rs fs) (n : ℕ) :
    (rs.map fun p => (p.1, H.dump n (.dict p.2))) = fs.map fun f => (f.1, document s n f.2) := by
  induction h with
  | nil => rfl
  | cons hpf _ ih => rw [List.map_cons, List.map_cons, ih, hpf.1, hpf.2.document hs hp]

/-- What a steady read answers does not depend on the dictionaries that were made since. -/
theorem Steady.answer {wf : Workflow} {q : ContextRead}
    {v : Except PyError (List (Option TransitionId × Fields))}
    (hv : Steady s (HoldsAll s) (q.run wf) v) {H : Dicts} (hp : s.dicts <+: H) (n : ℕ) :
    q.answer wf n (s.over H) = v.map fun fs => fs.map fun f => (f.1, document s n f.2) := by
  have hout := hv H hp
  unfold Settles Outcome at hout
  unfold ContextRead.answer Orquesta.readStep after result
  cases hrun : q.run wf (s.over H) with
  | ok rs s' =>
    rw [hrun] at hout
    obtain ⟨H', fs, hH, rfl, rfl, hall⟩ := hout
    dsimp only [Except.map]
    exact congrArg Except.ok (hall.documents hs (hp.trans hH) n)
  | error e s' =>
    rw [hrun] at hout
    obtain ⟨H', hH, rfl, rfl⟩ := hout
    rfl

/-- The state is `s`, with dictionaries that were made since. -/
def Since (s s' : Conductor) : Prop := ∃ H, s.dicts <+: H ∧ s' = s.over H

/-- Calm reads only make new dictionaries. -/
theorem since_reads {wf : Workflow} {reads : List ContextRead} (hcalm : ∀ q ∈ reads, q.Calm wf s) :
    Run.Throughout (readStep wf) (Since s) s reads := by
  refine Run.throughout_of_along (C := fun _ q => q.Calm wf s) ?_ ⟨_, List.prefix_rfl, rfl⟩
    (Run.along_const.mpr hcalm)
  rintro _ q ⟨H, hp, rfl⟩ hq
  obtain ⟨v, hv⟩ := hq.steady hs
  obtain ⟨H', hH, hstep⟩ := hv.readStep hp
  exact ⟨H', hp.trans hH, hstep⟩

/-- The stored contexts are what they were. -/
theorem documents_over {H : Dicts} (hp : s.dicts <+: H) (n : ℕ) :
    (s.over H).documents n = s.documents n := by
  refine List.map_congr_left fun c hc => ?_
  exact Dicts.dump_longer hp hs.dicts n (hs.contexts c hc)

end Reads

/-! ## Runs -/

/-- What a client does to a conductor: it calls it, reads contexts, or goes on with a
conductor that is restored from the serialized one. -/
inductive Access where
  | call (c : ClientCall)
  | read (q : ContextRead)
  | restore

def accessStep (wf : Workflow) (s : Conductor) : Access → Conductor
  | .call c => clientStep wf s c
  | .read q => readStep wf s q
  | .restore => s.restored

/-- A read writes to the heap only. -/
def Reads (s s' : Conductor) : Prop := OnlyDicts s s' ∧ HeapWrites s s'

instance : IsPreorder Conductor Reads where
  refl s := ⟨refl_of OnlyDicts s, .refl⟩
  trans _ _ _ h h' := ⟨trans_of OnlyDicts h.1 h'.1, h.2.trans h'.2⟩

theorem taskContext_reads (idxs : List ℕ) : Moves Reads (taskContext idxs) := by
  unfold taskContext
  refine moves_bind moves_get fun s => ?_
  refine moves_bind (moves_modify fun s => ⟨⟨_, rfl⟩, heap_alloc s⟩) fun _ => ?_
  refine moves_bind (moves_forM fun i _ s => ?_) fun _ => moves_pure _
  exact ⟨mergeContext_moves _ i s, mergeContext_heap _ i s⟩

theorem taskInitialContext_reads (t : String) (r : ℕ) : Moves Reads (taskInitialContext t r) := by
  unfold taskInitialContext
  refine moves_bind moves_get fun s => ?_
  split
  · exact taskContext_reads _
  · split
    · exact taskContext_reads _
    · exact moves_throw _

theorem getWorkflowTerminalContext_reads : Moves Reads getWorkflowTerminalContext := by
  unfold getWorkflowTerminalContext
  refine moves_bind moves_get fun s => ?_
  split
  · exact moves_throw _
  · split
    · exact taskContext_reads _
    · refine moves_bind (taskContext_reads _) fun r => ?_
      refine moves_bind (moves_forM fun ctxs _ => ?_) fun _ => moves_pure _
      unfold mergeTerminalTask
      split
      · exact moves_throw _
      · exact moves_bind (taskContext_reads _) fun r' =>
          moves_modify fun s => ⟨⟨_, rfl⟩, heap_merge r r' s⟩

theorem contextRead_reads (wf : Workflow) (q : ContextRead) : Moves Reads (q.run wf) := by
  cases q with
  | getTaskContext idxs => exact moves_bind (taskContext_reads idxs) fun _ => moves_pure _
  | getTask t r =>
    refine moves_bind (moves_tryCatch (taskInitialContext_reads t r) fun e => ?_) fun _ => moves_pure _
    split
    · exact taskContext_reads _
    · exact moves_throw _
  | makeTaskContext idx =>
    refine moves_bind (moves_bind moves_get fun s => ?_) fun _ => moves_pure _
    split
    · exact moves_throw _
    · exact taskContext_reads _
  | getWorkflowTerminalContext =>
    exact moves_bind getWorkflowTerminalContext_reads fun _ => moves_pure _
  | getTaskTransitionContexts t r =>
    refine moves_bind (moves_bind moves_get fun s => ?_) fun _ => moves_pure _
    split
    · exact moves_throw _
    · refine moves_foldlM (fun edge _ contexts => ?_) _
      dsimp only
      split
      · exact moves_bind (taskInitialContext_reads _ _) fun _ => moves_pure _
      · exact moves_pure _

/-- What holds of a new conductor and is kept by calls, reads and a restore holds in every
state that a client can bring the conductor to. -/
theorem access_run {wf : Workflow} {P : Conductor → Prop} (hinit : P (.init wf))
    (hcall : ∀ s c, P s → P (clientStep wf s c)) (hread : ∀ s s', Reads s s' → P s → P s')
    (hrestore : ∀ s, P s → P s.restored) (accesses : List Access) :
    P (accesses.foldl (accessStep wf) (.init wf)) := by
  refine (Run.throughout_of_along (C := fun _ _ => True) (fun s a hs _ => ?_) hinit
    (Run.along_const.mpr fun _ _ => trivial)).last
  cases a with
  | call c => exact hcall s c hs
  | read q => exact hread s _ (contextRead_reads wf q s) hs
  | restore => exact hrestore s hs

/-- No reference dangles. -/
theorem grounded_run (wf : Workflow) (accesses : List Access) :
    Grounded (accesses.foldl (accessStep wf) (.init wf)) :=
  access_run (init_grounded wf)
    (fun s c hs => (HeapWrites.grows (clientStep_heap wf s c)).grounded hs)
    (fun _ _ hread hs => (HeapWrites.grows hread.2).grounded hs)
    (fun _ _ => deserialize_grounded _ _) accesses

/-- No dictionary is kept as a document. -/
theorem plain_run (wf : Workflow) (accesses : List Access) :
    (accesses.foldl (accessStep wf) (.init wf)).dicts.Plain :=
  access_run (P := fun s => s.dicts.Plain)
    (HeapWrites.plain (init_heap wf) fun _ hd => (List.not_mem_nil hd).elim)
    (fun s c hs => HeapWrites.plain (clientStep_heap wf s c) hs)
    (fun _ _ hread hs => HeapWrites.plain hread.2 hs) (fun _ _ => deserialize_plain _ _) accesses

/-- Reading contexts is pure: the reads leave the stored contexts as they are, and each one
answers what it would have answered first. -/
structure ReadsPure (wf : Workflow) (s : Conductor) (reads : List ContextRead) : Prop where
  contexts : Run.Throughout (readStep wf) (fun s' => ∀ n, s'.documents n = s.documents n) s reads
  answers : ∀ earlier q later, reads = earlier ++ q :: later →
    ∀ n, q.answer wf n (earlier.foldl (readStep wf) s) = q.answer wf n s

theorem readsPure_of_calm {wf : Workflow} {s : Conductor} (hs : Grounded s)
    {reads : List ContextRead} (hcalm : ∀ q ∈ reads, q.Calm wf s) : ReadsPure wf s reads := by
  constructor
  · refine (since_reads hs hcalm).mono ?_
    rintro _ ⟨H, hp, rfl⟩ n
    exact documents_over hs hp n
  · rintro earlier q later rfl n
    obtain ⟨H, hp, hrun⟩ :=
      (since_reads hs fun q' hq' => hcalm q' (List.mem_append_left _ hq')).last
    obtain ⟨v, hv⟩ := (hcalm q (by simp)).steady hs
    rw [hrun, hv.answer hs hp]
    exact (hv.answer hs List.prefix_rfl n).symm

/-- **Calm reads are pure**, in every state that a client can bring the conductor to. -/
theorem readsPure (wf : Workflow) (accesses : List Access) (reads : List ContextRead)
    (hcalm : ∀ q ∈ reads, q.Calm wf (accesses.foldl (accessStep wf) (.init wf))) :
    ReadsPure wf (accesses.foldl (accessStep wf) (.init wf)) reads :=
  readsPure_of_calm (grounded_run wf accesses) hcalm

/-! ### A nested dictionary that is published again -/

/-- The second context has a dictionary under the key of one in the first context. -/
def publishes (x : ℤ) : Workflow where
  spec := ⟨[], [("d", .dict [("x", .num 1)])],
    [("task1", ⟨none, none, none, .str "core.noop", .dict [], none,
        [⟨none, [("d", .dict [("x", .num x)])], ["task2"]⟩]⟩),
      ("task2", ⟨none, none, none, .str "core.noop", .dict [], none, []⟩)]⟩
  graph := ⟨[("task1", ⟨none, none⟩), ("task2", ⟨none, none⟩)], [⟨"task1", "task2", 0, [], 0⟩]⟩
  inputs := []
  parentCtx := []
  evaluator := fun s _ => .ok (.str s)
  composed := ⟨5, rfl⟩

/-- The first task publishes the dictionary, and the second one is staged. -/
def firstDone : List Access :=
  [.call (.call (.requestWorkflowStatus (some running))),
    .call (.call (.updateTaskState "task1" 0 (.action (some running) .null))),
    .call (.call (.updateTaskState "task1" 0 (.action (some succeeded) .null)))]

/-- The contexts of the second task, and then the first context alone. -/
def bothThenFirst : List ContextRead := [.getTaskContext [0, 1], .getTaskContext [0]]

theorem readsPure_publishesSame :
    ReadsPure (publishes 1) (firstDone.foldl (accessStep (publishes 1)) (.init (publishes 1)))
      bothThenFirst := by
  refine readsPure (publishes 1) firstDone bothThenFirst ?_
  have hcontexts : (firstDone.foldl (accessStep (publishes 1)) (.init (publishes 1))).contexts =
      [0, 6] := rfl
  have hdicts : (firstDone.foldl (accessStep (publishes 1)) (.init (publishes 1))).dicts =
      [[("d", .dict 2)], [], [("x", .json (.num 1))], [("d", .dict 2)], [("d", .dict 2)],
        [("x", .json (.num 1))], [("d", .dict 5)]] := rfl
  generalize firstDone.foldl (accessStep (publishes 1)) (.init (publishes 1)) = s at *
  have hwithin : ∀ n, s.dicts.Within n 2 5 := by
    intro n
    cases n with
    | zero => trivial
    | succ n => simp [Dicts.Within, hdicts, Dicts.read]
  intro q hq
  rcases List.mem_cons.mp hq with rfl | hq
  · simp only [ContextRead.Calm, CalmContexts, hcontexts]
    simpa [hdicts, Dicts.read, Dicts.CalmOver, Dicts.lay, Dict.put] using hwithin
  · rw [List.mem_singleton.mp hq]
    simp [ContextRead.Calm, CalmContexts, hcontexts, hdicts, Dicts.read, Dicts.CalmOver]

theorem not_readsPure_publishesOther :
    ¬ ReadsPure (publishes 2) (firstDone.foldl (accessStep (publishes 2)) (.init (publishes 2)))
      bothThenFirst := by
  intro h
  have hfirst := h.contexts.last 3
  have hsame := congrArg (List.map (Json.equal (.dict [("d", .dict [("x", .num 1)])]))) hfirst
  exact absurd hsame (by decide +kernel)

end Orquesta
end IntegratedCLI
