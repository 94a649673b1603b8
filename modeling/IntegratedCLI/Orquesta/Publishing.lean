import Mathlib.Data.List.Induction
import IntegratedCLI.Orquesta.Merging
import IntegratedCLI.Orquesta.Specs

/-!
# What a transition publishes

The publish entries of a transition are evaluated one after the other, and the next ones see
what was published (`rollingCtx`): a variable is assigned.  The task after the transition
sees the context of this task with the new context merged into it (`mergedContext`).  The two
differ where a dictionary is published over a dictionary, since the merge keeps the keys of
the old one.

`Settled` says when they do not: the values published under one name are the same, and the
last one has all the keys of the old one.  Exactly then every expression sees the value that
the next task sees (`sees_iff`).
-/

namespace IntegratedCLI
namespace Orquesta

/-- The context of a task: its contexts merged from left to right. -/
def mergedContext (ctxs : List (List (String × Json))) : List (String × Json) :=
  ctxs.foldl (Json.mergeDicts true) []

/-- The contexts of the task after a transition; a new context without variables is not
among them. -/
def outgoingContexts (ctxs : List (List (String × Json))) (new : List (String × Json)) :
    List (List (String × Json)) :=
  if new.isEmpty then ctxs else ctxs ++ [new]

namespace TaskSpec

/-- The context in which an expression after the entries is evaluated. -/
def rollingCtx (ev : Evaluator) : List (String × Json) → EvalContext → EvalContext
  | [], ctx => ctx
  | (name, value) :: rest, ctx =>
    match ev.evaluate ctx value with
    | .ok v => rollingCtx ev rest { ctx with vars := Dict.put ctx.vars name v }
    | .error _ => rollingCtx ev rest ctx

/-- After any number of entries, each variable published so far has the value that it has
for the next task. -/
def SeesNext (ev : Evaluator) (publish : List (String × Json)) (ctx : EvalContext)
    (next : List (String × Json)) : Prop :=
  ∀ before after, publish = before ++ after → ∀ x ∈ (publishVars ev before ctx).1.map Prod.fst,
    ∃ v w, (rollingCtx ev before ctx).vars.lookup x = some v ∧ next.lookup x = some w ∧ v.Agree w

/-- The last value published under a name is the only one, and where it and the old value
are dictionaries it has the keys of the old one. -/
def Settled (old : List (String × Json)) (vars : List (String × Json)) : Prop :=
  ∀ x w, vars.reverse.lookup x = some w →
    (∀ v, (x, v) ∈ vars → v.Agree w) ∧ ∀ u, old.lookup x = some u → u.Covers w

variable {ev : Evaluator} {publish before after vars d : List (String × Json)} {ctx : EvalContext}
  {x : String} {v w : Json}

/-! ## The last assignment -/

theorem lookup_foldl_put (vars d : List (String × Json)) (x : String) :
    (vars.foldl (fun d (e : String × Json) => Dict.put d e.1 e.2) d).lookup x
    = (vars.reverse.lookup x).or (d.lookup x) := by
  induction vars using List.reverseRecOn with
  | nil => rfl
  | append_singleton vars e ih =>
    rw [List.foldl_concat, List.reverse_concat, Dict.lookup_put, Dict.lookup_cons]
    by_cases hx : x = e.1
    · rw [if_pos hx, if_pos hx]
      rfl
    · rw [if_neg hx, if_neg hx, ih]

theorem nodup_foldl_put (hd : (d.map Prod.fst).Nodup) :
    ((vars.foldl (fun d (e : String × Json) => Dict.put d e.1 e.2) d).map Prod.fst).Nodup := by
  induction vars generalizing d with
  | nil => exact hd
  | cons e vars ih => exact ih (Dict.nodup_put hd)

/-- The variables of the rolling context are those of the task with what was published. -/
theorem vars_rollingCtx : (rollingCtx ev publish ctx).vars
    = (publishVars ev publish ctx).1.foldl (fun d (e : String × Json) => Dict.put d e.1 e.2)
        ctx.vars := by
  induction publish generalizing ctx with
  | nil => rfl
  | cons e publish ih =>
    obtain ⟨name, value⟩ := e
    rw [rollingCtx, publishVars]
    cases ev.evaluate ctx value with
    | ok v => exact ih
    | error e => exact ih

theorem publishVars_append : (publishVars ev (before ++ after) ctx).1
    = (publishVars ev before ctx).1 ++ (publishVars ev after (rollingCtx ev before ctx)).1 := by
  induction before generalizing ctx with
  | nil => rfl
  | cons e before ih =>
    obtain ⟨name, value⟩ := e
    rw [List.cons_append, publishVars, publishVars, rollingCtx]
    cases ev.evaluate ctx value with
    | ok v => exact congrArg ((name, v) :: ·) ih
    | error e => exact ih

/-- A published value is the last one under its name after some number of entries. -/
theorem exists_before (h : (x, v) ∈ (publishVars ev publish ctx).1) :
    ∃ before after, publish = before ++ after
      ∧ (publishVars ev before ctx).1.reverse.lookup x = some v := by
  induction publish using List.reverseRecOn with
  | nil => cases h
  | append_singleton publish e ih =>
    rw [publishVars_append] at h
    rcases List.mem_append.mp h with h | h
    · obtain ⟨before, after, rfl, hlast⟩ := ih h
      exact ⟨before, after ++ [e], List.append_assoc .., hlast⟩
    · refine ⟨publish ++ [e], [], (List.append_nil _).symm, ?_⟩
      rw [publishVars_append, List.reverse_append]
      obtain ⟨name, value⟩ := e
      rw [publishVars] at h ⊢
      cases hvalue : ev.evaluate (rollingCtx ev publish ctx) value with
      | ok v' =>
        rw [hvalue] at h
        obtain ⟨rfl, rfl⟩ := Prod.mk.inj (List.mem_singleton.mp h)
        exact List.lookup_cons_self
      | error e =>
        rw [hvalue] at h
        cases h

theorem lookup_rollingCtx (h : (publishVars ev publish ctx).1.reverse.lookup x = some v) :
    (rollingCtx ev publish ctx).vars.lookup x = some v := by
  rw [vars_rollingCtx, lookup_foldl_put, h]
  rfl

/-- A name that was published has a last value. -/
theorem exists_last (h : x ∈ vars.map Prod.fst) :
    ∃ v, vars.reverse.lookup x = some v ∧ (x, v) ∈ vars := by
  cases hlast : vars.reverse.lookup x with
  | none =>
    obtain ⟨e, he, rfl⟩ := List.mem_map.mp h
    have hnot := List.lookup_eq_none_iff.mp hlast e (List.mem_reverse.mpr he)
    simp at hnot
  | some v => exact ⟨v, rfl, List.mem_reverse.mp (Dict.mem_of_lookup hlast)⟩

/-! ## The next task -/

/-- The last value published under a name is merged into the old one. -/
theorem lookup_mergedContext (ctxs : List (List (String × Json)))
    (h : vars.reverse.lookup x = some w) :
    (mergedContext (outgoingContexts ctxs
        (vars.foldl (fun d (e : String × Json) => Dict.put d e.1 e.2) []))).lookup x
      = some ((((mergedContext ctxs).lookup x).map (Json.mergeValue true · w)).getD w) := by
  have hnew := lookup_foldl_put vars [] x
  rw [h] at hnew
  have hne : (vars.foldl (fun d (e : String × Json) => Dict.put d e.1 e.2) []).isEmpty = false := by
    cases hd : vars.foldl (fun d (e : String × Json) => Dict.put d e.1 e.2) [] with
    | nil =>
      rw [hd] at hnew
      cases hnew
    | cons e d => rfl
  rw [outgoingContexts, hne, mergedContext, if_neg (by simp), List.foldl_concat,
    Json.lookup_mergeDicts (nodup_foldl_put (by simp)), hnew]
  rfl

theorem sees_iff_settled {ctxs : List (List (String × Json))}
    (hvalues : ∀ e ∈ (publishVars ev publish ctx).1, e.2.Distinct) :
    SeesNext ev publish ctx (mergedContext (outgoingContexts ctxs
        ((publishVars ev publish ctx).1.foldl (fun d e => Dict.put d e.1 e.2) [])))
      ↔ Settled (mergedContext ctxs) (publishVars ev publish ctx).1 := by
  have hmerged : ∀ {x w}, (publishVars ev publish ctx).1.reverse.lookup x = some w →
      (w.Agree ((((mergedContext ctxs).lookup x).map (Json.mergeValue true · w)).getD w)
        ↔ ∀ u, (mergedContext ctxs).lookup x = some u → u.Covers w) := by
    intro x w hw
    have hmem := List.mem_reverse.mp (Dict.mem_of_lookup hw)
    cases (mergedContext ctxs).lookup x with
    | none => simp [Json.Agree.refl]
    | some u => simpa using Json.agree_mergeValue_iff (hvalues _ hmem)
  constructor
  · intro h x w hw
    have hnext := lookup_mergedContext ctxs hw
    have hmem := List.mem_reverse.mp (Dict.mem_of_lookup hw)
    obtain ⟨v, w', hv, hw', hagree⟩ :=
      h publish [] (List.append_nil _).symm x (List.mem_map_of_mem hmem)
    rw [lookup_rollingCtx hw] at hv
    rw [hnext] at hw'
    cases hv
    cases hw'
    refine ⟨fun v hv => ?_, (hmerged hw).mp hagree⟩
    -- the value was seen by the entry after it
    obtain ⟨before, after, hsplit, hlast⟩ := exists_before hv
    have hpub : x ∈ (publishVars ev before ctx).1.map Prod.fst :=
      List.mem_map_of_mem (List.mem_reverse.mp (Dict.mem_of_lookup hlast))
    obtain ⟨v', w', hv', hw', hseen⟩ := h before after hsplit x hpub
    rw [lookup_rollingCtx hlast] at hv'
    rw [hnext] at hw'
    cases hv'
    cases hw'
    exact hseen.trans hagree.symm
  · intro h before after hsplit x hx
    obtain ⟨v, hlast, hv⟩ := exists_last hx
    have hmem : (x, v) ∈ (publishVars ev publish ctx).1 := by
      rw [hsplit, publishVars_append]
      exact List.mem_append_left _ hv
    obtain ⟨w, hw, -⟩ := exists_last (List.mem_map_of_mem hmem)
    obtain ⟨hsame, hcovers⟩ := h x w hw
    exact ⟨v, _, lookup_rollingCtx hlast, lookup_mergedContext ctxs hw,
      (hsame v hmem).trans ((hmerged hw).mpr hcovers)⟩

/-- **Expressions see what the next task sees** exactly if the published values are
settled.  The contexts of the task are taken as they are when the context of the next task
is put together. -/
theorem sees_iff (ev : Evaluator) (ts : TaskSpec) (nextTask : String) (ref : ℕ)
    (ctx : EvalContext) (ctxs : List (List (String × Json))) (new : List (String × Json))
    (transition : TaskTransitionSpec) (htransition : ts.next[ref]? = some transition)
    (hnext : nextTask ∈ transition.doTasks)
    (hvalues : ∀ e ∈ (publishVars ev transition.publish ctx).1, e.2.Distinct)
    (htaken : finalizeContext ev ts nextTask ref ctx = .ok (new, [])) :
    SeesNext ev transition.publish ctx (mergedContext (outgoingContexts ctxs new))
      ↔ Settled (mergedContext ctxs) (publishVars ev transition.publish ctx).1 := by
  rw [finalizeContext, htransition] at htaken
  dsimp only at htaken
  rw [if_pos hnext] at htaken
  obtain ⟨rfl, -⟩ := Prod.mk.inj (Except.ok.inj htaken)
  exact sees_iff_settled hvalues

/-- The strings that stand for themselves, and one that reads the variable `x`. -/
def readsX : Evaluator := fun text ctx =>
  if text = "<% ctx().x %>" then .ok ((ctx.vars.lookup "x").getD .null) else .ok (.str text)

/-- Publishes a dictionary as `x` and reads it for `y`. -/
def publishesX (value : Json) : TaskSpec :=
  { empty with next := [⟨none, [("x", value), ("y", .str "<% ctx().x %>")], ["t2"]⟩] }

/-- `x` is published as a number where there was none. -/
theorem sees_iff_publishesX :
    SeesNext readsX [("x", .num 1), ("y", .str "<% ctx().x %>")] ⟨[], none, none, none⟩
        (mergedContext (outgoingContexts [[]] [("x", .num 1), ("y", .num 1)]))
      ↔ Settled (mergedContext [[]])
          (publishVars readsX [("x", .num 1), ("y", .str "<% ctx().x %>")]
            ⟨[], none, none, none⟩).1 := by
  have hdistinct : ∀ n, (Json.num n).Distinct := by
    intro n path fields h
    cases path <;> simp [Json.get?] at h
  refine sees_iff readsX (publishesX (.num 1)) "t2" 0 ⟨[], none, none, none⟩ [[]]
    [("x", .num 1), ("y", .num 1)] _ rfl (by simp) (fun e he => ?_) rfl
  have hvars : (publishVars readsX [("x", .num 1), ("y", .str "<% ctx().x %>")]
      ⟨[], none, none, none⟩).1 = [("x", .num 1), ("y", .num 1)] := rfl
  rw [hvars] at he
  rcases List.mem_cons.mp he with rfl | he
  · exact hdistinct 1
  · rw [List.mem_singleton.mp he]
    exact hdistinct 1

/-- Over `{a: 1}`, the dictionary `{b: 2}` is published and read: `y` is `{b: 2}`, and the
next task has `{a: 1, b: 2}`. -/
theorem not_sees :
    let ctx : EvalContext := ⟨[("x", .dict [("a", .num 1)])], none, none, none⟩
    let new := [("x", Json.dict [("b", .num 2)]), ("y", .dict [("b", .num 2)])]
    finalizeContext readsX (publishesX (.dict [("b", .num 2)])) "t2" 0 ctx = .ok (new, [])
      ∧ ¬ SeesNext readsX [("x", .dict [("b", .num 2)]), ("y", .str "<% ctx().x %>")] ctx
          (mergedContext (outgoingContexts [ctx.vars] new)) := by
  refine ⟨rfl, fun h => ?_⟩
  obtain ⟨v, w, hv, hw, hagree⟩ := h [("x", .dict [("b", .num 2)])] _ rfl "x" (by decide)
  cases hv
  cases hw
  have hat := hagree [.key "a"]
  cases hat

end TaskSpec
end Orquesta
end IntegratedCLI
