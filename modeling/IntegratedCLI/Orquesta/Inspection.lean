import IntegratedCLI.Orquesta.Composing

/-!
# Undefined tasks

`detect_undefined_tasks` goes through the tasks that are reachable and reports the names
under a `do` that are neither those of tasks nor of engine commands.  It has its own
traversal: a task is queued when it is first seen, and engine commands are never queued.

`detects` says what is reported, and that the traversal ends.  `composes_of_detected` says
that the composer, which goes through the tasks in another way, raises nothing where nothing
is reported.

A `do` that is a text is taken as the list of its names; the source splits it in the same way
here and in `get_next_tasks`.
-/

namespace IntegratedCLI
namespace Orquesta

open Fallible Relation

/-- Where a part of a specification is, and where its schema is. -/
structure SpecPaths where
  specPath : String
  schemaPath : String
  deriving DecidableEq, Repr

/-- An error that an inspection reports. -/
structure InspectionEntry where
  message : String
  specPath : String
  schemaPath : String
  deriving DecidableEq, Repr

namespace Inspection

/-- The path of the `do` of a transition. -/
def itemPath (parent : SpecPaths) (t : String) (i : ℕ) : String :=
  parent.specPath ++ "." ++ t ++ ".next[" ++ toString i ++ "].do"

def undefinedTask (parent : SpecPaths) (t : String) (i : ℕ) (n : String) : InspectionEntry :=
  ⟨"The task \"" ++ n ++ "\" is not defined.", itemPath parent t i,
    parent.schemaPath ++ ".patternProperties.^\\w+$" ++ ".properties.next.items.properties.do"⟩

/-- The state of the traversal. -/
structure Traversal where
  queue : List String
  traversed : List String
  queuedTask : List String
  result : List InspectionEntry

variable (spec : WorkflowSpec) (parent : SpecPaths)

/-- Look at a name under the `do` of transition `i` of the task. -/
def checkName (t : String) (s : Traversal) (item : ℕ × String) : Traversal :=
  if item.2 ∈ s.traversed then s
  else if spec.hasTask item.2 then
    if isReserved item.2 = false ∧ item.2 ∉ s.traversed ∧ item.2 ∉ s.queuedTask then
      { s with queue := s.queue ++ [item.2], queuedTask := s.queuedTask ++ [item.2] }
    else s
  else { s with result := s.result ++ [undefinedTask parent t item.1 item.2] }

/-- Look at all transitions of a task that was taken off the queue. -/
def visit (s : Traversal) (t : String) : Except PyError Traversal := do
  let s := { s with traversed := s.traversed ++ [t] }
  let ts ← spec.getTask t
  return ts.next.zipIdx.foldl
    (fun s e => (e.1.doTasks.map fun n => (e.2, n)).foldl (checkName spec parent t) s) s

def loop : ℕ → Traversal → Except PyError (List InspectionEntry)
  | 0, s => if s.queue = [] then return s.result else throw .recursionError
  | n + 1, s =>
    match s.queue with
    | [] => return s.result
    | t :: queue => do loop n (← visit spec parent { s with queue := queue } t)

end Inspection

/-- The loop takes every task off the queue at most once, so that its fuel does not run out. -/
def WorkflowSpec.detectUndefinedTasks (spec : WorkflowSpec) (parent : SpecPaths) :
    Except PyError (List InspectionEntry) :=
  Inspection.loop spec parent (2 * spec.tasks.length) ⟨spec.getStartTasks, [], [], []⟩

namespace Inspection

/-! ## Paths -/

/-- What stands behind the last `x` is told apart. -/
theorem append_cons_inj {α : Type} {x : α} {a a' d d' : List α} (hd : x ∉ d) (hd' : x ∉ d')
    (h : a ++ x :: d = a' ++ x :: d') : a = a' ∧ d = d' := by
  rcases List.append_eq_append_iff.mp h with ⟨c, rfl, hc⟩ | ⟨c, rfl, hc⟩
  · cases c with
    | nil => exact ⟨(List.append_nil a).symm, (List.cons.inj hc).2⟩
    | cons y c =>
      rw [(List.cons.inj hc).2] at hd
      exact absurd (List.mem_append_right c List.mem_cons_self) hd
  · cases c with
    | nil => exact ⟨List.append_nil a', (List.cons.inj hc).2.symm⟩
    | cons y c =>
      rw [(List.cons.inj hc).2] at hd'
      exact absurd (List.mem_append_right c List.mem_cons_self) hd'

/-- No two transitions have one path, whatever the names of the tasks are. -/
theorem itemPath_inj {parent : SpecPaths} {t t' : String} {i i' : ℕ}
    (h : itemPath parent t i = itemPath parent t' i') : t = t' ∧ i = i' := by
  have hbracket : ∀ n : ℕ, '[' ∉ Nat.toDigits 10 n := by
    intro n hn
    exact absurd (Nat.isDigit_of_mem_toDigits (by decide) (by decide) hn) (by decide)
  have hlist := congrArg String.toList h
  simp only [itemPath, String.toList_append, Nat.toString_eq_repr, Nat.toList_repr,
    List.append_assoc] at hlist
  have hlist := List.append_cancel_left (List.append_cancel_left hlist)
  simp only [← List.append_assoc] at hlist
  have hlist := List.append_cancel_right hlist
  rw [show ".next[".toList = ".next".toList ++ ['['] from rfl, ← List.append_assoc,
    ← List.append_assoc, List.append_assoc, List.append_assoc _ ['[']] at hlist
  obtain ⟨hname, hdigits⟩ := append_cons_inj (hbracket i) (hbracket i') hlist
  refine ⟨String.toList_injective (List.append_cancel_right hname), ?_⟩
  rw [← @Nat.ofDigitChars_ten_toDigits i, hdigits, Nat.ofDigitChars_ten_toDigits]

/-! ## What a visit does -/

/-- The names under the `do` of each transition, with its index. -/
def itemsOf (ts : TaskSpec) : List (ℕ × String) :=
  ts.next.zipIdx.flatMap fun e => e.1.doTasks.map fun n => (e.2, n)

variable {spec : WorkflowSpec} {parent : SpecPaths} {s s' : Traversal} {t u : String}
  {ts : TaskSpec} {item : ℕ × String} {items : List (ℕ × String)}

theorem mem_itemsOf :
    item ∈ itemsOf ts ↔ ∃ tr, ts.next[item.1]? = some tr ∧ item.2 ∈ tr.doTasks := by
  rw [itemsOf, List.mem_flatMap]
  constructor
  · rintro ⟨⟨tr, i⟩, htr, hitem⟩
    obtain ⟨n, hn, rfl⟩ := List.mem_map.mp hitem
    exact ⟨tr, List.mem_zipIdx_iff_getElem?.mp htr, hn⟩
  · rintro ⟨tr, htr, hn⟩
    exact ⟨(tr, item.1), List.mem_zipIdx_iff_getElem?.mpr htr, List.mem_map.mpr ⟨item.2, hn, rfl⟩⟩

theorem leads_iff_items (hts : spec.getTask t = .ok ts) :
    spec.Leads t u ↔ ∃ i, (i, u) ∈ itemsOf ts := by
  rw [WorkflowSpec.leads_iff]
  constructor
  · rintro ⟨ts', hts', tr, htr, hu⟩
    rw [hts] at hts'
    cases hts'
    obtain ⟨i, hi⟩ := List.mem_iff_getElem?.mp htr
    exact ⟨i, mem_itemsOf.mpr ⟨tr, hi, hu⟩⟩
  · rintro ⟨i, hi⟩
    obtain ⟨tr, htr, hu⟩ := mem_itemsOf.mp hi
    exact ⟨ts, hts, tr, List.mem_of_getElem? htr, hu⟩

theorem visit_eq (hts : spec.getTask t = .ok ts) : visit spec parent s t = .ok ((itemsOf ts).foldl
    (checkName spec parent t) { s with traversed := s.traversed ++ [t] }) := by
  rw [visit, hts, itemsOf, List.foldl_flatMap]
  rfl

/-- The tasks that were not queued yet, and those in the queue: what there is left to do. -/
def work (spec : WorkflowSpec) (s : Traversal) : ℕ :=
  s.queue.length + ((spec.tasks.map Prod.fst).filter fun k => k ∉ s.queuedTask).length

/-- What looking at names does: the names that are new are queued, and those that are not
defined are reported. -/
structure Checked (spec : WorkflowSpec) (parent : SpecPaths) (t : String)
    (items : List (ℕ × String)) (s s' : Traversal) : Prop where
  traversed : s'.traversed = s.traversed
  queue : ∀ x, x ∈ s'.queue → x ∈ s.queue ∨ (x ∈ items.map Prod.snd ∧ spec.hasTask x = true)
  kept : ∀ x, x ∈ s.queue → x ∈ s'.queue
  queued : ∀ x, x ∈ s'.queuedTask → x ∈ s.queuedTask ∨ x ∈ s'.queue
  seen : ∀ x ∈ items.map Prod.snd, spec.hasTask x = true → isReserved x = false →
    x ∈ s'.traversed ∨ x ∈ s'.queuedTask
  grown : ∀ x, x ∈ s.queuedTask → x ∈ s'.queuedTask
  result : s'.result = s.result ++ (items.filter fun item => !spec.hasTask item.2).map
    fun item => undefinedTask parent t item.1 item.2
  work : work spec s' ≤ work spec s

/-- Nothing is queued if all that is defined was seen before. -/
theorem checked_result (hseen : ∀ x ∈ items.map Prod.snd, spec.hasTask x = true →
    isReserved x = false → x ∈ s.traversed ∨ x ∈ s.queuedTask) :
    Checked spec parent t items s { s with
      result := s.result ++ (items.filter fun item => !spec.hasTask item.2).map
        fun item => undefinedTask parent t item.1 item.2 } where
  traversed := rfl
  queue := fun _ hx => .inl hx
  kept := fun _ hx => hx
  queued := fun _ hx => .inl hx
  seen := hseen
  grown := fun _ hx => hx
  result := rfl
  work := le_rfl

theorem Checked.trans {s₁ s₂ : Traversal} {items' : List (ℕ × String)}
    (h : Checked spec parent t items s s₁) (h' : Checked spec parent t items' s₁ s₂) :
    Checked spec parent t (items ++ items') s s₂ where
  traversed := h'.traversed.trans h.traversed
  queue := by
    intro x hx
    rw [List.map_append, List.mem_append]
    rcases h'.queue x hx with hx | ⟨hx, hdef⟩
    · exact (h.queue x hx).imp_right fun hx => ⟨.inl hx.1, hx.2⟩
    · exact .inr ⟨.inr hx, hdef⟩
  kept := fun x hx => h'.kept x (h.kept x hx)
  queued := by
    intro x hx
    rcases h'.queued x hx with hx | hx
    · exact (h.queued x hx).imp_right (h'.kept x)
    · exact .inr hx
  seen := by
    intro x hx hdef hres
    rw [List.map_append, List.mem_append] at hx
    rcases hx with hx | hx
    · rcases h.seen x hx hdef hres with hx | hx
      · exact .inl (h'.traversed ▸ hx)
      · exact .inr (h'.grown x hx)
    · exact h'.seen x hx hdef hres
  grown := fun x hx => h'.grown x (h.grown x hx)
  result := by
    rw [h'.result, h.result, List.filter_append, List.map_append, List.append_assoc]
  work := h'.work.trans h.work

/-- Queueing a task that was not queued leaves no more to do. -/
theorem work_queue (hdef : spec.hasTask u = true) (hres : isReserved u = false)
    (hu : u ∉ s.queuedTask) :
    work spec { s with queue := s.queue ++ [u], queuedTask := s.queuedTask ++ [u] }
      ≤ work spec s := by
  have hkey : u ∈ (spec.tasks.map Prod.fst).filter fun k => k ∉ s.queuedTask := by
    rw [WorkflowSpec.hasTask, hres, Bool.false_or, List.lookup_isSome_iff] at hdef
    obtain ⟨e, he, hname⟩ := hdef
    rw [List.mem_filter]
    exact ⟨List.mem_map.mpr ⟨e, he, (beq_iff_eq.mp hname).symm⟩, decide_eq_true hu⟩
  have hfilter : (spec.tasks.map Prod.fst).filter (fun k => k ∉ s.queuedTask ++ [u])
      = ((spec.tasks.map Prod.fst).filter fun k => k ∉ s.queuedTask).filter (· ≠ u) := by
    rw [List.filter_filter]
    refine List.filter_congr fun k _ => ?_
    simp [and_comm]
  have hlt := List.length_filter_lt_length_iff_exists (p := fun k => decide (k ≠ u)).mpr
    ⟨u, hkey, by simp⟩
  rw [work, work]
  simp only [hfilter, List.length_append, List.length_singleton]
  omega

/-- Looking at one name. -/
theorem checkName_checked (htrav : ∀ x ∈ s.traversed, spec.hasTask x = true)
    (item : ℕ × String) : Checked spec parent t [item] s (checkName spec parent t s item) := by
  have hone : ∀ x ∈ [item].map Prod.snd, x = item.2 := by simp
  rw [checkName]
  split
  · rename_i hmem
    have := @checked_result spec parent s t [item] fun x hx _ _ => .inl (hone x hx ▸ hmem)
    simpa [htrav _ hmem] using this
  · split
    · rename_i hdef
      split
      · rename_i hnew
        obtain ⟨hres, -, hqueued⟩ := hnew
        constructor
        · rfl
        · intro x hx
          refine (List.mem_append.mp hx).imp_right fun hx => ?_
          obtain rfl := List.mem_singleton.mp hx
          exact ⟨List.mem_cons_self, hdef⟩
        · exact fun x hx => List.mem_append_left _ hx
        · intro x hx
          exact (List.mem_append.mp hx).imp_right fun hx => List.mem_append_right _ hx
        · intro x hx _ _
          exact .inr (List.mem_append_right _ hx)
        · exact fun x hx => List.mem_append_left _ hx
        · simp [hdef]
        · exact work_queue hdef hres hqueued
      · rename_i hmem hold
        have hseen : ∀ x ∈ [item].map Prod.snd, spec.hasTask x = true → isReserved x = false →
            x ∈ s.traversed ∨ x ∈ s.queuedTask := by
          intro x hx _ hres
          rw [hone x hx] at hres ⊢
          refine .inr ?_
          by_contra hqueued
          exact hold ⟨hres, hmem, hqueued⟩
        have := @checked_result spec parent s t [item] hseen
        simpa [hdef] using this
    · rename_i hundef
      have := @checked_result spec parent s t [item] fun x hx hdef _ =>
        absurd (hone x hx ▸ hdef) hundef
      simpa [hundef] using this

theorem foldl_checked (htrav : ∀ x ∈ s.traversed, spec.hasTask x = true) :
    Checked spec parent t items s (items.foldl (checkName spec parent t) s) := by
  induction items generalizing s with
  | nil => simpa using @checked_result spec parent s t [] fun _ hx => nomatch hx
  | cons item items ih =>
    have hone := @checkName_checked spec parent s t htrav item
    exact hone.trans (ih (hone.traversed.symm ▸ htrav))

/-! ## The traversal -/

/-- What holds between two tasks of the queue: the tasks that are reachable from those that
were traversed are in the queue or were traversed, and what was reported is of these. -/
structure Inspected (spec : WorkflowSpec) (parent : SpecPaths) (s : Traversal) : Prop where
  reached : ∀ x, x ∈ s.queue ∨ x ∈ s.traversed → spec.FromStart x ∧ spec.hasTask x = true
  queued : ∀ x ∈ s.queuedTask, x ∈ s.queue ∨ x ∈ s.traversed
  starts : ∀ x ∈ spec.getStartTasks, x ∈ s.queue ∨ x ∈ s.traversed
  closed : ∀ y ∈ s.traversed, ∀ x, spec.Leads y x → spec.hasTask x = true →
    isReserved x = false → x ∈ s.queue ∨ x ∈ s.traversed
  result : ∀ e, e ∈ s.result ↔ ∃ y ∈ s.traversed, ∃ ts, spec.getTask y = .ok ts ∧
    ∃ item ∈ itemsOf ts, spec.hasTask item.2 = false ∧ e = undefinedTask parent y item.1 item.2

/-- A task is visited without an error. -/
theorem visit_inspected {queue : List String} (hs : Inspected spec parent s)
    (hqueue : s.queue = t :: queue) :
    ∃ s', visit spec parent { s with queue := queue } t = .ok s' ∧ Inspected spec parent s' ∧
      work spec s' < work spec s := by
  obtain ⟨hstart, hdef⟩ := hs.reached t (.inl (hqueue ▸ List.mem_cons_self))
  obtain ⟨ts, hts⟩ := WorkflowSpec.hasTask_iff.mp hdef
  have htrav : ∀ x ∈ s.traversed ++ [t], spec.hasTask x = true := by
    intro x hx
    rcases List.mem_append.mp hx with hx | hx
    · exact (hs.reached x (.inr hx)).2
    · exact List.mem_singleton.mp hx ▸ hdef
  have hc := @foldl_checked spec parent { s with queue := queue, traversed := s.traversed ++ [t] }
    t (itemsOf ts) htrav
  refine ⟨_, visit_eq hts, ?_, ?_⟩
  · generalize (itemsOf ts).foldl (checkName spec parent t)
      { s with queue := queue, traversed := s.traversed ++ [t] } = s' at hc
    have hold : ∀ x, x ∈ s.queue ∨ x ∈ s.traversed → x ∈ s'.queue ∨ x ∈ s'.traversed := by
      rw [hc.traversed, hqueue]
      rintro x (hx | hx)
      · rcases List.mem_cons.mp hx with rfl | hx
        · exact .inr (List.mem_append_right _ List.mem_cons_self)
        · exact .inl (hc.kept x hx)
      · exact .inr (List.mem_append_left _ hx)
    have hqueued : ∀ x ∈ s'.queuedTask, x ∈ s'.queue ∨ x ∈ s'.traversed := by
      intro x hx
      rcases hc.queued x hx with hx | hx
      · exact hold x (hs.queued x hx)
      · exact .inl hx
    refine ⟨?_, hqueued, fun x hx => hold x (hs.starts x hx), ?_, ?_⟩
    · rintro x (hx | hx)
      · rcases hc.queue x hx with hx | ⟨hx, hdefx⟩
        · exact hs.reached x (.inl (hqueue ▸ List.mem_cons_of_mem t hx))
        · obtain ⟨item, hitem, rfl⟩ := List.mem_map.mp hx
          exact ⟨hstart.next ((leads_iff_items hts).mpr ⟨item.1, hitem⟩), hdefx⟩
      · rw [hc.traversed] at hx
        rcases List.mem_append.mp hx with hx | hx
        · exact hs.reached x (.inr hx)
        · exact List.mem_singleton.mp hx ▸ ⟨hstart, hdef⟩
    · intro y hy x hleads hdefx hres
      rw [hc.traversed] at hy
      rcases List.mem_append.mp hy with hy | hy
      · exact hold x (hs.closed y hy x hleads hdefx hres)
      · obtain rfl := List.mem_singleton.mp hy
        obtain ⟨i, hi⟩ := (leads_iff_items hts).mp hleads
        rcases hc.seen x (List.mem_map.mpr ⟨(i, x), hi, rfl⟩) hdefx hres with hx | hx
        · exact .inr hx
        · exact hqueued x hx
    · intro e
      rw [hc.result, hc.traversed, List.mem_append, hs.result]
      simp only [List.mem_append, List.mem_singleton, List.mem_map, List.mem_filter,
        Bool.not_eq_true']
      constructor
      · rintro (⟨y, hy, h⟩ | ⟨item, ⟨hitem, hundef⟩, rfl⟩)
        · exact ⟨y, .inl hy, h⟩
        · exact ⟨t, .inr rfl, ts, hts, item, hitem, hundef, rfl⟩
      · rintro ⟨y, hy | rfl, us, hus, item, hitem, hundef, rfl⟩
        · exact .inl ⟨y, hy, us, hus, item, hitem, hundef, rfl⟩
        · rw [hts] at hus
          cases hus
          exact .inr ⟨item, ⟨hitem, hundef⟩, rfl⟩
  · refine hc.work.trans_lt ?_
    rw [work, work, hqueue, List.length_cons]
    exact Nat.add_lt_add_right (Nat.lt_succ_self _) _

theorem loop_inspected {fuel : ℕ} (hs : Inspected spec parent s) (hfuel : work spec s ≤ fuel) :
    ∃ s', loop spec parent fuel s = .ok s'.result ∧ Inspected spec parent s' ∧ s'.queue = [] := by
  induction fuel generalizing s with
  | zero =>
    have hq : s.queue = [] := by
      rw [work] at hfuel
      exact List.length_eq_zero_iff.mp (by omega)
    exact ⟨s, by rw [loop, if_pos hq]; rfl, hs, hq⟩
  | succ fuel ih =>
    match hq : s.queue with
    | [] => exact ⟨s, by rw [loop, hq]; rfl, hs, hq⟩
    | t :: queue =>
      obtain ⟨s₁, hvisit, hs₁, hwork⟩ := visit_inspected hs hq
      obtain ⟨s', hloop, h⟩ := ih hs₁ (by omega)
      refine ⟨s', ?_, h⟩
      rw [loop, hq]
      dsimp only
      rw [hvisit, bind_ok, hloop]

/-! ## What is reported -/

/-- **The traversal ends**, and an entry is reported for each name under a `do` of a task that
is reachable that is not defined. -/
theorem detects (spec : WorkflowSpec) (parent : SpecPaths) :
    ∃ result, spec.detectUndefinedTasks parent = .ok result ∧
      ∀ e, e ∈ result ↔ ∃ t, spec.FromStart t ∧ ∃ ts, spec.getTask t = .ok ts ∧
        ∃ item ∈ itemsOf ts, spec.hasTask item.2 = false ∧
          e = undefinedTask parent t item.1 item.2 := by
  have hstarts : spec.getStartTasks.length ≤ spec.tasks.length := by
    rw [WorkflowSpec.getStartTasks, List.length_insertionSort]
    exact (List.length_filter_le _ _).trans_eq (List.length_map _)
  have hinit : Inspected spec parent ⟨spec.getStartTasks, [], [], []⟩ := by
    refine ⟨?_, fun x hx => ?_, fun x hx => .inl hx, fun y hy => ?_, ?_⟩
    · rintro x (hx | hx)
      · exact ⟨WorkflowSpec.fromStart_start hx, WorkflowSpec.hasTask_start hx⟩
      · cases hx
    · cases hx
    · cases hy
    · intro e
      refine iff_of_false List.not_mem_nil ?_
      rintro ⟨y, hy, -⟩
      cases hy
  have hfuel : work spec ⟨spec.getStartTasks, [], [], []⟩ ≤ 2 * spec.tasks.length := by
    have := List.length_filter_le (fun k => decide (k ∉ ([] : List String)))
      (spec.tasks.map Prod.fst)
    rw [List.length_map] at this
    rw [work]
    dsimp only
    omega
  obtain ⟨s, hloop, hs, hqueue⟩ := loop_inspected hinit hfuel
  refine ⟨s.result, hloop, fun e => ?_⟩
  have htraversed : ∀ x, spec.FromStart x → spec.hasTask x = true → isReserved x = false →
      x ∈ s.traversed := by
    rintro x ⟨start, hstart, hreach⟩
    have hnil : ∀ {x}, x ∈ s.queue ∨ x ∈ s.traversed → x ∈ s.traversed := by
      rw [hqueue]
      exact fun h => h.resolve_left List.not_mem_nil
    induction hreach with
    | refl => exact fun _ _ => hnil (hs.starts start hstart)
    | tail _ hstep ih =>
      intro hdef hres
      obtain ⟨ts, hts, -⟩ := id hstep
      have hprev := ih (WorkflowSpec.hasTask_iff.mpr ⟨ts, hts⟩)
        (WorkflowSpec.not_reserved_of_leads hstep)
      exact hnil (hs.closed _ hprev _ hstep hdef hres)
  rw [hs.result]
  constructor
  · rintro ⟨t, ht, h⟩
    exact ⟨t, (hs.reached t (.inr ht)).1, h⟩
  · rintro ⟨t, ht, ts, hts, item, hitem, h⟩
    refine ⟨t, htraversed t ht (WorkflowSpec.hasTask_iff.mpr ⟨ts, hts⟩) ?_, ts, hts, item, hitem, h⟩
    exact WorkflowSpec.not_reserved_of_leads ((leads_iff_items hts).mpr ⟨item.1, hitem⟩)

/-- Where nothing is reported all tasks that are reachable are defined. -/
theorem defined_of_detected (h : spec.detectUndefinedTasks parent = .ok []) : spec.Defined := by
  obtain ⟨result, hresult, hentries⟩ := detects spec parent
  rw [h] at hresult
  cases hresult
  rintro x ⟨start, hstart, hreach⟩
  cases hreach with
  | refl => exact WorkflowSpec.hasTask_start hstart
  | tail hreach hstep =>
    by_contra hundef
    rw [Bool.not_eq_true] at hundef
    obtain ⟨ts, hts, -⟩ := id hstep
    obtain ⟨i, hi⟩ := (leads_iff_items hts).mp hstep
    have := (hentries _).mpr ⟨_, ⟨start, hstart, hreach⟩, ts, hts, (i, x), hi, hundef, rfl⟩
    cases this

/-- **Inspection covers composition**: a transition of a task that is reachable is reported
exactly if it names a task that is not defined, nothing else is, and where nothing is reported
the composer raises nothing. -/
theorem inspection_covers (spec : WorkflowSpec) (parent : SpecPaths) :
    ∃ result, spec.detectUndefinedTasks parent = .ok result ∧
      (∀ t ts i tr, spec.FromStart t → spec.getTask t = .ok ts → ts.next[i]? = some tr →
        ((∃ e ∈ result, e.specPath = itemPath parent t i) ↔
          ∃ n ∈ tr.doTasks, spec.hasTask n = false)) ∧
      (∀ e ∈ result, ∃ t i n, spec.FromStart t ∧ spec.Leads t n ∧ spec.hasTask n = false ∧
        e = undefinedTask parent t i n) ∧
      (result = [] → ∃ fuel g, ∀ fuel', fuel ≤ fuel' → compose fuel' spec = .ok (some g)) := by
  obtain ⟨result, hresult, hentries⟩ := detects spec parent
  refine ⟨result, hresult, ?_, ?_, ?_⟩
  · intro t ts i tr ht hts htr
    constructor
    · rintro ⟨e, he, hpath⟩
      obtain ⟨t', -, ts', hts', item, hitem, hundef, rfl⟩ := (hentries e).mp he
      -- the path tells which transition it is
      obtain ⟨rfl, rfl⟩ := itemPath_inj hpath
      rw [hts] at hts'
      cases hts'
      obtain ⟨tr', htr', hn⟩ := mem_itemsOf.mp hitem
      rw [htr] at htr'
      cases htr'
      exact ⟨item.2, hn, hundef⟩
    · rintro ⟨n, hn, hundef⟩
      refine ⟨undefinedTask parent t i n, (hentries _).mpr ?_, rfl⟩
      exact ⟨t, ht, ts, hts, (i, n), mem_itemsOf.mpr ⟨tr, htr, hn⟩, hundef, rfl⟩
  · intro e he
    obtain ⟨t, ht, ts, hts, item, hitem, hundef, rfl⟩ := (hentries e).mp he
    exact ⟨t, item.1, item.2, ht, (leads_iff_items hts).mpr ⟨item.1, hitem⟩, hundef, rfl⟩
  · rintro rfl
    obtain ⟨fuel, g, h⟩ := WorkflowSpec.composes (defined_of_detected hresult)
    exact ⟨fuel, g, fun fuel' hle => Composition.loop_mono h hle⟩

end Inspection

end Orquesta
end IntegratedCLI
