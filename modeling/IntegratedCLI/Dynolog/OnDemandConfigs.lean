import IntegratedCLI.Lib.Run
import IntegratedCLI.Dynolog.LibkinetoConfigManager

/-!
# Every config is delivered once

What clients and processes are told, in the order in which they are told it, is a
list of notes: that a config was triggered, that a process is busy, what a process
was replied, and that a process was forgotten.  `Pending` is what a reader of the
notes knows to be on its way: for every process and type the config that was
triggered and not returned yet.  `Pending.Accepts` says when a note is right.

* A config is triggered only where none is pending.
* Only a process with a pending config is busy.
* A reply consists of the pending configs of the types that were asked for, which
  are pending no longer.

`Tracked.delivered` says that all notes are right, in every run, as long as no empty
config is set for events.  The manager takes an empty config for none: it reports the
event profiler as triggered and stores nothing.
-/

namespace IntegratedCLI
namespace Dynolog

/-! ## Notes -/

/-- Whom a config is for: a process of a job, and the type of the config. -/
structure Recipient where
  jobId : String
  pids : PidSet
  type : LibkinetoConfigType
  deriving DecidableEq, Repr

inductive Note where
  | triggered (r : Recipient) (config : String)
  | busy (r : Recipient)
  | replied (jobId : String) (pids : PidSet) (configType : BitVec 32) (ret : String)
  | collected (jobId : String) (pids : PidSet)
  deriving DecidableEq, Repr

/-- The configs that were triggered and not returned. -/
abbrev Pending := Recipient → Option String

namespace Pending

/-- What a process that asks is to be returned for a type. -/
def due (p : Pending) (jobId : String) (pids : PidSet) (configType : BitVec 32)
    (t : LibkinetoConfigType) : String :=
  if t.isIn configType then (p ⟨jobId, pids, t⟩).elim "" (· ++ "\n") else ""

/-- The note is right. -/
def Accepts (p : Pending) : Note → Prop
  | .triggered r _ => p r = none
  | .busy r => p r ≠ none
  | .replied jobId pids configType ret =>
    ret = p.due jobId pids configType .events ++ p.due jobId pids configType .activities
  | .collected _ _ => True

/-- What is pending after a note. -/
def next (p : Pending) : Note → Pending
  | .triggered r config => Function.update p r (some config)
  | .busy _ => p
  | .replied jobId pids configType _ => fun r =>
    if r.jobId = jobId ∧ r.pids = pids ∧ r.type.isIn configType then none else p r
  | .collected jobId pids => fun r => if r.jobId = jobId ∧ r.pids = pids then none else p r

instance (p : Pending) : DecidablePred p.Accepts
  | .triggered _ _ => inferInstanceAs (Decidable (_ = _))
  | .busy _ => inferInstanceAs (Decidable (_ ≠ _))
  | .replied _ _ _ _ => inferInstanceAs (Decidable (_ = _))
  | .collected _ _ => isTrue trivial

/-- The note is a reply to the recipient, or forgets it. -/
def Settles (r : Recipient) : Note → Prop
  | .replied jobId pids configType _ =>
    r.jobId = jobId ∧ r.pids = pids ∧ r.type.isIn configType = true
  | .collected jobId pids => r.jobId = jobId ∧ r.pids = pids
  | _ => False

/-- Where all notes are right, a pending config stays as it is until the process asks
for it or is forgotten: nothing else is triggered for the recipient. -/
theorem pending_until {p : Pending} {r : Recipient} {config : String} {notes : List Note}
    (h : p r = some config) (ha : Run.Along next Accepts p notes)
    (hn : ∀ n ∈ notes, ¬ Settles r n) : notes.foldl next p r = some config := by
  induction notes generalizing p with
  | nil => exact h
  | cons n notes ih =>
    refine ih ?_ ha.2 fun n' hn' => hn n' (by simp [hn'])
    have hs := hn n (by simp)
    cases n with
    | triggered r' c =>
      have hne : r ≠ r' := fun he => by
        have hnone : p r' = none := ha.1
        rw [← he, h] at hnone
        exact absurd hnone (Option.some_ne_none config)
      show Function.update p r' (some c) r = some config
      rw [Function.update_of_ne hne, h]
    | busy r' => exact h
    | replied jobId pids configType ret => exact (if_neg hs).trans h
    | collected jobId pids => exact (if_neg hs).trans h

end Pending

/-! ## Calls -/

inductive Call where
  | obtain (jobId : String) (pid : ℤ) (ancestors : List ℤ) (configType : BitVec 32) (now : ℤ)
  | set (jobId : String) (pids : PidSet) (config : String) (configType limit : BitVec 32)
    (traceId : ℤ → String)
  | gc (now : ℤ)

/-- What the result says about a process that was visited: which lists and counters
have grown. -/
def eventReports (jobId : String) (key : PidSet) (config : String)
    (res res' : GpuProfilerResult) : List Note :=
  (if res.eventProfilersTriggered.length < res'.eventProfilersTriggered.length then
    [.triggered ⟨jobId, key, .events⟩ config] else []) ++
  (if res.eventProfilersBusy < res'.eventProfilersBusy then
    [.busy ⟨jobId, key, .events⟩] else [])

/-- The config for activities is the one with the trace id that was reported last. -/
def activityReports (jobId : String) (key : PidSet) (config : String)
    (res res' : GpuProfilerResult) : List Note :=
  (if res.activityProfilersTriggered.length < res'.activityProfilersTriggered.length then
    [.triggered ⟨jobId, key, .activities⟩
      (addTraceIdToConfigString (res'.traceIds.getLastD "") config)] else []) ++
  (if res.activityProfilersBusy < res'.activityProfilersBusy then
    [.busy ⟨jobId, key, .activities⟩] else [])

/-- What is said about one process. -/
def visitReports (jobId config : String) (key : PidSet) (res res' : GpuProfilerResult) :
    List Note :=
  eventReports jobId key config res res' ++ activityReports jobId key config res res'

/-- What a request says about the processes of a job. -/
def setNotes (jobId config : String)
    (visit : GpuProfilerResult → PidSet → LibkinetoProcess → GpuProfilerResult × LibkinetoProcess) :
    GpuProfilerResult → List (PidSet × LibkinetoProcess) → List Note
  | _, [] => []
  | res, e :: es =>
    let res' := (visit res e.1 e.2).1
    visitReports jobId config e.1 res res' ++ setNotes jobId config visit res' es

/-- The processes that are forgotten. -/
def staleProcesses (jobs : Jobs) (now : ℤ) : List (String × PidSet) :=
  jobs.entries.flatMap fun job =>
    (job.2.entries.filter fun e => e.2.isStale now).map fun e => (job.1, e.1)

/-- What is said in a call. -/
def notes (jobs : Jobs) : Call → List Note
  | .obtain jobId pid ancestors configType now =>
    [.replied jobId (pidSet (pid :: ancestors)) configType
      (obtainOnDemandConfig jobs jobId pid ancestors configType now).1]
  | .set jobId pids config configType limit traceId =>
    setNotes jobId config (visitProcess pids traceId config configType limit) .none
      ((jobs.get? jobId).elim [] (·.entries))
  | .gc now => (staleProcesses jobs now).map fun p => .collected p.1 p.2

/-- The table after a call. -/
def perform (jobs : Jobs) : Call → Jobs
  | .obtain jobId pid ancestors configType now =>
    (obtainOnDemandConfig jobs jobId pid ancestors configType now).2
  | .set jobId pids config configType limit traceId =>
    (setOnDemandConfig jobs jobId pids config configType limit traceId).2
  | .gc now => runGc jobs now

/-- The table, with what is pending. -/
structure Tracked where
  jobs : Jobs
  pending : Pending

namespace Tracked

def init : Tracked := ⟨.empty, fun _ => none⟩

def step (t : Tracked) (c : Call) : Tracked :=
  ⟨perform t.jobs c, (notes t.jobs c).foldl Pending.next t.pending⟩

/-- All that is said in the call is right. -/
def Exact (t : Tracked) (c : Call) : Prop :=
  Run.Along Pending.next Pending.Accepts t.pending (notes t.jobs c)

/-- No empty config is set for events. -/
def Nonempty (_ : Tracked) : Call → Prop
  | .set _ _ config configType _ _ =>
    LibkinetoConfigType.events.isIn configType = true → config ≠ ""
  | _ => True

instance (t : Tracked) (c : Call) : Decidable (t.Exact c) :=
  inferInstanceAs (Decidable (Run.Along _ _ _ _))

instance (t : Tracked) : DecidablePred t.Nonempty
  | .set _ _ _ _ _ _ => inferInstanceAs (Decidable (_ → _))
  | .obtain _ _ _ _ _ => isTrue trivial
  | .gc _ => isTrue trivial

end Tracked

/-! ## The table and what is pending -/

/-- The config of a process, if it has one. -/
def LibkinetoProcess.slot (process : LibkinetoProcess) : LibkinetoConfigType → Option String
  | .events =>
    if process.eventProfilerConfig = "" then none else some process.eventProfilerConfig
  | .activities =>
    if process.activityProfilerConfig = "" then none else some process.activityProfilerConfig

/-- What is pending are the configs in the table. -/
def Agrees (jobs : Jobs) (p : Pending) : Prop :=
  ∀ r, p r = (find jobs r.jobId r.pids).bind fun process => process.slot r.type

theorem agrees_init : Agrees Tracked.init.jobs Tracked.init.pending := fun _ => rfl

/-! ### Asking -/

section Obtain

variable {p : Pending} {jobs : Jobs} {jobId : String} {pid now : ℤ} {ancestors : List ℤ}
  {configType : BitVec 32} {process : LibkinetoProcess}

theorem obtainEvents_fst : (process.obtainEvents configType).1
    = if LibkinetoConfigType.events.isIn configType then
        (process.slot .events).elim "" (· ++ "\n") else "" := by
  unfold LibkinetoProcess.obtainEvents LibkinetoProcess.slot
  by_cases h : process.eventProfilerConfig = ""
  · simp [h]
  · cases LibkinetoConfigType.events.isIn configType <;> simp [h]

theorem obtainEvents_slot (t : LibkinetoConfigType) :
    (process.obtainEvents configType).2.slot t
      = if t = .events ∧ t.isIn configType then none else process.slot t := by
  unfold LibkinetoProcess.obtainEvents
  by_cases h : process.eventProfilerConfig = ""
  · cases t <;> simp [h, LibkinetoProcess.slot]
  · cases t <;> cases LibkinetoConfigType.events.isIn configType <;>
      simp [h, LibkinetoProcess.slot]

theorem obtainActivities_fst : (process.obtainActivities configType).1
    = if LibkinetoConfigType.activities.isIn configType then
        (process.slot .activities).elim "" (· ++ "\n") else "" := by
  unfold LibkinetoProcess.obtainActivities LibkinetoProcess.slot
  by_cases h : process.activityProfilerConfig = ""
  · simp [h]
  · cases LibkinetoConfigType.activities.isIn configType <;> simp [h]

theorem obtainActivities_slot (t : LibkinetoConfigType) :
    (process.obtainActivities configType).2.slot t
      = if t = .activities ∧ t.isIn configType then none else process.slot t := by
  unfold LibkinetoProcess.obtainActivities
  by_cases h : process.activityProfilerConfig = ""
  · cases t <;> simp [h, LibkinetoProcess.slot]
  · cases t <;> cases LibkinetoConfigType.activities.isIn configType <;>
      simp [h, LibkinetoProcess.slot]

theorem obtain_fst : (process.obtain configType).1
    = (if LibkinetoConfigType.events.isIn configType then
        (process.slot .events).elim "" (· ++ "\n") else "")
      ++ if LibkinetoConfigType.activities.isIn configType then
        (process.slot .activities).elim "" (· ++ "\n") else "" := by
  have hslot : (process.obtainEvents configType).2.slot .activities = process.slot .activities := by
    rw [obtainEvents_slot, if_neg (fun h => LibkinetoConfigType.noConfusion h.1)]
  rw [LibkinetoProcess.obtain, obtainEvents_fst, obtainActivities_fst, hslot]

/-- The types that were asked for have no config left. -/
theorem obtain_slot (t : LibkinetoConfigType) : (process.obtain configType).2.slot t
    = if t.isIn configType then none else process.slot t := by
  rw [LibkinetoProcess.obtain, obtainActivities_slot, obtainEvents_slot]
  cases t <;> simp

theorem find_obtain (j : String) (k : PidSet) :
    find (obtainOnDemandConfig jobs jobId pid ancestors configType now).2 j k
      = if j = jobId ∧ k = pidSet (pid :: ancestors) then
          some { (((find jobs jobId (pidSet (pid :: ancestors))).getD ⟨pid, 0, "", ""⟩).obtain
            configType).2 with lastRequestTime := now }
        else find jobs j k := by
  unfold obtainOnDemandConfig
  dsimp only
  generalize ({ (((find jobs jobId (pidSet (pid :: ancestors))).getD ⟨pid, 0, "", ""⟩).obtain
    configType).2 with lastRequestTime := now } : LibkinetoProcess) = process
  unfold find
  rw [OrderedMap.get?_modify, OrderedMap.get?_emplace, OrderedMap.get?_emplace]
  by_cases hj : j = jobId
  · rw [if_pos hj, if_pos rfl, Option.map_some, Option.bind_some, OrderedMap.get?_modify,
      OrderedMap.get?_emplace, OrderedMap.get?_emplace]
    by_cases hk : k = pidSet (pid :: ancestors)
    · rw [if_pos hk, if_pos rfl, if_pos ⟨hj, hk⟩]
      rfl
    · rw [if_neg hk, if_neg hk, if_neg fun h => hk h.2, hj]
      cases jobs.get? jobId <;> rfl
  · rw [if_neg hj, if_neg hj, if_neg fun h => hj h.1]

/-- A new process has no config. -/
theorem slot_getD (process : Option LibkinetoProcess) (t : LibkinetoConfigType) :
    (process.getD ⟨pid, 0, "", ""⟩).slot t = process.bind fun process => process.slot t := by
  cases process with
  | none => cases t <;> rfl
  | some process => rfl

theorem slot_lastRequestTime (t : LibkinetoConfigType) :
    { process with lastRequestTime := now }.slot t = process.slot t := by
  cases t <;> rfl

theorem exact_obtain (h : Agrees jobs p) :
    Run.Along Pending.next Pending.Accepts p
        (notes jobs (.obtain jobId pid ancestors configType now)) ∧
      Agrees (perform jobs (.obtain jobId pid ancestors configType now))
        ((notes jobs (.obtain jobId pid ancestors configType now)).foldl Pending.next p) := by
  refine ⟨⟨?_, trivial⟩, fun r => ?_⟩
  · show (obtainOnDemandConfig jobs jobId pid ancestors configType now).1 = _
    have hp : ∀ t, p ⟨jobId, pidSet (pid :: ancestors), t⟩
        = ((find jobs jobId (pidSet (pid :: ancestors))).getD ⟨pid, 0, "", ""⟩).slot t :=
      fun t => (h _).trans (slot_getD _ t).symm
    unfold Pending.due
    rw [hp, hp, obtainOnDemandConfig]
    exact obtain_fst
  · show (if _ then none else p r) = (find (obtainOnDemandConfig _ _ _ _ _ _).2 _ _).bind _
    rw [find_obtain, h r]
    by_cases hr : r.jobId = jobId ∧ r.pids = pidSet (pid :: ancestors)
    · rw [if_pos hr, Option.bind_some, slot_lastRequestTime, obtain_slot, slot_getD, hr.1, hr.2]
      by_cases ht : r.type.isIn configType = true
      · rw [if_pos ht, if_pos ⟨rfl, rfl, ht⟩]
      · rw [if_neg ht, if_neg fun h => ht h.2.2]
    · rw [if_neg hr, if_neg fun h => hr ⟨h.1, h.2.1⟩]

end Obtain

/-! ### Setting -/

section Set

variable {p : Pending} {jobs : Jobs} {jobId config : String} {key : PidSet}
  {configType limit : BitVec 32} {traceId : ℤ → String} {res : GpuProfilerResult}
  {process : LibkinetoProcess}

/-- One process, and the config for events. -/
theorem exact_setEventConfig (h : p ⟨jobId, key, .events⟩ = process.slot .events)
    (hc : LibkinetoConfigType.events.isIn configType = true → config ≠ "") :
    let r := setEventConfig config configType limit res process
    Run.Along Pending.next Pending.Accepts p (eventReports jobId key config res r.1) ∧
      (eventReports jobId key config res r.1).foldl Pending.next p
        = Function.update p ⟨jobId, key, .events⟩ (r.2.slot .events) := by
  intro r
  have hself : Function.update p ⟨jobId, key, .events⟩ (process.slot .events) = p := by
    rw [← h, Function.update_eq_self]
  unfold r setEventConfig
  split_ifs with hcond hempty
  · -- the config is triggered, and nothing was pending
    have hslot : process.slot .events = none := if_pos hempty
    have hne : config ≠ "" := hc (by simp_all)
    have hnotes : eventReports jobId key config res
        { res with eventProfilersTriggered := res.eventProfilersTriggered ++ [process.pid] }
        = [.triggered ⟨jobId, key, .events⟩ config] := by simp [eventReports]
    have hset : { process with eventProfilerConfig := config }.slot .events = some config :=
      if_neg hne
    rw [hnotes, hset]
    exact ⟨⟨h.trans hslot, trivial⟩, rfl⟩
  · -- the process is busy, and its config is pending
    have hslot : process.slot .events = some process.eventProfilerConfig := if_neg hempty
    have hnotes : eventReports jobId key config res
        { res with eventProfilersBusy := res.eventProfilersBusy + 1 }
        = [.busy ⟨jobId, key, .events⟩] := by simp [eventReports]
    rw [hnotes]
    refine ⟨⟨?_, trivial⟩, hself.symm⟩
    show p _ ≠ none
    rw [h, hslot]
    exact Option.some_ne_none _
  · have hnotes : eventReports jobId key config res res = [] := by simp [eventReports]
    rw [hnotes]
    exact ⟨trivial, hself.symm⟩

theorem addTraceIdToConfigString_ne (traceId config : String) :
    addTraceIdToConfigString traceId config ≠ "" := by
  intro h
  have hl := congrArg String.length h
  simp [addTraceIdToConfigString] at hl

/-- One process, and the config for activities. -/
theorem exact_setActivityConfig (h : p ⟨jobId, key, .activities⟩ = process.slot .activities) :
    let r := setActivityConfig traceId config configType limit res process
    Run.Along Pending.next Pending.Accepts p (activityReports jobId key config res r.1) ∧
      (activityReports jobId key config res r.1).foldl Pending.next p
        = Function.update p ⟨jobId, key, .activities⟩ (r.2.slot .activities) := by
  intro r
  have hself : Function.update p ⟨jobId, key, .activities⟩ (process.slot .activities) = p := by
    rw [← h, Function.update_eq_self]
  unfold r setActivityConfig
  split_ifs with hcond hempty
  · have hslot : process.slot .activities = none := if_pos hempty
    have hnotes : activityReports jobId key config res
        { res with
          activityProfilersTriggered := res.activityProfilersTriggered ++ [process.pid]
          traceIds := res.traceIds ++ [traceId process.pid] }
        = [.triggered ⟨jobId, key, .activities⟩
            (addTraceIdToConfigString (traceId process.pid) config)] := by
      simp [activityReports]
    have hset : { process with activityProfilerConfig :=
        addTraceIdToConfigString (traceId process.pid) config }.slot .activities
        = some (addTraceIdToConfigString (traceId process.pid) config) := by
      rw [LibkinetoProcess.slot, if_neg (addTraceIdToConfigString_ne _ _)]
    dsimp only
    rw [hnotes, hset]
    exact ⟨⟨h.trans hslot, trivial⟩, rfl⟩
  · have hslot : process.slot .activities = some process.activityProfilerConfig := if_neg hempty
    have hnotes : activityReports jobId key config res
        { res with activityProfilersBusy := res.activityProfilersBusy + 1 }
        = [.busy ⟨jobId, key, .activities⟩] := by simp [activityReports]
    rw [hnotes]
    refine ⟨⟨?_, trivial⟩, hself.symm⟩
    show p _ ≠ none
    rw [h, hslot]
    exact Option.some_ne_none _
  · have hnotes : activityReports jobId key config res res = [] := by simp [activityReports]
    rw [hnotes]
    exact ⟨trivial, hself.symm⟩

/-- The reports about events are about what the part about events does. -/
theorem eventReports_visit :
    eventReports jobId key config res
        (setOnDemandConfigForProcess traceId config configType limit res process).1
      = eventReports jobId key config
          { res with processesMatched := res.processesMatched ++ [process.pid] }
          (setEventConfig config configType limit
            { res with processesMatched := res.processesMatched ++ [process.pid] } process).1 := by
  unfold setOnDemandConfigForProcess setActivityConfig eventReports
  dsimp only
  split_ifs <;> rfl

theorem activityReports_visit :
    activityReports jobId key config res
        (setOnDemandConfigForProcess traceId config configType limit res process).1
      = activityReports jobId key config
          (setEventConfig config configType limit
            { res with processesMatched := res.processesMatched ++ [process.pid] } process).1
          (setOnDemandConfigForProcess traceId config configType limit res process).1 := by
  have h : ∀ res : GpuProfilerResult,
      (setEventConfig config configType limit res process).1.activityProfilersTriggered
          = res.activityProfilersTriggered ∧
        (setEventConfig config configType limit res process).1.activityProfilersBusy
          = res.activityProfilersBusy := by
    intro res
    unfold setEventConfig
    split_ifs <;> exact ⟨rfl, rfl⟩
  unfold activityReports
  rw [(h _).1, (h _).2]

theorem slot_setEventConfig : (setEventConfig config configType limit res process).2.slot .activities
    = process.slot .activities := by
  unfold setEventConfig
  split_ifs <;> rfl

theorem slot_setActivityConfig :
    (setActivityConfig traceId config configType limit res process).2.slot .events
      = process.slot .events := by
  unfold setActivityConfig
  split_ifs <;> rfl

/-- One process. -/
theorem exact_visit (pids : PidSet) (h : ∀ t, p ⟨jobId, key, t⟩ = process.slot t)
    (hc : LibkinetoConfigType.events.isIn configType = true → config ≠ "") :
    let r := visitProcess pids traceId config configType limit res key process
    Run.Along Pending.next Pending.Accepts p (visitReports jobId config key res r.1) ∧
      (∀ t, (visitReports jobId config key res r.1).foldl Pending.next p ⟨jobId, key, t⟩
        = r.2.slot t) ∧
      ∀ r', ¬ (r'.jobId = jobId ∧ r'.pids = key) →
        (visitReports jobId config key res r.1).foldl Pending.next p r' = p r' := by
  intro r
  unfold r visitProcess visitReports
  by_cases hm : isMatched pids key
  · rw [if_pos hm, eventReports_visit, activityReports_visit]
    have he := @exact_setEventConfig p jobId config key configType limit
      { res with processesMatched := res.processesMatched ++ [process.pid] } process (h .events) hc
    generalize hr₁ : setEventConfig config configType limit
      { res with processesMatched := res.processesMatched ++ [process.pid] } process = r₁ at he ⊢
    have hact : (Function.update p ⟨jobId, key, .events⟩ (r₁.2.slot .events))
        ⟨jobId, key, .activities⟩ = r₁.2.slot .activities := by
      rw [Function.update_of_ne (by simp), h .activities, ← hr₁, slot_setEventConfig]
    have ha := @exact_setActivityConfig _ jobId config key configType limit traceId r₁.1 r₁.2 hact
    have hset : setOnDemandConfigForProcess traceId config configType limit res process
        = setActivityConfig traceId config configType limit r₁.1 r₁.2 := by
      rw [setOnDemandConfigForProcess, hr₁]
    rw [hset, List.foldl_append, he.2, ha.2]
    refine ⟨Run.along_append.mpr ⟨he.1, he.2 ▸ ha.1⟩, fun t => ?_, fun r' hr' => ?_⟩
    · cases t with
      | events =>
        rw [Function.update_of_ne (by simp), Function.update_self, slot_setActivityConfig]
      | activities => rw [Function.update_self]
    · rw [Function.update_of_ne (fun he => hr' (by rw [he]; exact ⟨rfl, rfl⟩)),
        Function.update_of_ne (fun he => hr' (by rw [he]; exact ⟨rfl, rfl⟩))]
  · have hnotes : eventReports jobId key config res res ++ activityReports jobId key config res res
        = [] := by simp [eventReports, activityReports]
    rw [if_neg hm, hnotes]
    exact ⟨trivial, h, fun _ _ => rfl⟩

/-- All processes of a job. -/
theorem exact_setNotes (pids : PidSet) {es : List (PidSet × LibkinetoProcess)}
    (hs : es.Pairwise fun a b => a.1 < b.1)
    (h : ∀ e ∈ es, ∀ t, p ⟨jobId, e.1, t⟩ = e.2.slot t)
    (hc : LibkinetoConfigType.events.isIn configType = true → config ≠ "") :
    let visit := visitProcess pids traceId config configType limit
    let ns := setNotes jobId config visit res es
    Run.Along Pending.next Pending.Accepts p ns ∧
      (∀ e ∈ (OrderedMap.walkList visit res es).2, ∀ t,
        ns.foldl Pending.next p ⟨jobId, e.1, t⟩ = e.2.slot t) ∧
      ∀ r, ¬ (r.jobId = jobId ∧ r.pids ∈ es.map Prod.fst) → ns.foldl Pending.next p r = p r := by
  intro visit
  induction es generalizing p res with
  | nil => exact ⟨trivial, fun _ he => absurd he (by simp [OrderedMap.walkList]), fun _ _ => rfl⟩
  | cons e es ih =>
    obtain ⟨he, hes⟩ := List.pairwise_cons.mp hs
    obtain ⟨hv, hslot, hframe⟩ := @exact_visit p jobId config e.1 configType limit traceId res e.2
      pids (h e (by simp)) hc
    have hne : ∀ e' ∈ es, e'.1 ≠ e.1 := fun e' he' heq => absurd (he e' he') (heq ▸ lt_irrefl _)
    obtain ⟨hrest, hslots, hframes⟩ := @ih
      ((visitReports jobId config e.1 res (visit res e.1 e.2).1).foldl Pending.next p)
      (visit res e.1 e.2).1 hes fun e' he' t => by
        rw [hframe _ fun hr => hne e' he' hr.2]
        exact h e' (by simp [he']) t
    unfold setNotes
    dsimp only
    rw [List.foldl_append]
    refine ⟨Run.along_append.mpr ⟨hv, hrest⟩, ?_, fun r hr => ?_⟩
    · intro e' he' t
      rcases List.mem_cons.mp he' with rfl | he'
      · rw [hframes _ fun hr => ?_]
        · exact hslot t
        · obtain ⟨e'', he'', heq⟩ := List.mem_map.mp hr.2
          exact hne e'' he'' heq
      · exact hslots e' he' t
    · rw [hframes r fun hr' => hr ⟨hr'.1, by simp [hr'.2]⟩,
        hframe r fun hr' => hr ⟨hr'.1, by simp [hr'.2]⟩]

theorem exact_set (pids : PidSet) (h : Agrees jobs p)
    (hc : LibkinetoConfigType.events.isIn configType = true → config ≠ "") :
    Run.Along Pending.next Pending.Accepts p
        (notes jobs (.set jobId pids config configType limit traceId)) ∧
      Agrees (perform jobs (.set jobId pids config configType limit traceId))
        ((notes jobs (.set jobId pids config configType limit traceId)).foldl
          Pending.next p) := by
  cases hjob : jobs.get? jobId with
  | none =>
    have hnotes : notes jobs (.set jobId pids config configType limit traceId) = [] := by
      simp only [notes, hjob]
      rfl
    have hperform : perform jobs (.set jobId pids config configType limit traceId) = jobs := by
      simp only [perform, setOnDemandConfig, hjob]
    rw [hnotes, hperform]
    exact ⟨trivial, h⟩
  | some processes =>
    have hnotes : notes jobs (.set jobId pids config configType limit traceId)
        = setNotes jobId config (visitProcess pids traceId config configType limit) .none
            processes.entries := by
      simp only [notes, hjob]
      rfl
    have hperform : perform jobs (.set jobId pids config configType limit traceId)
        = jobs.modify jobId fun _ =>
            (processes.walk (visitProcess pids traceId config configType limit) .none).2 := by
      simp only [perform, setOnDemandConfig, hjob]
    have hslot : ∀ e ∈ processes.entries, ∀ t, p ⟨jobId, e.1, t⟩ = e.2.slot t := by
      intro e he t
      rw [h, find, hjob, Option.bind_some, OrderedMap.mem_entries.mp he]
      rfl
    obtain ⟨ha, hslots, hframe⟩ := @exact_setNotes p jobId config configType limit traceId .none
      pids _ processes.sorted hslot hc
    rw [hnotes, hperform]
    refine ⟨ha, fun r => ?_⟩
    unfold find
    rw [OrderedMap.get?_modify]
    by_cases hj : r.jobId = jobId
    · subst hj
      rw [if_pos rfl, hjob, Option.map_some, Option.bind_some]
      cases hp : (processes.walk (visitProcess pids traceId config configType limit)
          GpuProfilerResult.none).2.get? r.pids with
      | some process => exact hslots _ (OrderedMap.mem_entries.mpr hp) r.type
      | none =>
        have hkey : r.pids ∉ processes.entries.map Prod.fst := by
          rw [← OrderedMap.keys_walk (visitProcess pids traceId config configType limit) .none]
          exact OrderedMap.get?_eq_none.mp hp
        rw [hframe r fun hr => hkey hr.2, h r, find, hjob, Option.bind_some,
          OrderedMap.get?_eq_none.mpr hkey]
    · rw [if_neg hj, hframe r fun hr => hj hr.1, h r]
      rfl

end Set

/-! ### Forgetting -/

section Gc

variable {p : Pending} {jobs : Jobs} {now : ℤ}

theorem find_runGc (j : String) (k : PidSet) :
    find (runGc jobs now) j k = (find jobs j k).filter fun process => !process.isStale now := by
  unfold find runGc
  rw [OrderedMap.get?_filter, OrderedMap.get?_mapValues]
  cases jobs.get? j with
  | none => rfl
  | some processes =>
    rw [Option.map_some, Option.filter_some, Option.bind_some]
    split_ifs with h
    · rw [Option.bind_some, OrderedMap.get?_filter]
    · -- the job has no process left, and then the process was not kept
      have hnil : (processes.filter fun _ process => !process.isStale now).entries = [] := by
        simpa using h
      have hnone : (processes.filter fun _ process => !process.isStale now).get? k = none := by
        rw [OrderedMap.get?, hnil]
        rfl
      rw [OrderedMap.get?_filter] at hnone
      exact hnone.symm

theorem mem_staleProcesses (j : String) (k : PidSet) :
    (j, k) ∈ staleProcesses jobs now
      ↔ ∃ process, find jobs j k = some process ∧ process.isStale now = true := by
  unfold staleProcesses find
  simp only [List.mem_flatMap, List.mem_map, List.mem_filter, Prod.mk.injEq]
  constructor
  · rintro ⟨⟨j', processes⟩, hj, ⟨k', process⟩, ⟨hk, hs⟩, rfl, rfl⟩
    rw [OrderedMap.mem_entries.mp hj, Option.bind_some, OrderedMap.mem_entries.mp hk]
    exact ⟨process, rfl, hs⟩
  · rintro ⟨process, hp, hs⟩
    obtain ⟨processes, hj, hk⟩ := Option.bind_eq_some_iff.mp hp
    exact ⟨(j, processes), OrderedMap.mem_entries.mpr hj, (k, process),
      ⟨OrderedMap.mem_entries.mpr hk, hs⟩, rfl, rfl⟩

/-- What is pending for a process that is forgotten is pending no longer. -/
theorem foldl_collected (l : List (String × PidSet)) (r : Recipient) :
    (l.map fun q => Note.collected q.1 q.2).foldl Pending.next p r
      = if (r.jobId, r.pids) ∈ l then none else p r := by
  induction l generalizing p with
  | nil => rfl
  | cons q l ih =>
    rw [List.map_cons, List.foldl_cons, ih]
    have hnext : p.next (.collected q.1 q.2) r
        = if (r.jobId, r.pids) = q then none else p r :=
      if_congr ⟨fun h => Prod.ext h.1 h.2, fun h => ⟨congrArg Prod.fst h, congrArg Prod.snd h⟩⟩
        rfl rfl
    by_cases hq : (r.jobId, r.pids) = q
    · rw [hnext, if_pos hq, if_pos (List.mem_cons.mpr (.inl hq))]
      split_ifs <;> rfl
    · rw [hnext, if_neg hq]
      exact if_congr (by rw [List.mem_cons, or_iff_right hq]) rfl rfl

theorem along_collected (l : List (String × PidSet)) :
    Run.Along Pending.next Pending.Accepts p (l.map fun q => Note.collected q.1 q.2) := by
  induction l generalizing p with
  | nil => trivial
  | cons q l ih => exact ⟨trivial, ih⟩

theorem exact_gc (h : Agrees jobs p) :
    Run.Along Pending.next Pending.Accepts p (notes jobs (.gc now)) ∧
      Agrees (perform jobs (.gc now)) ((notes jobs (.gc now)).foldl Pending.next p) := by
  refine ⟨along_collected _, fun r => ?_⟩
  show (List.map _ (staleProcesses jobs now)).foldl Pending.next p r
    = (find (runGc jobs now) r.jobId r.pids).bind _
  rw [foldl_collected, find_runGc, h r]
  by_cases hs : (r.jobId, r.pids) ∈ staleProcesses jobs now
  · obtain ⟨process, hp, hst⟩ := (mem_staleProcesses _ _).mp hs
    rw [if_pos hs, hp, Option.filter_some, hst]
    rfl
  · rw [if_neg hs]
    cases hp : find jobs r.jobId r.pids with
    | none => rfl
    | some process =>
      have hst : process.isStale now = false := by
        by_contra hst
        exact hs ((mem_staleProcesses _ _).mpr ⟨process, hp, by simpa using hst⟩)
      rw [Option.filter_some, hst]
      rfl

end Gc

/-! ## Runs -/

namespace Tracked

theorem exact_step {t : Tracked} (h : Agrees t.jobs t.pending) {c : Call} (hc : t.Nonempty c) :
    t.Exact c ∧ Agrees (t.step c).jobs (t.step c).pending := by
  cases c with
  | obtain jobId pid ancestors configType now => exact exact_obtain h
  | set jobId pids config configType limit traceId => exact exact_set pids h hc
  | gc now => exact exact_gc h

/-- **Every config is delivered once.**  In every run in which no empty config is set
for events, a config is triggered only where none is pending, only a process with a
pending config is busy, and a process that asks is returned what is pending for it. -/
theorem delivered (calls : List Call) (hc : Run.Along step Nonempty init calls) :
    Run.Along step Exact init calls := by
  have h := agrees_init
  generalize init = t at h hc
  induction calls generalizing t with
  | nil => trivial
  | cons c calls ih =>
    obtain ⟨hexact, hagrees⟩ := exact_step h hc.1
    exact ⟨hexact, ih _ hagrees hc.2⟩

/-- Process 7, a child of process 3, is set configs of both types.  The first is
delivered when it asks, the second is set while the first is pending. -/
def bothTypes : List Call :=
  [.obtain "job" 7 [3] 3 0, .set "job" [3] "A=1" 3 1 fun _ => "T", .set "job" [] "B=2" 1 1 fun _ => "U",
    .obtain "job" 7 [3] 3 1, .gc (100 * 10 ^ 9)]

theorem delivered_bothTypes : Run.Along step Exact init bothTypes :=
  delivered bothTypes (by decide)

/-- An empty config is set for the events of process 7, twice. -/
def emptyTwice : List Call :=
  [.obtain "job" 7 [] 1 0, .set "job" [] "" 1 1 fun _ => "T", .set "job" [] "" 1 1 fun _ => "U"]

/-- Both are reported as triggered, and the first was never returned. -/
theorem not_delivered_emptyTwice : ¬ Run.Along step Exact init emptyTwice := by decide

end Tracked

end Dynolog
end IntegratedCLI
