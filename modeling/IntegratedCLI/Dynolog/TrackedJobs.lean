import IntegratedCLI.Dynolog.OnDemandConfigs
import IntegratedCLI.Lib.Since

/-!
# What the config manager tracks

The tables of `LibkinetoConfigManager` are kept by calls that come in any order from the clients,
from the processes that are profiled and from the manager's own thread: the processes of each
job, the instances for each GPU of each job, and the base config.

Each of them is a digest of the calls so far.  A process is in the table if it asked for configs
and no garbage collection since came more than a minute after that, and an instance is if it was
registered and its job was not dropped since.  A job is dropped by the collection that takes its
last process, so that the instances of a job whose processes never ask are never dropped.
-/

namespace IntegratedCLI
namespace Dynolog

open Run

/-! ## The manager -/

/-- The pids for each GPU. -/
abbrev InstancesPerGpuMap := OrderedMap ℤ PidSet

structure LibkinetoConfigManager where
  jobs : Jobs
  jobInstancesPerGpu : OrderedMap String InstancesPerGpuMap
  baseConfig : String

/-- The calls, with those that only the manager's thread makes. -/
inductive ManagerCall where
  | call (c : Call)
  | registerLibkinetoContext (jobId : String) (pid gpu : ℤ)
  | refreshBaseConfig (cfg : String)

/-- The set with one pid more. -/
def PidSet.insert (pids : PidSet) (pid : ℤ) : PidSet :=
  if pid ∈ pids then pids else pids.orderedInsert (· ≤ ·) pid

namespace LibkinetoConfigManager

def init : LibkinetoConfigManager := ⟨.empty, .empty, ""⟩

/-- The instances for a GPU of a job. -/
def instances (m : LibkinetoConfigManager) (jobId : String) (gpu : ℤ) : PidSet :=
  ((m.jobInstancesPerGpu.get? jobId).bind (·.get? gpu)).getD []

/-- The number of instances is returned. -/
def registerLibkinetoContext (m : LibkinetoConfigManager) (jobId : String) (pid gpu : ℤ) :
    ℕ × LibkinetoConfigManager :=
  let instances := (m.instances jobId gpu).insert pid
  let gpus := (m.jobInstancesPerGpu.get? jobId).getD .empty
  (instances.length,
    { m with jobInstancesPerGpu := m.jobInstancesPerGpu.put jobId (gpus.put gpu instances) })

/-- The config file was read.  It is not, if that fails. -/
def refreshBaseConfig (m : LibkinetoConfigManager) (cfg : String) : LibkinetoConfigManager :=
  if cfg ≠ "" ∧ cfg ≠ m.baseConfig then { m with baseConfig := cfg } else m

/-- The processes that are stale are forgotten, and with the last one of a job its instances. -/
def gc (m : LibkinetoConfigManager) (now : ℤ) : LibkinetoConfigManager :=
  { m with
    jobs := runGc m.jobs now
    jobInstancesPerGpu := m.jobInstancesPerGpu.filter fun jobId _ =>
      (m.jobs.get? jobId).isNone || ((runGc m.jobs now).get? jobId).isSome }

def processCount (m : LibkinetoConfigManager) (jobId : String) : ℕ :=
  (m.jobs.get? jobId).elim 0 fun processes => processes.entries.length

def step (m : LibkinetoConfigManager) : ManagerCall → LibkinetoConfigManager
  | .call (.gc now) => m.gc now
  | .call c => { m with jobs := perform m.jobs c }
  | .registerLibkinetoContext jobId pid gpu => (m.registerLibkinetoContext jobId pid gpu).2
  | .refreshBaseConfig cfg => m.refreshBaseConfig cfg

theorem step_jobs_call (m : LibkinetoConfigManager) (c : Call) :
    (m.step (.call c)).jobs = perform m.jobs c := by
  cases c <;> rfl

theorem jobs_refreshBaseConfig (m : LibkinetoConfigManager) (cfg : String) :
    (m.refreshBaseConfig cfg).jobs = m.jobs := by
  unfold refreshBaseConfig
  split <;> rfl

theorem instances_refreshBaseConfig (m : LibkinetoConfigManager) (cfg jobId : String) (gpu : ℤ) :
    (m.refreshBaseConfig cfg).instances jobId gpu = m.instances jobId gpu := by
  unfold refreshBaseConfig
  split <;> rfl

end LibkinetoConfigManager

/-! ## What the calls say -/

namespace ManagerCall

/-- The process asks for its configs. -/
def asks (jobId : String) (key : PidSet) : ManagerCall → Option ℤ
  | .call (.obtain jobId' pid ancestors _ now) =>
    if jobId' = jobId ∧ pidSet (pid :: ancestors) = key then some now else none
  | _ => none

/-- The process asks under the pid. -/
def asksAs (jobId : String) (key : PidSet) (pid : ℤ) : ManagerCall → Bool
  | .call (.obtain jobId' pid' ancestors _ _) =>
    jobId' = jobId ∧ pidSet (pid' :: ancestors) = key ∧ pid' = pid
  | _ => false

/-- A process that asked at the time is not forgotten. -/
def spares (time : ℤ) : ManagerCall → Bool
  | .call (.gc now) => now - time ≤ kKeepAliveTimeSecs * 10 ^ 9
  | _ => true

def registers (jobId : String) (pid gpu : ℤ) : ManagerCall → Bool
  | .registerLibkinetoContext jobId' pid' gpu' => jobId' = jobId ∧ pid' = pid ∧ gpu' = gpu
  | _ => false

/-- The base config that is read, if there is one. -/
def reads : ManagerCall → Option String
  | .refreshBaseConfig cfg => if cfg = "" then none else some cfg
  | _ => none

end ManagerCall

/-- The job is dropped in the call: it has lost its last process. -/
def LibkinetoConfigManager.drops (m : LibkinetoConfigManager) (jobId : String) (c : ManagerCall) :
    Bool := (m.jobs.get? jobId).isSome && ((m.step c).jobs.get? jobId).isNone

/-! ## The processes -/

section Processes

variable {jobs : Jobs} {jobId : String} {key : PidSet}

/-- What setting a config does not change. -/
def LibkinetoProcess.seen (process : LibkinetoProcess) : ℤ × ℤ :=
  (process.pid, process.lastRequestTime)

theorem seen_obtain (process : LibkinetoProcess) (configType : BitVec 32) :
    (process.obtain configType).2.seen = process.seen := by
  have hevents : ∀ process : LibkinetoProcess,
      (process.obtainEvents configType).2.seen = process.seen := by
    intro process
    unfold LibkinetoProcess.obtainEvents
    split <;> rfl
  have hactivities : ∀ process : LibkinetoProcess,
      (process.obtainActivities configType).2.seen = process.seen := by
    intro process
    unfold LibkinetoProcess.obtainActivities
    split <;> rfl
  exact (hactivities _).trans (hevents _)

theorem seen_set (traceId : ℤ → String) (config : String) (configType limit : BitVec 32)
    (res : GpuProfilerResult) (process : LibkinetoProcess) :
    (setOnDemandConfigForProcess traceId config configType limit res process).2.seen =
      process.seen := by
  have hevents : ∀ res process,
      (setEventConfig config configType limit res process).2.seen = process.seen := by
    intro res process
    unfold setEventConfig
    split_ifs <;> rfl
  have hactivities : ∀ res process,
      (setActivityConfig traceId config configType limit res process).2.seen = process.seen := by
    intro res process
    unfold setActivityConfig
    split_ifs <;> rfl
  exact (hactivities _ _).trans (hevents _ _)

/-- A config that is set changes nothing else. -/
theorem find_set (pids : PidSet) (job config : String) (configType limit : BitVec 32)
    (traceId : ℤ → String) :
    (find (setOnDemandConfig jobs job pids config configType limit traceId).2 jobId key).map
      LibkinetoProcess.seen = (find jobs jobId key).map LibkinetoProcess.seen := by
  unfold setOnDemandConfig
  cases hjob : jobs.get? job with
  | none => rfl
  | some processes =>
    unfold find
    rw [OrderedMap.get?_modify]
    by_cases hj : jobId = job
    · rw [if_pos hj, hj, hjob, Option.map_some, Option.bind_some, Option.bind_some]
      refine OrderedMap.get?_walk_map (fun res key process => ?_) _
      unfold visitProcess
      split
      · exact seen_set _ _ _ _ _ _
      · rfl
    · rw [if_neg hj]

/-- The process asks, and is not forgotten after that. -/
theorem tracked_step (m : LibkinetoConfigManager) (c : ManagerCall) (time : ℤ) :
    (find (m.step c).jobs jobId key).map LibkinetoProcess.lastRequestTime = some time ↔
      c.asks jobId key = some time ∨
        (find m.jobs jobId key).map LibkinetoProcess.lastRequestTime = some time ∧
          (c.asks jobId key = none ∧ c.spares time = true) := by
  have hsame : (m.step c).jobs = m.jobs → c.asks jobId key = none → c.spares time = true →
      ((find (m.step c).jobs jobId key).map LibkinetoProcess.lastRequestTime = some time ↔
        c.asks jobId key = some time ∨
          (find m.jobs jobId key).map LibkinetoProcess.lastRequestTime = some time ∧
            (c.asks jobId key = none ∧ c.spares time = true)) := by
    intro hjobs hasks hspares
    rw [hjobs, hasks, hspares]
    simp
  cases c with
  | registerLibkinetoContext j pid gpu => exact hsame rfl rfl rfl
  | refreshBaseConfig cfg => exact hsame (m.jobs_refreshBaseConfig cfg) rfl rfl
  | call c =>
    rw [LibkinetoConfigManager.step_jobs_call]
    cases c with
    | obtain j pid ancestors configType now =>
      show (find (obtainOnDemandConfig m.jobs j pid ancestors configType now).2 jobId key).map _ =
        some time ↔ (if j = jobId ∧ pidSet (pid :: ancestors) = key then some now else none) =
          some time ∨ _ ∧ ((if j = jobId ∧ pidSet (pid :: ancestors) = key then some now else none) =
            none ∧ _)
      rw [find_obtain]
      by_cases hkey : j = jobId ∧ pidSet (pid :: ancestors) = key
      · rw [if_pos ⟨hkey.1.symm, hkey.2.symm⟩, if_pos hkey, Option.map_some]
        simp
      · rw [if_neg fun h => hkey ⟨h.1.symm, h.2.symm⟩, if_neg hkey]
        simp [ManagerCall.spares]
    | set j pids config configType limit traceId =>
      have htime := congrArg (Option.map Prod.snd) (@find_set m.jobs jobId key pids j config
        configType limit traceId)
      rw [Option.map_map, Option.map_map] at htime
      show (find (setOnDemandConfig m.jobs j pids config configType limit traceId).2 jobId key).map
        (Prod.snd ∘ LibkinetoProcess.seen) = some time ↔ _
      rw [htime]
      simp only [ManagerCall.asks, ManagerCall.spares, reduceCtorEq, false_or, and_true]
      rfl
    | gc now =>
      show (find (runGc m.jobs now) jobId key).map _ = some time ↔ none = some time ∨
        _ ∧ none = none ∧ decide (now - time ≤ kKeepAliveTimeSecs * 10 ^ 9) = true
      rw [find_runGc]
      cases find m.jobs jobId key with
      | none => simp
      | some process =>
        rw [Option.filter_some]
        unfold LibkinetoProcess.isStale
        by_cases hstale : kKeepAliveTimeSecs * 10 ^ 9 < now - process.lastRequestTime
        · rw [decide_eq_true hstale, if_neg (by decide)]
          refine iff_of_false (by simp) ?_
          rintro (h | ⟨h, _, hspares⟩)
          · cases h
          · rw [Option.map_some, Option.some_inj] at h
            rw [decide_eq_true_eq, ← h] at hspares
            exact absurd hstale (not_lt.mpr hspares)
        · rw [decide_eq_false hstale, if_pos (by decide), Option.map_some, Option.some_inj,
            decide_eq_true_eq]
          refine ⟨fun h => Or.inr ⟨h, rfl, h ▸ not_lt.mp hstale⟩, ?_⟩
          rintro (h | ⟨h, _⟩)
          · cases h
          · exact h

/-- A process is known by the pid it asked under when it was registered. -/
theorem pid_step (m : LibkinetoConfigManager) (c : ManagerCall) (pid : ℤ) :
    (find (m.step c).jobs jobId key).map LibkinetoProcess.pid = some pid ↔
      (c.asksAs jobId key pid = true ∧ find m.jobs jobId key = none) ∨
        (find m.jobs jobId key).map LibkinetoProcess.pid = some pid ∧
          (find (m.step c).jobs jobId key).isSome = true := by
  have hkept : (find (m.step c).jobs jobId key).map LibkinetoProcess.pid =
      (find m.jobs jobId key).map LibkinetoProcess.pid → c.asksAs jobId key pid = false →
      ((find (m.step c).jobs jobId key).map LibkinetoProcess.pid = some pid ↔
        (c.asksAs jobId key pid = true ∧ find m.jobs jobId key = none) ∨
          (find m.jobs jobId key).map LibkinetoProcess.pid = some pid ∧
            (find (m.step c).jobs jobId key).isSome = true) := by
    intro hpid hasks
    rw [← Option.isSome_map (f := LibkinetoProcess.pid), hpid, hasks]
    cases find m.jobs jobId key <;> simp
  cases c with
  | registerLibkinetoContext j pid gpu => exact hkept rfl rfl
  | refreshBaseConfig cfg =>
    refine hkept ?_ rfl
    show (find (m.refreshBaseConfig cfg).jobs jobId key).map _ = _
    rw [m.jobs_refreshBaseConfig]
  | call c =>
    rw [LibkinetoConfigManager.step_jobs_call] at hkept ⊢
    cases c with
    | obtain j pid' ancestors configType now =>
      by_cases hkey : j = jobId ∧ pidSet (pid' :: ancestors) = key
      · obtain ⟨rfl, rfl⟩ := hkey
        show (find (obtainOnDemandConfig m.jobs j pid' ancestors configType now).2 _ _).map _ =
          some pid ↔ (decide (j = j ∧ pidSet (pid' :: ancestors) = pidSet (pid' :: ancestors) ∧
            pid' = pid) = true ∧ _) ∨
          _ ∧ (find (obtainOnDemandConfig m.jobs j pid' ancestors configType now).2 _ _).isSome = true
        have hseen := seen_obtain ((find m.jobs j (pidSet (pid' :: ancestors))).getD ⟨pid', 0, "", ""⟩)
          configType
        have hpid := congrArg Prod.fst hseen
        rw [find_obtain, if_pos ⟨rfl, rfl⟩, Option.map_some]
        change some (LibkinetoProcess.obtain _ configType).2.pid = some pid ↔ _
        change (LibkinetoProcess.obtain _ configType).2.pid = LibkinetoProcess.pid _ at hpid
        rw [hpid]
        cases find m.jobs j (pidSet (pid' :: ancestors)) with
        | none => simp
        | some process => simp
      · refine hkept ?_ (decide_eq_false fun h => hkey ⟨h.1, h.2.1⟩)
        show (find (obtainOnDemandConfig m.jobs j pid' ancestors configType now).2 jobId key).map _ = _
        rw [find_obtain, if_neg fun h => hkey ⟨h.1.symm, h.2.symm⟩]
    | set j pids config configType limit traceId =>
      have hpid := congrArg (Option.map Prod.fst) (@find_set m.jobs jobId key pids j config
        configType limit traceId)
      rw [Option.map_map, Option.map_map] at hpid
      exact hkept hpid rfl
    | gc now =>
      show (find (runGc m.jobs now) jobId key).map _ = some pid ↔ (false = true ∧ _) ∨
        _ ∧ (find (runGc m.jobs now) jobId key).isSome = true
      rw [find_runGc]
      cases find m.jobs jobId key with
      | none => simp
      | some process =>
        rw [Option.filter_some]
        split <;> simp

/-- The keys of the processes of a job are counted. -/
theorem processCount_eq (m : LibkinetoConfigManager) (jobId : String) :
    ∃ keys : List PidSet, keys.Nodup ∧ keys.length = m.processCount jobId ∧
      ∀ key, key ∈ keys ↔ (find m.jobs jobId key).isSome = true := by
  unfold LibkinetoConfigManager.processCount find
  cases m.jobs.get? jobId with
  | none => exact ⟨[], List.nodup_nil, rfl, by simp⟩
  | some processes =>
    refine ⟨processes.entries.map Prod.fst, ?_, List.length_map _, fun key => ?_⟩
    · exact (List.pairwise_map.mpr processes.sorted).imp fun h => h.ne
    · rw [Option.bind_some, ← not_iff_not, ← OrderedMap.get?_eq_none, Bool.not_eq_true,
        Option.isSome_eq_false_iff, Option.isNone_iff_eq_none]

end Processes

/-! ## The instances -/

section Instances

variable {m : LibkinetoConfigManager} {jobId : String} {gpu pid : ℤ}

theorem mem_insert {pids : PidSet} {pid' : ℤ} : pid ∈ pids.insert pid' ↔ pid' = pid ∨ pid ∈ pids := by
  unfold PidSet.insert
  split
  · rename_i h
    refine ⟨Or.inr, ?_⟩
    rintro (rfl | h')
    · exact h
    · exact h'
  · rw [List.mem_orderedInsert, eq_comm]

theorem nodup_insert {pids : PidSet} (h : pids.Nodup) (pid : ℤ) : (pids.insert pid).Nodup := by
  unfold PidSet.insert
  split
  · exact h
  · rename_i hnot
    exact ((List.perm_orderedInsert _ _ _).nodup_iff).mpr (List.nodup_cons.mpr ⟨hnot, h⟩)

theorem instances_register (m : LibkinetoConfigManager) (j : String) (pid gpu' : ℤ) :
    (m.registerLibkinetoContext j pid gpu').2.instances jobId gpu =
      if jobId = j ∧ gpu = gpu' then (m.instances j gpu').insert pid else m.instances jobId gpu := by
  unfold LibkinetoConfigManager.registerLibkinetoContext LibkinetoConfigManager.instances
  dsimp only
  rw [OrderedMap.get?_put]
  by_cases hj : jobId = j
  · rw [if_pos hj, Option.bind_some, OrderedMap.get?_put]
    by_cases hgpu : gpu = gpu'
    · rw [if_pos hgpu, if_pos ⟨hj, hgpu⟩]
      rfl
    · rw [if_neg hgpu, if_neg fun h => hgpu h.2, hj]
      cases m.jobInstancesPerGpu.get? j <;> rfl
  · rw [if_neg hj, if_neg fun h => hj h.1]

theorem instances_gc (m : LibkinetoConfigManager) (now : ℤ) : (m.gc now).instances jobId gpu =
    if m.drops jobId (.call (.gc now)) then [] else m.instances jobId gpu := by
  have hdrops : m.drops jobId (.call (.gc now)) =
      !((m.jobs.get? jobId).isNone || ((runGc m.jobs now).get? jobId).isSome) := by
    show ((m.jobs.get? jobId).isSome && ((runGc m.jobs now).get? jobId).isNone) = _
    cases m.jobs.get? jobId <;> cases (runGc m.jobs now).get? jobId <;> rfl
  unfold LibkinetoConfigManager.gc LibkinetoConfigManager.instances
  dsimp only
  rw [OrderedMap.get?_filter, hdrops]
  cases m.jobInstancesPerGpu.get? jobId with
  | none => split <;> rfl
  | some gpus =>
    rw [Option.filter_some]
    cases (m.jobs.get? jobId).isNone || ((runGc m.jobs now).get? jobId).isSome <;> rfl

/-- Only a collection drops a job. -/
theorem drops_eq_false {c : Call} (hc : ∀ now, c ≠ .gc now) :
    m.drops jobId (.call c) = false := by
  unfold LibkinetoConfigManager.drops
  rw [LibkinetoConfigManager.step_jobs_call]
  have hkept : (m.jobs.get? jobId).isSome = true → ((perform m.jobs c).get? jobId).isSome = true := by
    cases c with
    | obtain j pid ancestors configType now =>
      intro h
      show (((m.jobs.emplace j .empty).modify j _).get? jobId).isSome = true
      rw [OrderedMap.get?_modify, OrderedMap.get?_emplace, OrderedMap.get?_emplace, if_pos rfl]
      split
      · rfl
      · exact h
    | set j pids config configType limit traceId =>
      intro h
      show ((setOnDemandConfig m.jobs j pids config configType limit traceId).2.get? jobId).isSome =
        true
      unfold setOnDemandConfig
      cases hj : m.jobs.get? j with
      | none => exact h
      | some processes =>
        dsimp only
        rw [OrderedMap.get?_modify]
        split
        · rw [hj]
          rfl
        · exact h
    | gc now => exact absurd rfl (hc now)
  cases hsome : (m.jobs.get? jobId).isSome with
  | false => rfl
  | true => rw [← Option.not_isSome, hkept hsome]; rfl

/-- An instance is registered, and is there until its job is dropped. -/
theorem instance_step (m : LibkinetoConfigManager) (c : ManagerCall) :
    pid ∈ (m.step c).instances jobId gpu ↔
      c.registers jobId pid gpu = true ∨
        pid ∈ m.instances jobId gpu ∧ m.drops jobId c = false := by
  have hsame : (m.step c).jobs = m.jobs → m.drops jobId c = false := by
    intro hjobs
    unfold LibkinetoConfigManager.drops
    rw [hjobs]
    cases m.jobs.get? jobId <;> rfl
  cases c with
  | registerLibkinetoContext j pid' gpu' =>
    rw [hsame rfl]
    show pid ∈ (m.registerLibkinetoContext j pid' gpu').2.instances jobId gpu ↔
      decide (j = jobId ∧ pid' = pid ∧ gpu' = gpu) = true ∨ _
    rw [instances_register, decide_eq_true_eq]
    by_cases hkey : jobId = j ∧ gpu = gpu'
    · obtain ⟨rfl, rfl⟩ := hkey
      rw [if_pos ⟨rfl, rfl⟩, mem_insert]
      simp
    · rw [if_neg hkey]
      have hnot : ¬ (j = jobId ∧ pid' = pid ∧ gpu' = gpu) := fun h => hkey ⟨h.1.symm, h.2.2.symm⟩
      simp [hnot]
  | refreshBaseConfig cfg =>
    rw [hsame (m.jobs_refreshBaseConfig cfg)]
    show pid ∈ (m.refreshBaseConfig cfg).instances jobId gpu ↔ false = true ∨ _
    rw [m.instances_refreshBaseConfig]
    simp
  | call c =>
    cases c with
    | gc now =>
      show pid ∈ (m.gc now).instances jobId gpu ↔ false = true ∨ _
      rw [instances_gc]
      cases m.drops jobId (.call (.gc now)) <;> simp
    | obtain j pid' ancestors configType now =>
      rw [drops_eq_false fun now h => by cases h]
      show pid ∈ m.instances jobId gpu ↔ false = true ∨ _
      simp
    | set j pids config configType limit traceId =>
      rw [drops_eq_false fun now h => by cases h]
      show pid ∈ m.instances jobId gpu ↔ false = true ∨ _
      simp

/-- No pid is there twice. -/
def InstancesOnce (m : LibkinetoConfigManager) : Prop :=
  ∀ jobId gpu, (m.instances jobId gpu).Nodup

theorem instancesOnce_step (h : InstancesOnce m) (c : ManagerCall) : InstancesOnce (m.step c) := by
  intro jobId gpu
  cases c with
  | registerLibkinetoContext j pid gpu' =>
    show ((m.registerLibkinetoContext j pid gpu').2.instances jobId gpu).Nodup
    rw [instances_register]
    split
    · exact nodup_insert (h j gpu') pid
    · exact h jobId gpu
  | refreshBaseConfig cfg =>
    show ((m.refreshBaseConfig cfg).instances jobId gpu).Nodup
    rw [m.instances_refreshBaseConfig]
    exact h jobId gpu
  | call c =>
    cases c with
    | gc now =>
      show ((m.gc now).instances jobId gpu).Nodup
      rw [instances_gc]
      split
      · exact List.nodup_nil
      · exact h jobId gpu
    | obtain j pid ancestors configType now => exact h jobId gpu
    | set j pids config configType limit traceId => exact h jobId gpu

end Instances

/-! ## The jobs -/

section Occupied

variable {jobs : Jobs}

/-- Every job has a process. -/
def Occupied (jobs : Jobs) : Prop :=
  ∀ jobId processes, jobs.get? jobId = some processes → processes.entries ≠ []

theorem entries_ne_nil {processes : OrderedMap PidSet LibkinetoProcess} (key : PidSet)
    (h : (processes.get? key).isSome = true) : processes.entries ≠ [] := by
  obtain ⟨process, hprocess⟩ := Option.isSome_iff_exists.mp h
  exact List.ne_nil_of_mem (OrderedMap.mem_entries.mpr hprocess)

theorem occupied_perform (h : Occupied jobs) (c : Call) : Occupied (perform jobs c) := by
  intro jobId processes hget
  cases c with
  | obtain j pid ancestors configType now =>
    change ((jobs.emplace j .empty).modify j _).get? jobId = some processes at hget
    rw [OrderedMap.get?_modify, OrderedMap.get?_emplace, OrderedMap.get?_emplace,
      if_pos rfl] at hget
    by_cases hj : jobId = j
    · rw [if_pos hj, Option.map_some, Option.some_inj] at hget
      subst hget
      refine entries_ne_nil (pidSet (pid :: ancestors)) ?_
      rw [OrderedMap.get?_modify, if_pos rfl, OrderedMap.get?_emplace, if_pos rfl]
      rfl
    · rw [if_neg hj, if_neg hj] at hget
      exact h jobId processes hget
  | set j pids config configType limit traceId =>
    change (setOnDemandConfig jobs j pids config configType limit traceId).2.get? jobId =
      some processes at hget
    unfold setOnDemandConfig at hget
    cases hjob : jobs.get? j with
    | none =>
      rw [hjob] at hget
      exact h jobId processes hget
    | some walked =>
      rw [hjob] at hget
      dsimp only at hget
      rw [OrderedMap.get?_modify] at hget
      by_cases hj : jobId = j
      · rw [if_pos hj, hjob, Option.map_some, Option.some_inj] at hget
        subst hget
        have hkeys := OrderedMap.keys_walk (m := walked)
          (visitProcess pids traceId config configType limit) .none
        intro hnil
        rw [hnil, List.map_nil, eq_comm, List.map_eq_nil_iff] at hkeys
        exact h j walked hjob hkeys
      · rw [if_neg hj] at hget
        exact h jobId processes hget
  | gc now =>
    change (runGc jobs now).get? jobId = some processes at hget
    unfold runGc at hget
    rw [OrderedMap.get?_filter, Option.filter_eq_some_iff, decide_eq_true_eq] at hget
    exact hget.2

theorem occupied_step {m : LibkinetoConfigManager} (h : Occupied m.jobs) (c : ManagerCall) :
    Occupied (m.step c).jobs := by
  cases c with
  | call c =>
    rw [LibkinetoConfigManager.step_jobs_call]
    exact occupied_perform h c
  | registerLibkinetoContext jobId pid gpu => exact h
  | refreshBaseConfig cfg =>
    show Occupied (m.refreshBaseConfig cfg).jobs
    rw [m.jobs_refreshBaseConfig]
    exact h

theorem Occupied.isSome_iff (h : Occupied jobs) (jobId : String) :
    (jobs.get? jobId).isSome = true ↔ ∃ key, (find jobs jobId key).isSome = true := by
  unfold find
  cases hget : jobs.get? jobId with
  | none => simp
  | some processes =>
    obtain ⟨⟨key, process⟩, hmem⟩ := List.exists_mem_of_ne_nil _ (h jobId processes hget)
    refine iff_of_true rfl ⟨key, ?_⟩
    rw [Option.bind_some, OrderedMap.mem_entries.mp hmem]
    rfl

end Occupied

/-! ## The base config -/

/-- An empty file does not change the base config. -/
theorem baseConfig_step (m : LibkinetoConfigManager) (c : ManagerCall) {cfg : String} :
    (m.step c).baseConfig = cfg ↔
      c.reads = some cfg ∨ m.baseConfig = cfg ∧ c.reads = none := by
  cases c with
  | refreshBaseConfig read =>
    show (m.refreshBaseConfig read).baseConfig = cfg ↔
      (if read = "" then none else some read) = some cfg ∨
        _ ∧ (if read = "" then none else some read) = none
    unfold LibkinetoConfigManager.refreshBaseConfig
    by_cases hempty : read = ""
    · rw [if_neg fun h => h.1 hempty, if_pos hempty]
      simp
    · rw [if_neg hempty]
      by_cases hsame : read = m.baseConfig
      · rw [if_neg fun h => h.2 hsame, ← hsame]
        simp
      · rw [if_pos ⟨hempty, hsame⟩]
        simp
  | registerLibkinetoContext jobId pid gpu => simp [ManagerCall.reads, LibkinetoConfigManager.step,
      LibkinetoConfigManager.registerLibkinetoContext]
  | call c => cases c <;> simp [ManagerCall.reads, LibkinetoConfigManager.step,
      LibkinetoConfigManager.gc]

/-! ## The tables after the calls -/

/-- The tables are those that the calls ask for. -/
structure IsDigest (calls : List ManagerCall) (m : LibkinetoConfigManager) : Prop where
  /-- A process is there with the time of its last request, until it is stale. -/
  tracked : ∀ jobId key time,
    (find m.jobs jobId key).map LibkinetoProcess.lastRequestTime = some time ↔
      Since LibkinetoConfigManager.step (fun _ c => c.asks jobId key = some time)
        (fun _ c => c.asks jobId key = none ∧ c.spares time = true) .init calls
  /-- It is known by the pid of its first request since it was last forgotten. -/
  known : ∀ jobId key pid, (find m.jobs jobId key).map LibkinetoProcess.pid = some pid ↔
    Since LibkinetoConfigManager.step
      (fun m c => c.asksAs jobId key pid = true ∧ find m.jobs jobId key = none)
      (fun m c => (find (m.step c).jobs jobId key).isSome = true) .init calls
  /-- There are no jobs without processes. -/
  occupied : ∀ jobId,
    (m.jobs.get? jobId).isSome = true ↔ ∃ key, (find m.jobs jobId key).isSome = true
  counted : ∀ jobId, ∃ keys : List PidSet, keys.Nodup ∧ keys.length = m.processCount jobId ∧
    ∀ key, key ∈ keys ↔ (find m.jobs jobId key).isSome = true
  /-- An instance is there until its job is dropped. -/
  registered : ∀ jobId gpu pid, pid ∈ m.instances jobId gpu ↔
    Since LibkinetoConfigManager.step (fun _ c => c.registers jobId pid gpu = true)
      (fun m c => m.drops jobId c = false) .init calls
  /-- The number that one more registration is told is that of the instances it leaves. -/
  told : ∀ jobId pid gpu, ∃ pids : List ℤ, pids.Nodup ∧
    pids.length = (m.registerLibkinetoContext jobId pid gpu).1 ∧
      ∀ pid', pid' ∈ pids ↔ pid = pid' ∨ pid' ∈ m.instances jobId gpu
  /-- The base config is the last one that was read. -/
  read : ∀ cfg ≠ "", m.baseConfig = cfg ↔
    Since LibkinetoConfigManager.step (fun _ c => c.reads = some cfg)
      (fun _ c => c.reads = none) .init calls

theorem tables_tracked (calls : List ManagerCall) (jobId : String) (key : PidSet) (time : ℤ) :
    (find (calls.foldl LibkinetoConfigManager.step .init).jobs jobId key).map
        LibkinetoProcess.lastRequestTime = some time ↔
      Since LibkinetoConfigManager.step (fun _ c => c.asks jobId key = some time)
        (fun _ c => c.asks jobId key = none ∧ c.spares time = true) .init calls :=
  since_of_step
    (R := fun m => (find m.jobs jobId key).map LibkinetoProcess.lastRequestTime = some time)
    (by simp [LibkinetoConfigManager.init, find]) (fun m c => tracked_step m c time) calls

theorem tables_occupied (calls : List ManagerCall) :
    Occupied (calls.foldl LibkinetoConfigManager.step .init).jobs :=
  List.foldlRecOn (motive := fun m : LibkinetoConfigManager => Occupied m.jobs) calls _
    (fun jobId processes h => by cases h) fun _ hm c _ => occupied_step hm c

theorem tables_instancesOnce (calls : List ManagerCall) :
    InstancesOnce (calls.foldl LibkinetoConfigManager.step .init) :=
  List.foldlRecOn (motive := InstancesOnce) calls _ (fun _ _ => List.nodup_nil)
    fun _ hm c _ => instancesOnce_step hm c

/-- **What the config manager tracks.**  After any calls, in any order, every table is a digest of
them. -/
theorem tables_isDigest (calls : List ManagerCall) :
    IsDigest calls (calls.foldl LibkinetoConfigManager.step .init) where
  tracked := tables_tracked calls
  known jobId key pid := since_of_step
    (R := fun m => (find m.jobs jobId key).map LibkinetoProcess.pid = some pid)
    (by simp [LibkinetoConfigManager.init, find]) (fun m c => pid_step m c pid) calls
  occupied := (tables_occupied calls).isSome_iff
  counted := processCount_eq _
  registered jobId gpu pid := since_of_step
    (R := fun m => pid ∈ m.instances jobId gpu)
    (by simp [LibkinetoConfigManager.init, LibkinetoConfigManager.instances])
    (fun m c => instance_step m c) calls
  told jobId pid gpu :=
    ⟨_, nodup_insert (tables_instancesOnce calls jobId gpu) pid, rfl, fun _ => mem_insert⟩
  read cfg hcfg := since_of_step
    (R := fun m => m.baseConfig = cfg) (Ne.symm hcfg) (fun m c => baseConfig_step m c) calls

/-- The instances of a job that never asks for its configs are never dropped. -/
theorem instances_kept {calls : List ManagerCall} {jobId : String}
    (h : ∀ c ∈ calls, ∀ key, c.asks jobId key = none) (gpu pid : ℤ) :
    pid ∈ (calls.foldl LibkinetoConfigManager.step .init).instances jobId gpu ↔
      ∃ c ∈ calls, c.registers jobId pid gpu = true := by
  induction calls using List.reverseRecOn with
  | nil => simp [LibkinetoConfigManager.init, LibkinetoConfigManager.instances]
  | append_singleton calls c ih =>
    have hbefore : ∀ c ∈ calls, ∀ key, c.asks jobId key = none :=
      fun c hc => h c (List.mem_append_left _ hc)
    -- the job has no processes: none has asked
    have hnone : ((calls.foldl LibkinetoConfigManager.step .init).jobs.get? jobId).isSome = false := by
      rw [Bool.eq_false_iff, Ne, (tables_occupied calls).isSome_iff]
      rintro ⟨key, hfind⟩
      obtain ⟨process, hprocess⟩ := Option.isSome_iff_exists.mp hfind
      obtain ⟨_, c, hc, hasks⟩ := ((tables_tracked calls jobId key process.lastRequestTime).mp
        (by rw [hprocess, Option.map_some])).exists_mem
      rw [hbefore c hc key] at hasks
      cases hasks
    have hdrops : (calls.foldl LibkinetoConfigManager.step .init).drops jobId c = false := by
      unfold LibkinetoConfigManager.drops
      rw [hnone, Bool.false_and]
    rw [List.foldl_append, List.foldl_cons, List.foldl_nil, instance_step, hdrops, ih hbefore]
    simp [or_and_right, exists_or, or_comm]

end Dynolog
end IntegratedCLI
