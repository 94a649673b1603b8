import IntegratedCLI.Dynolog.OnDemandConfigs

/-!
# The limit of an on-demand config

`setOnDemandConfig` goes through the processes of a job and sets the config of those that
match.  For each profiler type it stops when it has triggered as many processes as the
limit says, and it counts the processes that it finds busy until then.

`outcomes` is what becomes of each process that matches, for one type, and
`reports_outcomes` that the result is made of it.  The limit is an `int32_t` and is
compared with a size, so that a negative one is a very large one.  Below zero the limit is
kept only where there is nothing to trigger: `setOnDemandConfig_reported_iff`.
-/

namespace IntegratedCLI
namespace Dynolog

/-- What becomes of a process that matches. -/
inductive Outcome where
  | triggered
  | busy
  | skipped
  deriving DecidableEq, Repr

/-- What becomes of the processes, where `n` were triggered before. -/
def outcomes (limit : ℕ) (t : LibkinetoConfigType) : ℕ → List LibkinetoProcess → List Outcome
  | _, [] => []
  | n, process :: rest =>
    if n < limit then
      if process.slot t = none then .triggered :: outcomes limit t (n + 1) rest
      else .busy :: outcomes limit t n rest
    else .skipped :: outcomes limit t n rest

/-- The pids of the processes that something became of. -/
def pidsOf (o : Outcome) (processes : List LibkinetoProcess) (os : List Outcome) : List ℤ :=
  ((processes.zip os).filter fun e => e.2 = o).map fun e => e.1.pid

/-- What is reported for a type: the pids that were triggered, and how many were busy. -/
def GpuProfilerResult.report (res : GpuProfilerResult) : LibkinetoConfigType → List ℤ × ℕ
  | .events => (res.eventProfilersTriggered, res.eventProfilersBusy)
  | .activities => (res.activityProfilersTriggered, res.activityProfilersBusy)

/-- One of the pids of a process is asked for, or all are. -/
def Matches (pids key : PidSet) : Prop := ∃ pid ∈ key, (pids = [] ∨ pids = [0]) ∨ pid ∈ pids

theorem isMatched_iff {pids key : PidSet} : isMatched pids key = true ↔ Matches pids key := by
  have hall : (decide (pids.length = 0) || (decide (pids.length = 1) && pids.head? = some 0)) = true
      ↔ pids = [] ∨ pids = [0] := by
    rcases pids with - | ⟨pid, - | ⟨pid', pids⟩⟩ <;> simp
  rw [isMatched, List.any_eq_true]
  refine exists_congr fun pid => and_congr_right fun _ => ?_
  rw [Bool.or_eq_true, hall, List.contains_iff_mem]

instance (pids key : PidSet) : Decidable (Matches pids key) := decidable_of_iff _ isMatched_iff

/-- The processes of a job that match, in the order of the table. -/
def matched (jobs : Jobs) (jobId : String) (pids : PidSet) : List LibkinetoProcess :=
  (((jobs.get? jobId).getD .empty).entries.filter fun e => Matches pids e.1).map Prod.snd

/-- Every process that matches is triggered, counted busy, or skipped after the limit. -/
structure Reported (limit : ℕ) (processes : List LibkinetoProcess) (report : List ℤ × ℕ)
    (t : LibkinetoConfigType) : Prop where
  bounded : report.1.length ≤ limit
  split : ∃ os : List Outcome, os.length = processes.length
    ∧ report = (pidsOf .triggered processes os, os.count .busy)
    ∧ (∀ i, os[i]? = some .skipped → limit ≤ (os.take i).count .triggered)
    ∧ ∀ e ∈ processes.zip os, (e.2 = .triggered → e.1.slot t = none)
      ∧ (e.2 = .busy → e.1.slot t ≠ none)

/-! ## One process -/

/-- What is reported once a process was seen. -/
def reportNext (limit : ℕ) (process : LibkinetoProcess) (t : LibkinetoConfigType)
    (report : List ℤ × ℕ) : List ℤ × ℕ :=
  if report.1.length < limit then
    if process.slot t = none then (report.1 ++ [process.pid], report.2)
    else (report.1, report.2 + 1)
  else report

section Set

variable {config : String} {configType limit : BitVec 32} {traceId : ℤ → String}
  {res : GpuProfilerResult} {process : LibkinetoProcess} {t : LibkinetoConfigType}

theorem processesMatched_set :
    (setOnDemandConfigForProcess traceId config configType limit res process).1.processesMatched
      = res.processesMatched ++ [process.pid] := by
  rw [setOnDemandConfigForProcess, setActivityConfig, setEventConfig]
  split_ifs <;> rfl

theorem slot_events_eq_none : process.slot .events = none ↔ process.eventProfilerConfig = "" := by
  rw [LibkinetoProcess.slot]
  split_ifs with h
  · exact iff_of_true rfl h
  · exact iff_of_false not_false h

theorem slot_activities_eq_none :
    process.slot .activities = none ↔ process.activityProfilerConfig = "" := by
  rw [LibkinetoProcess.slot]
  split_ifs with h
  · exact iff_of_true rfl h
  · exact iff_of_false not_false h

theorem report_setEventConfig (ht : LibkinetoConfigType.events.isIn configType = true) :
    (setEventConfig config configType limit res process).1.report .events
      = reportNext (toSize limit) process .events (res.report .events) := by
  simp only [reportNext, setEventConfig, ht, Bool.and_true, GpuProfilerResult.report,
    slot_events_eq_none, decide_eq_true_eq]
  by_cases hlt : res.eventProfilersTriggered.length < toSize limit
  · by_cases hidle : process.eventProfilerConfig = ""
    · rw [if_pos hlt, if_pos hidle, if_pos hlt, if_pos hidle]
    · rw [if_pos hlt, if_neg hidle, if_pos hlt, if_neg hidle]
  · rw [if_neg hlt, if_neg hlt]

theorem report_setActivityConfig
    (ht : LibkinetoConfigType.activities.isIn configType = true) :
    (setActivityConfig traceId config configType limit res process).1.report .activities
      = reportNext (toSize limit) process .activities (res.report .activities) := by
  simp only [reportNext, setActivityConfig, ht, Bool.and_true, GpuProfilerResult.report,
    slot_activities_eq_none, decide_eq_true_eq]
  by_cases hlt : res.activityProfilersTriggered.length < toSize limit
  · by_cases hidle : process.activityProfilerConfig = ""
    · rw [if_pos hlt, if_pos hidle, if_pos hlt, if_pos hidle]
    · rw [if_pos hlt, if_neg hidle, if_pos hlt, if_neg hidle]
  · rw [if_neg hlt, if_neg hlt]

/-! The two types do not see each other. -/

theorem report_setActivityConfig_events :
    (setActivityConfig traceId config configType limit res process).1.report .events
      = res.report .events := by
  rw [setActivityConfig]
  split_ifs <;> rfl

theorem report_setEventConfig_activities :
    (setEventConfig config configType limit res process).1.report .activities
      = res.report .activities := by
  rw [setEventConfig]
  split_ifs <;> rfl

theorem pid_setEventConfig :
    (setEventConfig config configType limit res process).2.pid = process.pid := by
  rw [setEventConfig]
  split_ifs <;> rfl

/-- **One process** is reported for every type that is asked for. -/
theorem report_set (ht : t.isIn configType = true) :
    (setOnDemandConfigForProcess traceId config configType limit res process).1.report t
      = reportNext (toSize limit) process t (res.report t) := by
  rw [setOnDemandConfigForProcess]
  cases t with
  | events =>
    rw [report_setActivityConfig_events, report_setEventConfig ht]
    rfl
  | activities =>
    rw [report_setActivityConfig ht, report_setEventConfig_activities, reportNext,
      slot_setEventConfig, pid_setEventConfig]
    rfl

end Set

/-! ## All processes -/

section Walk

variable {config : String} {configType limit : BitVec 32} {traceId : ℤ → String}
  {pids : PidSet} {t : LibkinetoConfigType}

/-- What is reported of a process does not depend on what was reported before, but for the
number that were triggered. -/
theorem foldl_reportNext (limit : ℕ) (t : LibkinetoConfigType) (report : List ℤ × ℕ)
    (ps : List LibkinetoProcess) :
    ps.foldl (fun report process => reportNext limit process t report) report
      = (report.1 ++ pidsOf .triggered ps (outcomes limit t report.1.length ps),
          report.2 + (outcomes limit t report.1.length ps).count .busy) := by
  induction ps generalizing report with
  | nil =>
    show report = (report.1 ++ [], report.2 + 0)
    rw [List.append_nil, Nat.add_zero]
  | cons p ps ih =>
    rw [List.foldl_cons, ih, reportNext, outcomes]
    split_ifs with hlt hidle
    · simp [pidsOf, List.append_assoc]
    · simp [pidsOf, Nat.add_assoc, Nat.add_comm]
    · simp [pidsOf]

/-- The walk reports the processes that match, one after the other. -/
theorem walk_report (res : GpuProfilerResult) (es : List (PidSet × LibkinetoProcess))
    (ht : t.isIn configType = true) :
    (OrderedMap.walkList (visitProcess pids traceId config configType limit) res es).1.report t
      = ((es.filter fun e => Matches pids e.1).map Prod.snd).foldl
          (fun report process => reportNext (toSize limit) process t report) (res.report t) := by
  induction es generalizing res with
  | nil => rfl
  | cons e es ih =>
    rw [OrderedMap.walkList]
    simp only [ih, visitProcess]
    by_cases hm : Matches pids e.1
    · rw [if_pos (isMatched_iff.mpr hm), report_set ht,
        List.filter_cons, if_pos (decide_eq_true hm), List.map_cons, List.foldl_cons]
    · rw [if_neg (mt isMatched_iff.mp hm), List.filter_cons, decide_eq_false hm,
        if_neg Bool.false_ne_true]

theorem walk_processesMatched (res : GpuProfilerResult) (es : List (PidSet × LibkinetoProcess)) :
    (OrderedMap.walkList (visitProcess pids traceId config configType limit) res
        es).1.processesMatched
      = res.processesMatched
        ++ ((es.filter fun e => Matches pids e.1).map Prod.snd).map LibkinetoProcess.pid := by
  induction es generalizing res with
  | nil => exact (List.append_nil _).symm
  | cons e es ih =>
    rw [OrderedMap.walkList]
    simp only [ih, visitProcess]
    by_cases hm : Matches pids e.1
    · rw [if_pos (isMatched_iff.mpr hm), processesMatched_set,
        List.filter_cons, if_pos (decide_eq_true hm), List.map_cons, List.map_cons,
        List.append_assoc, List.singleton_append]
    · rw [if_neg (mt isMatched_iff.mp hm), List.filter_cons, decide_eq_false hm,
        if_neg Bool.false_ne_true]

variable {jobs : Jobs} {jobId : String}

/-- **The result lists the processes that match** and what became of them. -/
theorem setOnDemandConfig_report (ht : t.isIn configType = true) :
    (setOnDemandConfig jobs jobId pids config configType limit traceId).1.report t
      = (pidsOf .triggered (matched jobs jobId pids)
            (outcomes (toSize limit) t 0 (matched jobs jobId pids)),
          (outcomes (toSize limit) t 0 (matched jobs jobId pids)).count .busy) := by
  have hstart : GpuProfilerResult.none.report t = ([], 0) := by cases t <;> rfl
  rw [setOnDemandConfig, matched]
  cases jobs.get? jobId with
  | none =>
    show GpuProfilerResult.none.report t = _
    rw [hstart]
    rfl
  | some processes =>
    show (OrderedMap.walkList (visitProcess pids traceId config configType limit) .none
      processes.entries).1.report t = _
    rw [walk_report _ _ ht, foldl_reportNext, hstart, List.nil_append, Nat.zero_add]
    rfl

theorem setOnDemandConfig_processesMatched :
    (setOnDemandConfig jobs jobId pids config configType limit traceId).1.processesMatched
      = (matched jobs jobId pids).map LibkinetoProcess.pid := by
  rw [setOnDemandConfig, matched]
  cases jobs.get? jobId with
  | none => rfl
  | some processes => exact walk_processesMatched .none processes.entries

end Walk

/-! ## The limit -/

section Limit

variable {limit n : ℕ} {t : LibkinetoConfigType} {ps : List LibkinetoProcess}

theorem length_outcomes : (outcomes limit t n ps).length = ps.length := by
  induction ps generalizing n with
  | nil => rfl
  | cons p ps ih =>
    rw [outcomes]
    split_ifs <;> rw [List.length_cons, ih, List.length_cons]

theorem count_triggered_le (h : n ≤ limit) :
    n + (outcomes limit t n ps).count .triggered ≤ limit := by
  induction ps generalizing n with
  | nil => exact h
  | cons p ps ih =>
    rw [outcomes]
    split_ifs with hlt hidle
    · have := ih (n := n + 1) hlt
      rw [List.count_cons_self]
      omega
    · rw [List.count_cons_of_ne (by decide)]
      exact ih h
    · rw [List.count_cons_of_ne (by decide)]
      exact ih h

/-- Processes are skipped only once the limit is reached. -/
theorem skipped_outcomes {i : ℕ} (h : (outcomes limit t n ps)[i]? = some .skipped) :
    limit ≤ n + ((outcomes limit t n ps).take i).count .triggered := by
  induction ps generalizing n i with
  | nil => cases h
  | cons p ps ih =>
    rw [outcomes] at h ⊢
    split_ifs at h ⊢ with hlt hidle
    · cases i with
      | zero => cases h
      | succ i =>
        have := ih (List.getElem?_cons_succ.symm.trans h)
        rw [List.take_succ_cons, List.count_cons_self]
        omega
    · cases i with
      | zero => cases h
      | succ i =>
        rw [List.take_succ_cons, List.count_cons_of_ne (by decide)]
        exact ih (List.getElem?_cons_succ.symm.trans h)
    · exact (not_lt.mp hlt).trans (Nat.le_add_right _ _)

/-- A process is triggered where it is idle, and busy where it is not. -/
theorem slot_outcomes : ∀ e ∈ ps.zip (outcomes limit t n ps),
    (e.2 = .triggered → e.1.slot t = none) ∧ (e.2 = .busy → e.1.slot t ≠ none) := by
  induction ps generalizing n with
  | nil => exact fun e he => absurd he List.not_mem_nil
  | cons p ps ih =>
    rw [outcomes]
    split_ifs with hlt hidle
    · exact List.forall_mem_cons.mpr ⟨⟨fun _ => hidle, fun h => nomatch h⟩, ih⟩
    · exact List.forall_mem_cons.mpr ⟨⟨(fun h => nomatch h), fun _ => hidle⟩, ih⟩
    · exact List.forall_mem_cons.mpr ⟨⟨(fun h => nomatch h), fun h => nomatch h⟩, ih⟩

theorem length_pidsOf {o : Outcome} {os : List Outcome} (h : os.length = ps.length) :
    (pidsOf o ps os).length = os.count o := by
  induction ps generalizing os with
  | nil =>
    obtain rfl := List.length_eq_zero_iff.mp h
    rfl
  | cons p ps ih =>
    cases os with
    | nil => cases h
    | cons o' os =>
      have hrest := ih (Nat.succ.inj h)
      rw [pidsOf] at hrest ⊢
      rw [List.zip_cons_cons, List.filter_cons, List.count_cons]
      by_cases ho : o' = o
      · simp [ho, hrest]
      · simp [ho, hrest]

/-- The first process that is idle is triggered. -/
theorem triggered_mem_outcomes (hlimit : 0 < limit) {p : LibkinetoProcess} (hp : p ∈ ps)
    (hidle : p.slot t = none) : 0 < (outcomes limit t 0 ps).count .triggered := by
  induction ps with
  | nil => cases hp
  | cons p' ps ih =>
    rw [outcomes, if_pos hlimit]
    split_ifs with hidle'
    · rw [List.count_cons_self]
      exact Nat.succ_pos _
    · rw [List.count_cons_of_ne (by decide)]
      rcases List.mem_cons.mp hp with rfl | hp
      · exact absurd hidle hidle'
      · exact ih hp

/-- Without an idle process none is triggered or skipped. -/
theorem outcomes_busy (hlimit : 0 < limit) (h : ∀ p ∈ ps, p.slot t ≠ none) :
    outcomes limit t 0 ps = List.replicate ps.length .busy := by
  induction ps with
  | nil => rfl
  | cons p ps ih =>
    rw [outcomes, if_pos hlimit, if_neg (h p List.mem_cons_self),
      ih fun p hp => h p (List.mem_cons_of_mem _ hp), List.length_cons, List.replicate_succ]

end Limit

theorem toSize_of_nonneg {limit : BitVec 32} (h : 0 ≤ limit.toInt) :
    toSize limit = limit.toInt.toNat := by
  have hmsb : limit.msb = false := by
    rw [← Bool.not_eq_true, BitVec.msb_eq_toInt, decide_eq_true_eq]
    exact not_lt.mpr h
  have hlt := limit.isLt
  rw [toSize, BitVec.toNat_signExtend, BitVec.toInt_eq_msb_cond, hmsb, BitVec.toNat_setWidth]
  simp only [Bool.false_eq_true, if_false, Nat.add_zero, Int.toNat_natCast]
  exact Nat.mod_eq_of_lt (by omega)

theorem toSize_pos_of_neg {limit : BitVec 32} (h : limit.toInt < 0) : 0 < toSize limit := by
  have hmsb : limit.msb = true := by
    rw [BitVec.msb_eq_toInt, decide_eq_true_eq]
    exact h
  rw [toSize, BitVec.toNat_signExtend, hmsb, if_pos rfl]
  omega

/-- **The limit is kept** where it is not negative, or where there is nothing to trigger. -/
theorem setOnDemandConfig_reported_iff (jobs : Jobs) (jobId : String) (pids : PidSet)
    (config : String) (configType limit : BitVec 32) (traceId : ℤ → String) :
    let res := (setOnDemandConfig jobs jobId pids config configType limit traceId).1
    (res.processesMatched = (matched jobs jobId pids).map LibkinetoProcess.pid
      ∧ ∀ t : LibkinetoConfigType, t.isIn configType = true →
        Reported limit.toInt.toNat (matched jobs jobId pids) (res.report t) t)
      ↔ 0 ≤ limit.toInt ∨ ∀ t : LibkinetoConfigType, t.isIn configType = true →
          ∀ process ∈ matched jobs jobId pids, process.slot t ≠ none := by
  intro res
  have hreport : ∀ {t : LibkinetoConfigType}, t.isIn configType = true →
      res.report t = (pidsOf .triggered (matched jobs jobId pids)
          (outcomes (toSize limit) t 0 (matched jobs jobId pids)),
        (outcomes (toSize limit) t 0 (matched jobs jobId pids)).count .busy) :=
    fun ht => setOnDemandConfig_report ht
  constructor
  · rintro ⟨-, hreported⟩
    by_contra hnot
    obtain ⟨hneg, hidle⟩ := not_or.mp hnot
    refine hidle fun t ht process hprocess hslot => ?_
    -- the first idle process is triggered although the limit is below zero
    have hbounded := (hreported t ht).bounded
    have htriggered := triggered_mem_outcomes (toSize_pos_of_neg (not_le.mp hneg)) hprocess hslot
    rw [hreport ht, length_pidsOf length_outcomes] at hbounded
    omega
  · refine fun hcond => ⟨setOnDemandConfig_processesMatched, fun t ht => ?_⟩
    by_cases hnonneg : 0 ≤ limit.toInt
    · have hlimit := toSize_of_nonneg hnonneg
      rw [hreport ht, hlimit]
      refine ⟨?_, _, length_outcomes, rfl, fun i hi => ?_, slot_outcomes⟩
      · have hle := @count_triggered_le limit.toInt.toNat 0 t (matched jobs jobId pids)
          (Nat.zero_le _)
        rw [length_pidsOf length_outcomes]
        omega
      · have := skipped_outcomes hi
        omega
    · have hbusy := outcomes_busy (toSize_pos_of_neg (not_le.mp hnonneg))
        (hcond.resolve_left hnonneg t ht)
      rw [hreport ht]
      refine ⟨?_, _, length_outcomes, rfl, fun i hi => ?_, slot_outcomes⟩
      · rw [length_pidsOf length_outcomes, hbusy, List.count_replicate]
        exact Nat.zero_le _
      · rw [hbusy, List.getElem?_replicate] at hi
        split at hi
        · cases hi
        · cases hi

/-- A limit below zero does not keep an idle process from being triggered. -/
theorem setOnDemandConfig_belowZero :
    let jobs : Jobs := (obtainOnDemandConfig .empty "job" 7 [] 3 0).2
    let res := (setOnDemandConfig jobs "job" [] "PROFILE" 2 (BitVec.ofInt 32 (-1)) fun _ => "id").1
    LibkinetoConfigType.activities.isIn 2 = true ∧ res.activityProfilersTriggered = [7]
      ∧ ¬ Reported (BitVec.ofInt 32 (-1)).toInt.toNat (matched jobs "job" [])
          (res.report .activities) .activities := by
  refine ⟨by decide, by decide +kernel, fun h => ?_⟩
  have hbounded := h.bounded
  revert hbounded
  decide +kernel

end Dynolog
end IntegratedCLI
