import IntegratedCLI.Dynolog.AlignedFrames
import IntegratedCLI.Dynolog.IdleCounters
import IntegratedCLI.Lib.Positions
import Mathlib.Data.List.DropRight

/-!
# What a query of the CPU usage returns

A query finds a window of offsets on the time axis of the frame, and reads that window
of the series of an allotment.  The two count alike only if the series got a sample
whenever the axis did.  An allotment that is registered late, or that a tick passes over
because its counters make no sense, has a shorter series: what is read then is not what
was measured in the window.

`Metered` is a monitor with the log of what its ticks measured.  The log of an allotment
ends with its registration: `deRegister` drops it.  `QueriesRight` compares every query
with the log.

`queriesRight` is about runs whose ticks are `Regular`: the axis that the frame takes
them to be on is the one of the log, as far as a window can tell, and an allotment was
measured at all of the ticks that are kept, or at none so far.  `Metered.Inv` holds in
any case: a series holds what was measured.  `not_queriesRight_late` registers an
allotment between two ticks.
-/

namespace IntegratedCLI
namespace Dynolog

/-- What a tick added to a frame. -/
structure Record where
  time : TimePoint
  usages : List (String × ℚ)
  deriving DecidableEq, Repr

namespace Record

def usage (allotmentId : String) (r : Record) : Option ℚ := r.usages.lookup allotmentId

def drop (allotmentId : String) (r : Record) : Record :=
  { r with usages := r.usages.filter fun e => e.1 ≠ allotmentId }

end Record

/-- A monitor, and what was measured. -/
structure Metered where
  monitor : CPUTimeMonitor
  log : Granularity → List Record

namespace Metered

open CPUTimeMonitor

inductive Op where
  | register (allotmentId : String) (cpuSet : List ℤ)
  | deRegister (allotmentId : String)
  | tick (mask : TMask) (idleTime : List UInt64) (lo hi : TimePoint)

def init (coreCount : UInt64) (isUnitTest : Bool) : Metered :=
  ⟨.make coreCount isUnitTest, fun _ => []⟩

/-- What a tick measures for a granularity, if it gets to it. -/
def measured (m : CPUTimeMonitor) (mask : TMask) (idleTime : List UInt64) (lo hi : TimePoint)
    (gran : Granularity) : List Record :=
  if idleTime = [] ∨ gran ∉ dueLevels mask then []
  else
    match m.usageLine idleTime hi gran with
    | some (_, line) => if line = [] then [] else [⟨lo, line⟩]
    | none => []

def step (s : Metered) : Op → Metered
  | .register allotmentId cpuSet =>
    { s with monitor := s.monitor.registerAllotment allotmentId cpuSet }
  | .deRegister allotmentId =>
    ⟨s.monitor.deRegisterAllotment allotmentId, fun gran => (s.log gran).map (·.drop allotmentId)⟩
  | .tick mask idleTime lo hi =>
    match s.monitor.computeUsage mask idleTime lo hi with
    | none => s
    | some m => ⟨m, fun gran => s.log gran ++ measured s.monitor mask idleTime lo hi gran⟩

/-! ## What is asked for -/

/-- What was measured for an allotment at the ticks of the matched window. -/
def inWindow (s : Metered) (gran : Granularity) (now : TimePoint) (secondsAgo : ℕ)
    (allotmentId : Option String) : List ℚ :=
  match (s.monitor.levels gran).frame.ts.getRange (now - secondsAgo * 1000000000) now
      .closest .closest with
  | none => []
  | some range =>
    ((s.log gran).filter fun r => range.start.time ≤ r.time ∧ r.time ≤ range.end_.time).filterMap
      (Record.usage (allotmentId.getD "host"))

/-- The queries use what was measured in the window; they are made after the ticks. -/
def QueriesRight (s : Metered) : Prop :=
  ∀ gran now secondsAgo allotmentId, (∀ r ∈ s.log gran, r.time ≤ now) →
    let values := s.inWindow gran now secondsAgo allotmentId
    s.monitor.getRawCPUCoresUsage gran now secondsAgo allotmentId = values
      ∧ s.monitor.getAvgCPUCoresUsage gran now secondsAgo allotmentId
          = (if values = [] then none else some (avg values))
      ∧ ∀ quant, s.monitor.getQuantileCPUCoresUsage gran now secondsAgo quant allotmentId
          = if 0 ≤ quant ∧ quant ≤ 1 ∧ values ≠ [] then percentile quant values else none

/-! ## Regular ticks -/

/-- The time of the last record; a frame without samples has the time zero. -/
def lastTime (log : List Record) : TimePoint := (log.getLast?.map Record.time).getD 0

/-- How many of the records are kept. -/
def kept (gran : Granularity) (log : List Record) : ℕ := min log.length gran.ringbufferSize

/-- The ticks that are not more than some intervals before the last one are as many as the
frame takes there to be. -/
def OnGrid (gran : Granularity) (log : List Record) : Prop :=
  ∀ c < kept gran log, ∀ i (_ : i < log.length),
    lastTime log - c * (gran.interval * 1000) ≤ log[i].time ↔ log.length ≤ i + c + 1

/-- The allotment was measured at all ticks that are kept, or at none. -/
def Gapless (gran : Granularity) (log : List Record) (allotmentId : String) : Prop :=
  (∀ r ∈ log.rtake gran.ringbufferSize, (r.usage allotmentId).isSome = true)
    ∨ ∀ r ∈ log, r.usage allotmentId = none

/-- The counters that a tick reads are there, and with what it measures the ticks are on the
grid, and no allotment has gaps. -/
def Op.Regular (s : Metered) : Op → Prop
  | .tick mask idleTime lo hi =>
    (s.monitor.computeUsage mask idleTime lo hi).isSome = true
      ∧ ∀ gran ∈ dueLevels mask,
        let log := s.log gran ++ measured s.monitor mask idleTime lo hi gran
        OnGrid gran log
          ∧ ∀ e ∈ s.monitor.allotmentToCpuSet.entries, Gapless gran log e.1
  | _ => True

instance (gran : Granularity) (log : List Record) : Decidable (OnGrid gran log) :=
  inferInstanceAs (Decidable (∀ c < _, ∀ i (_ : i < _), _ ↔ _))

instance (gran : Granularity) (log : List Record) (allotmentId : String) :
    Decidable (Gapless gran log allotmentId) :=
  inferInstanceAs (Decidable (_ ∨ _))

instance (s : Metered) : ∀ op, Decidable (Op.Regular s op)
  | .tick _ _ _ _ => inferInstanceAs (Decidable (_ ∧ _))
  | .register _ _ => isTrue trivial
  | .deRegister _ => isTrue trivial

end Metered

/-! ## What a frame shows of a log -/

namespace Record

variable {key key' : String} {r : Record}

theorem usage_drop : (r.drop key).usage key' = if key' = key then none else r.usage key' := by
  obtain ⟨time, usages⟩ := r
  show (usages.filter fun e => e.1 ≠ key).lookup key'
    = if key' = key then none else usages.lookup key'
  induction usages with
  | nil => split <;> rfl
  | cons e usages ih =>
    rw [List.filter_cons, OrderedMap.lookup_cons']
    by_cases he : e.1 = key
    · rw [if_neg (by simp [he]), ih]
      split
      · rfl
      · rename_i hne
        rw [if_neg (he ▸ hne)]
    · rw [if_pos (by simp [he]), OrderedMap.lookup_cons', ih]
      split
      · rename_i heq
        rw [if_neg (heq ▸ he)]
      · rfl

theorem filterMap_usage_drop {log : List Record} :
    (log.map (·.drop key)).filterMap (usage key')
      = if key' = key then [] else log.filterMap (usage key') := by
  rw [List.filterMap_map]
  split
  · rename_i h
    refine List.filterMap_eq_nil_iff.mpr fun r _ => ?_
    exact usage_drop.trans (if_pos h)
  · rename_i h
    exact List.filterMap_congr fun r _ => usage_drop.trans (if_neg h)

end Record

namespace MetricFrameMap

variable {f : MetricFrameMap ℚ} {line : List (String × ℚ)} {time : TimePoint}

theorem after_addSeries {key : String} {v : MetricSeriesVar ℚ} (h : f.series.get? key = none) :
    Effect.after (addSeries key v) f = { f with series := f.series.emplace key v } := by
  have hnew : ¬ (f.series.get? key).isSome = true := by
    rw [h]
    decide
  rw [Effect.after, addSeries, Effect.run_get, if_neg hnew]
  rfl

/-- The loop gives a sample to the series that are in the line. -/
theorem outcome_updateLine (hnodup : (line.map Prod.fst).Nodup)
    (hline : ∀ e ∈ line, ∃ series, f.series.get? e.1 = some (.double series)) :
    Effect.Outcome
      (forM (line.map fun e => (e.1, SampleVarT.double e.2))
        (updateSeries MetricSeriesVar.addSample))
      (fun _ f' => f'.ts = f.ts
        ∧ (∀ key series, f.series.get? key = some (.double series) →
            f'.series.get? key
              = some (.double ((line.lookup key).toList.foldl MetricSeries.addSample series)))
        ∧ ∀ key, f.series.get? key = none → f'.series.get? key = none)
      (fun _ _ => False) f := by
  induction line generalizing f with
  | nil => exact ⟨rfl, fun key series h => h, fun key h => h⟩
  | cons e line ih =>
    obtain ⟨series, hseries⟩ := hline e (by simp)
    obtain ⟨hnot, hnodup⟩ := List.nodup_cons.mp hnodup
    have hadd : MetricSeriesVar.addSample (.double e.2) (.double series)
        = .ok (.double (series.addSample e.2)) := rfl
    rw [List.map_cons, List.forM_cons]
    simp only [Effect.outcome_bind, updateSeries, Effect.outcome_get, hseries, hadd,
      Effect.lift_ok, Effect.outcome_pure, Effect.outcome_set]
    refine (ih hnodup fun e' he' => ?_).mono (fun _ f' h => ?_) fun _ _ h => h
    · have hne : e'.1 ≠ e.1 := fun heq => hnot (heq ▸ List.mem_map_of_mem he')
      rw [OrderedMap.get?_modify, if_neg hne]
      exact hline e' (List.mem_cons_of_mem _ he')
    · obtain ⟨hts, hsome, hnone⟩ := h
      refine ⟨hts, fun key s hs => ?_, fun key hkey => hnone key ?_⟩
      · by_cases hkey : key = e.1
        · subst hkey
          obtain rfl : s = series := MetricSeriesVar.double.inj (Option.some.inj (hs.symm.trans hseries))
          have hlookup : line.lookup e.1 = none := by
            refine List.lookup_eq_none_iff.mpr fun e' he' => bne_iff_ne.mpr fun heq => hnot ?_
            exact List.mem_map.mpr ⟨e', he', heq.symm⟩
          rw [hsome e.1 (s.addSample e.2) (by rw [OrderedMap.get?_modify, if_pos rfl, hs]; rfl),
            hlookup, OrderedMap.lookup_cons', if_pos rfl]
          rfl
        · rw [hsome key s (by rw [OrderedMap.get?_modify, if_neg hkey, hs]),
            OrderedMap.lookup_cons', if_neg hkey]
      · have hne : key ≠ e.1 := by
          rintro rfl
          rw [hseries] at hkey
          cases hkey
        rw [OrderedMap.get?_modify, if_neg hne, hkey]

end MetricFrameMap

namespace Metered

open CPUTimeMonitor

/-- The frame has the times of the log as far as it keeps times, and the values of all
allotments that are registered. -/
structure Shows (gran : Granularity) (log : List Record) (sets : OrderedMap String (List ℤ))
    (frame : MetricFrameMap ℚ) : Prop where
  ts : frame.ts
    = .fixInterval ⟨gran.interval, gran.ringbufferSize, kept gran log, lastTime log⟩
  registered : ∀ key, (sets.get? key).isSome = true →
    ∃ series, frame.series.get? key = some (.double series)
      ∧ series.maxLength = gran.ringbufferSize
      ∧ series.Holds (log.filterMap (Record.usage key))
  unregistered : ∀ key, sets.get? key = none →
    frame.series.get? key = none ∧ log.filterMap (Record.usage key) = []

variable {gran : Granularity} {log : List Record} {sets : OrderedMap String (List ℤ)}
  {frame : MetricFrameMap ℚ} {key : String}

theorem lastTime_concat (r : Record) : lastTime (log ++ [r]) = r.time := by
  rw [lastTime, List.getLast?_concat]
  rfl

theorem kept_concat (r : Record) :
    kept gran (log ++ [r]) = min gran.ringbufferSize (kept gran log + 1) := by
  rw [kept, kept, List.length_append, List.length_singleton]
  omega

theorem ringbufferSize_pos (gran : Granularity) : 0 < gran.ringbufferSize := by
  cases gran <;> decide

theorem Shows.insert (h : Shows gran log sets frame) (hkey : sets.get? key = none)
    (cpuSet : List ℤ) :
    Shows gran log (sets.put key cpuSet)
      (Effect.after (MetricFrameMap.addSeries key (newSeries gran)) frame) := by
  obtain ⟨hseries, hlog⟩ := h.unregistered key hkey
  rw [MetricFrameMap.after_addSeries hseries]
  refine ⟨h.ts, fun key' hkey' => ?_, fun key' hkey' => ?_⟩
  · rw [OrderedMap.get?_put] at hkey'
    rw [OrderedMap.get?_emplace, hseries]
    split at hkey'
    · rename_i heq
      subst heq
      rw [if_pos rfl, hlog]
      exact ⟨_, rfl, List.length_replicate, MetricSeries.holds_make (ringbufferSize_pos gran)⟩
    · rename_i hne
      rw [if_neg hne]
      exact h.registered key' hkey'
  · rw [OrderedMap.get?_put] at hkey'
    rw [OrderedMap.get?_emplace]
    split at hkey'
    · cases hkey'
    · rename_i hne
      rw [if_neg hne]
      exact h.unregistered key' hkey'

theorem Shows.deRegister (h : Shows gran log sets frame) (key : String) :
    Shows gran (log.map (·.drop key)) (sets.filter fun key' _ => key' ≠ key)
      (Effect.after (MetricFrameMap.eraseSeries key) frame) := by
  have hframe : Effect.after (MetricFrameMap.eraseSeries key) frame
      = { frame with series := frame.series.filter fun key' _ => key' ≠ key } := rfl
  have hkept : kept gran (log.map (·.drop key)) = kept gran log := by
    rw [kept, List.length_map, kept]
  have hlast : lastTime (log.map (·.drop key)) = lastTime log := by
    rw [lastTime, List.getLast?_map, Option.map_map, lastTime]
    rfl
  rw [hframe]
  refine ⟨by rw [hkept, hlast]; exact h.ts, fun key' hkey' => ?_, fun key' hkey' => ?_⟩
  · rw [OrderedMap.get?_filter_ne] at hkey' ⊢
    by_cases hne : key' = key
    · rw [if_pos hne] at hkey'
      cases hkey'
    · rw [if_neg hne] at hkey' ⊢
      rw [Record.filterMap_usage_drop, if_neg hne]
      exact h.registered key' hkey'
  · rw [OrderedMap.get?_filter_ne] at hkey' ⊢
    rw [Record.filterMap_usage_drop]
    by_cases hne : key' = key
    · rw [if_pos hne, if_pos hne]
      exact ⟨rfl, rfl⟩
    · rw [if_neg hne] at hkey' ⊢
      rw [if_neg hne]
      exact h.unregistered key' hkey'

theorem maxLength_foldl (x : Option ℚ) (series : MetricSeries ℚ) :
    (x.toList.foldl MetricSeries.addSample series).maxLength = series.maxLength := by
  cases x with
  | none => rfl
  | some x => exact MetricSeries.maxLength_addSample

theorem filterMap_usage_append {time : TimePoint} {line : List (String × ℚ)} :
    (log ++ [Record.mk time line]).filterMap (Record.usage key)
      = log.filterMap (Record.usage key) ++ (line.lookup key).toList :=
  List.filterMap_append

/-- A line is added to the axis, and to the series that are in it. -/
theorem Shows.addSamples (h : Shows gran log sets frame) {line : List (String × ℚ)}
    (hline : (line.map Prod.fst).Sublist (sets.entries.map Prod.fst)) (time : TimePoint) :
    Shows gran (log ++ [⟨time, line⟩]) sets
      (Effect.after
        (MetricFrameMap.addSamples (line.map fun e => (e.1, SampleVarT.double e.2)) time) frame) := by
  have hnodup : (line.map Prod.fst).Nodup :=
    hline.nodup (List.pairwise_map.mpr (sets.sorted.imp ne_of_lt))
  have hsets : ∀ e ∈ line, (sets.get? e.1).isSome = true := by
    intro e he
    obtain ⟨e', he', heq⟩ := List.mem_map.mp (hline.subset (List.mem_map_of_mem he))
    rw [← heq, OrderedMap.mem_entries.mp he']
    rfl
  have hdouble : ∀ e ∈ line, ∃ series, frame.series.get? e.1 = some (.double series) := by
    intro e he
    obtain ⟨series, hseries, -⟩ := h.registered e.1 (hsets e he)
    exact ⟨series, hseries⟩
  have hknown : ¬ ∃ sample ∈ line.map (fun e => (e.1, SampleVarT.double e.2)),
      frame.series.get? sample.1 = none := by
    rintro ⟨sample, hmem, hnone⟩
    obtain ⟨e, he, rfl⟩ := List.mem_map.mp hmem
    obtain ⟨series, hseries⟩ := hdouble e he
    rw [hseries] at hnone
    cases hnone
  refine Effect.outcome_after.mp ?_
  rw [MetricFrameMap.addSamples, Effect.Outcome, MetricFrameMap.updateSamples_known hknown]
  show Effect.Outcome _ _ _ frame
  rw [Effect.outcome_bind]
  refine (MetricFrameMap.outcome_updateLine hnodup hdouble).mono ?_ fun _ _ h => h.elim
  rintro _ f₁ ⟨hts, hsome, hnone⟩
  have hadd : f₁.ts.addSample time
      = .ok (.fixInterval ⟨gran.interval, gran.ringbufferSize,
          kept gran (log ++ [⟨time, line⟩]), lastTime (log ++ [⟨time, line⟩])⟩) := by
    rw [hts, h.ts, lastTime_concat, kept_concat]
    rfl
  simp only [MetricFrameMap.addTime, Effect.outcome_bind, Effect.outcome_get, hadd, Effect.lift_ok,
    Effect.outcome_pure, Effect.outcome_set]
  refine ⟨rfl, fun key hkey => ?_, fun key hkey => ?_⟩
  · obtain ⟨series, hseries, hmax, hholds⟩ := h.registered key hkey
    refine ⟨_, hsome key series hseries, (maxLength_foldl _ _).trans hmax, ?_⟩
    rw [filterMap_usage_append]
    exact hholds.foldl_addSample _
  · obtain ⟨hseries, hlog⟩ := h.unregistered key hkey
    have hlookup : line.lookup key = none := by
      refine List.lookup_eq_none_iff.mpr fun e he => bne_iff_ne.mpr fun heq => ?_
      have hin := hsets e he
      rw [← heq, hkey] at hin
      cases hin
    rw [filterMap_usage_append, hlog, hlookup]
    exact ⟨hnone key hseries, rfl⟩

/-! ## Runs -/

variable {m m' : CPUTimeMonitor} {idleTime : List UInt64} {lo hi : TimePoint} {mask : TMask}
  {s : Metered} {op : Op}

/-- A line has the allotments in their order, some of them. -/
theorem line_of_visits {wallDelta : UInt64} {es : List (String × List ℤ)}
    {acc acc' : OrderedMap String UInt64 × List (String × ℚ)}
    (h : es.foldlM (m.visitAllotment idleTime wallDelta) acc = some acc') :
    ∃ line, acc'.2 = acc.2 ++ line ∧ (line.map Prod.fst).Sublist (es.map Prod.fst) := by
  induction es generalizing acc with
  | nil =>
    cases h
    exact ⟨[], (List.append_nil _).symm, List.Sublist.refl _⟩
  | cons e es ih =>
    obtain ⟨acc₁, hacc₁, h⟩ := Option.bind_eq_some_iff.mp h
    obtain ⟨r, -, rfl⟩ := Option.map_eq_some_iff.mp hacc₁
    obtain ⟨line, hline, hsub⟩ := ih h
    refine ⟨_, hline.trans (List.append_assoc _ _ _), ?_⟩
    cases usageSince (acc.1.get? e.1) r.1 r.2 wallDelta with
    | none => exact hsub.cons e.1
    | some usage => exact hsub.cons_cons e.1

theorem usageLine_keys {last : OrderedMap String UInt64} {line : List (String × ℚ)}
    (h : m.usageLine idleTime hi gran = some (last, line)) :
    (line.map Prod.fst).Sublist (m.allotmentToCpuSet.entries.map Prod.fst) := by
  obtain ⟨line', hline, hsub⟩ := line_of_visits h
  exact (show line = line' from hline) ▸ hsub

/-- What a tick makes of a level that is due, and of one that is not. -/
theorem levels_of_foldlM {grans : List Granularity} (hnodup : grans.Nodup)
    (h : grans.foldlM (fun m gran => makeCoresUsage m idleTime lo hi gran) m = some m')
    (gran : Granularity) :
    (gran ∈ grans → ∃ acc, m.usageLine idleTime hi gran = some acc
        ∧ (m'.levels gran).frame = addLine (m.levels gran).frame acc.2 lo)
      ∧ (gran ∉ grans → m'.levels gran = m.levels gran) := by
  induction grans generalizing m with
  | nil =>
    cases h
    exact ⟨fun hmem => (List.not_mem_nil hmem).elim, fun _ => rfl⟩
  | cons g grans ih =>
    obtain ⟨hnot, hnodup⟩ := List.nodup_cons.mp hnodup
    obtain ⟨m₁, hm₁, h⟩ := Option.bind_eq_some_iff.mp h
    obtain ⟨acc, hacc, rfl⟩ := Option.map_eq_some_iff.mp hm₁
    obtain ⟨hin, hout⟩ := ih hnodup h
    by_cases heq : gran = g
    · subst heq
      refine ⟨fun _ => ⟨acc, hacc, ?_⟩, fun hmem => absurd (List.mem_cons_self) hmem⟩
      rw [hout hnot]
      show (Function.update m.levels gran _ gran).frame = _
      rw [Function.update_self]
    · have hlevel : Function.update m.levels g ⟨addLine (m.levels g).frame acc.2 lo, acc.1, lo⟩ gran
          = m.levels gran := Function.update_of_ne heq ..
      refine ⟨fun hmem => ?_, fun hmem => ?_⟩
      · obtain ⟨acc', hacc', hframe⟩ := hin (List.mem_of_ne_of_mem heq hmem)
        refine ⟨acc', ?_, ?_⟩
        · rw [← hacc', usageLine, usageLine]
          simp only [hlevel]
          rfl
        · rw [hframe]
          simp only [hlevel]
      · rw [hout fun hmem' => hmem (List.mem_cons_of_mem g hmem')]
        exact hlevel

theorem nodup_dueLevels (mask : TMask) : (dueLevels mask).Nodup := by
  rw [dueLevels]
  split <;> split <;> split <;> decide

/-- **A tick adds what it measures.** -/
theorem Shows.tick (h : Shows gran log m.allotmentToCpuSet (m.levels gran).frame)
    (htick : m.computeUsage mask idleTime lo hi = some m') :
    Shows gran (log ++ measured m mask idleTime lo hi gran) m.allotmentToCpuSet
      (m'.levels gran).frame := by
  rw [computeUsage] at htick
  rw [measured]
  split at htick
  · rename_i hidle
    cases htick
    rw [if_pos (.inl hidle), List.append_nil]
    exact h
  · rename_i hidle
    obtain ⟨hin, hout⟩ := levels_of_foldlM (nodup_dueLevels mask) htick gran
    by_cases hmem : gran ∈ dueLevels mask
    · obtain ⟨acc, hacc, hframe⟩ := hin hmem
      rw [if_neg (not_or.mpr ⟨hidle, not_not.mpr hmem⟩), hacc, hframe]
      show Shows gran (log ++ if acc.2 = [] then [] else [⟨lo, acc.2⟩]) _ _
      rw [addLine]
      split
      · rw [List.append_nil]
        exact h
      · exact h.addSamples (usageLine_keys hacc) lo
    · rw [if_pos (.inr hmem), List.append_nil, hout hmem]
      exact h

/-- Every frame shows what was measured. -/
def Inv (s : Metered) : Prop :=
  ∀ gran, Shows gran (s.log gran) s.monitor.allotmentToCpuSet (s.monitor.levels gran).frame

theorem inv_init (coreCount : UInt64) (isUnitTest : Bool) : Inv (init coreCount isUnitTest) := by
  intro gran
  have hhost : ∀ {ν : Type} (v : ν) (key : String),
      (OrderedMap.empty.emplace "host" v).get? key = if key = "host" then some v else none :=
    fun v key => OrderedMap.get?_emplace
  refine ⟨?_, fun key hkey => ?_, fun key hkey => ?_⟩
  · show MetricFrameTsUnitInterface.fixInterval _ = _
    rw [kept]
    rfl
  · have hkey' : key = "host" := by
      by_contra hne
      rw [show (init coreCount isUnitTest).monitor.allotmentToCpuSet.get? key = none from
        (hhost _ key).trans (if_neg hne)] at hkey
      cases hkey
    exact ⟨_, (hhost _ key).trans (if_pos hkey'), List.length_replicate,
      MetricSeries.holds_make (ringbufferSize_pos gran)⟩
  · have hne : key ≠ "host" := by
      rintro rfl
      cases hkey
    exact ⟨(hhost _ key).trans (if_neg hne), rfl⟩

theorem Inv.step (h : Inv s) (op : Op) : Inv (s.step op) := by
  cases op with
  | register allotmentId cpuSet =>
    intro gran
    rw [Metered.step, registerAllotment]
    split
    · rename_i hcan
      exact (h gran).insert (of_decide_eq_true hcan).2.2 cpuSet
    · exact h gran
  | deRegister allotmentId => exact fun gran => (h gran).deRegister allotmentId
  | tick mask idleTime lo hi =>
    intro gran
    rw [Metered.step]
    split
    · exact h gran
    · rename_i m hm
      rw [(allotments_of_computeUsage hm).1]
      exact (h gran).tick hm

/-! ## Queries -/

/-- The ticks of a window are the last ones. -/
theorem OnGrid.window (h : OnGrid gran log) {c : ℕ} (hc : c < kept gran log) :
    log.filter (fun r => lastTime log - c * (gran.interval * 1000) ≤ r.time ∧ r.time ≤ lastTime log)
      = log.drop (log.length - (c + 1)) := by
  have hlen : c < log.length := lt_of_lt_of_le hc (Nat.min_le_left _ _)
  have hkept : 0 < kept gran log := Nat.zero_lt_of_lt hc
  refine Positions.filter_eq_drop fun i hi => ?_
  have hle : log[i].time ≤ lastTime log := by
    by_cases hlast : log.length ≤ i + 1
    · have hget : log[i] = log.getLast (List.ne_nil_of_length_pos (by omega)) := by
        rw [List.getLast_eq_getElem]
        congr 1
        omega
      rw [hget, lastTime, List.getLast?_eq_getLast_of_ne_nil]
      exact Int.le_refl _
    · have hzero := (h 0 hkept i hi).mp.mt hlast
      rw [Int.natCast_zero, Int.zero_mul, Int.sub_zero] at hzero
      exact (not_le.mp hzero).le
  rw [decide_eq_true_iff, and_iff_left hle, h c hc i hi]
  omega

/-- An allotment that was measured at all ticks that are kept is read at those of the
window. -/
theorem raw_eq {series : MetricSeries ℚ} (hmax : series.maxLength = gran.ringbufferSize)
    (hseries : series.Holds (log.filterMap (Record.usage key)))
    (hkept : ∀ r ∈ log.rtake gran.ringbufferSize, (r.usage key).isSome = true) {c : ℕ}
    (hc : c < kept gran log) :
    series.size = kept gran log
      ∧ series.raw (kept gran log - 1 - c) (kept gran log - 1 + 1)
        = (log.drop (log.length - (c + 1))).filterMap (Record.usage key)
      ∧ (log.drop (log.length - (c + 1))).filterMap (Record.usage key) ≠ [] := by
  have hall : ∀ k, log.length - gran.ringbufferSize ≤ k → ∀ r ∈ log.drop k,
      (r.usage key).isSome = true := fun k hk r hr =>
    hkept r (List.drop_subset_drop_left log hk hr)
  have hle : (log.filterMap (Record.usage key)).length ≤ log.length := List.length_filterMap_le _ _
  have hge : kept gran log ≤ (log.filterMap (Record.usage key)).length := by
    have hsub := ((List.drop_sublist (log.length - gran.ringbufferSize) log).filterMap
      (Record.usage key)).length_le
    rw [List.filterMap_length_eq_length.mpr (hall _ (Nat.le_refl _)), List.length_drop] at hsub
    rw [kept]
    omega
  have hsize : series.size = kept gran log := by
    have hR : series.data.length = gran.ringbufferSize := hmax
    rw [hseries.size, hR]
    rw [kept] at hge ⊢
    omega
  have hlen : c < log.length := lt_of_lt_of_le hc (Nat.min_le_left _ _)
  have hwindow : ∀ r ∈ log.drop (log.length - (c + 1)), (r.usage key).isSome = true := by
    refine hall _ ?_
    rw [kept] at hc
    omega
  have hlast := Positions.drop_filterMap hwindow
  have hfrom : log.length - (log.length - (c + 1)) = c + 1 := by omega
  refine ⟨hsize, ?_, fun hnil => ?_⟩
  · rw [hseries.raw (by omega), hsize, List.drop_drop, ← hlast, hfrom]
    have hpos : (log.filterMap (Record.usage key)).length - kept gran log + (kept gran log - 1 - c)
        = (log.filterMap (Record.usage key)).length - (c + 1) := by omega
    rw [hpos]
    refine List.take_of_length_le ?_
    rw [List.length_drop]
    omega
  · have hlength := List.filterMap_length_eq_length.mpr hwindow
    rw [hnil, List.length_nil, List.length_drop] at hlength
    omega

/-- The ticks are on the grid, and no allotment has gaps. -/
def Even (s : Metered) : Prop :=
  ∀ gran, OnGrid gran (s.log gran)
    ∧ ∀ e ∈ s.monitor.allotmentToCpuSet.entries, Gapless gran (s.log gran) e.1

theorem interval_pos (gran : Granularity) : 0 < gran.interval := by
  cases gran <;> decide

/-- The frame finds a window of the newest samples. -/
theorem Shows.getRange (h : Shows gran log sets frame) (hne : log ≠ []) {now : TimePoint}
    (hnow : ∀ r ∈ log, r.time ≤ now) (start : TimePoint) :
    ∃ c < kept gran log, frame.ts.getRange start now .closest .closest
      = some ⟨⟨kept gran log - 1 - c, lastTime log - c * (gran.interval * 1000)⟩,
          ⟨kept gran log - 1, lastTime log⟩⟩ := by
  have hpos : 0 < kept gran log :=
    Nat.lt_min.mpr ⟨List.length_pos_iff.mpr hne, ringbufferSize_pos gran⟩
  have hlast : lastTime log ≤ now := by
    rw [lastTime, List.getLast?_eq_getLast_of_ne_nil hne]
    exact hnow _ (List.getLast_mem hne)
  rw [h.ts]
  exact @MetricFrameTsUnitFixInterval.getRange_now
    ⟨gran.interval, gran.ringbufferSize, kept gran log, lastTime log⟩ start (interval_pos gran)
    hpos.ne' now hlast

theorem Inv.stretch_eq (h : Inv s) (heven : s.Even) {now : TimePoint}
    (hnow : ∀ r ∈ s.log gran, r.time ≤ now) (secondsAgo : ℕ) (allotmentId : Option String) :
    s.monitor.stretch gran now secondsAgo allotmentId
      = if s.inWindow gran now secondsAgo allotmentId = [] then none
        else some (s.inWindow gran now secondsAgo allotmentId) := by
  obtain ⟨hgrid, hgap⟩ := heven gran
  have hshows := h gran
  rw [stretch]
  by_cases hne : s.log gran = []
  · have hempty : (s.monitor.levels gran).frame.ts.getRange (now - secondsAgo * 1000000000) now
        .closest .closest = none := by
      rw [hshows.ts, hne]
      rfl
    have hwindow : s.inWindow gran now secondsAgo allotmentId = [] := by rw [inWindow, hempty]
    rw [hempty, if_pos hwindow]
  · obtain ⟨c, hc, hrange⟩ := hshows.getRange hne hnow (now - secondsAgo * 1000000000)
    have hwindow : s.inWindow gran now secondsAgo allotmentId
        = ((s.log gran).drop ((s.log gran).length - (c + 1))).filterMap
            (Record.usage (allotmentId.getD "host")) := by
      rw [inWindow, hrange]
      exact congrArg _ (hgrid.window hc)
    rw [hrange, hwindow]
    generalize allotmentId.getD "host" = key
    dsimp only
    have hnone : (∀ r ∈ s.log gran, r.usage key = none) →
        ((s.log gran).drop ((s.log gran).length - (c + 1))).filterMap (Record.usage key) = [] :=
      fun hall => List.filterMap_eq_nil_iff.mpr fun r hr => hall r (List.mem_of_mem_drop hr)
    cases hsets : s.monitor.allotmentToCpuSet.get? key with
    | none =>
      obtain ⟨hseries, hlog⟩ := hshows.unregistered key hsets
      rw [hseries, if_pos (hnone (List.filterMap_eq_nil_iff.mp hlog))]
    | some cpuSet =>
      obtain ⟨series, hseries, hmax, hholds⟩ := hshows.registered key (by rw [hsets]; rfl)
      rw [hseries]
      dsimp only
      rcases hgap _ (OrderedMap.mem_entries.mpr hsets) with hkept | hall
      · obtain ⟨hsize, hraw, hvalues⟩ := raw_eq hmax hholds hkept hc
        rw [if_neg (by omega), if_neg hvalues, hraw]
      · have hsize : series.size = 0 := by
          rw [hholds.size, List.filterMap_eq_nil_iff.mpr hall]
          exact Nat.zero_min _
        rw [if_pos hsize, if_pos (hnone hall)]

theorem Inv.right (h : Inv s) (heven : s.Even) : QueriesRight s := by
  intro gran now secondsAgo allotmentId hnow values
  have hstretch := h.stretch_eq heven hnow secondsAgo allotmentId
  rw [getRawCPUCoresUsage, getAvgCPUCoresUsage, hstretch]
  refine ⟨?_, ?_, fun quant => ?_⟩
  · split
    · rename_i hnil
      exact hnil.symm
    · rfl
  · show Option.map avg (if values = [] then none else some values) = _
    split <;> rfl
  · rw [getQuantileCPUCoresUsage, hstretch]
    show (if _ then (if values = [] then none else some values).bind _ else none) = _
    by_cases hquant : 0 ≤ quant ∧ quant ≤ 1
    · rw [if_pos hquant]
      by_cases hnil : values = []
      · rw [if_pos hnil, if_neg fun h => h.2.2 hnil]
        rfl
      · rw [if_neg hnil, if_pos ⟨hquant.1, hquant.2, hnil⟩]
        rfl
    · rw [if_neg hquant, if_neg fun h => hquant ⟨h.1, h.2.1⟩]

/-! ## Regular runs -/

theorem onGrid_drop (h : OnGrid gran log) (key : String) : OnGrid gran (log.map (·.drop key)) := by
  have hlast : lastTime (log.map (·.drop key)) = lastTime log := by
    rw [lastTime, List.getLast?_map, Option.map_map, lastTime]
    rfl
  intro c hc i hi
  rw [kept, List.length_map] at hc
  rw [hlast, List.getElem_map]
  refine (h c hc i (by rwa [List.length_map] at hi)).trans ?_
  rw [List.length_map]

theorem gapless_drop {key' : String} (h : Gapless gran log key') (hne : key' ≠ key) :
    Gapless gran (log.map (·.drop key)) key' := by
  have husage : ∀ r : Record, (r.drop key).usage key' = r.usage key' :=
    fun r => Record.usage_drop.trans (if_neg hne)
  refine h.imp (fun h r hr => ?_) fun h r hr => ?_
  · rw [List.rtake, List.length_map, ← List.map_drop] at hr
    obtain ⟨r, hmem, rfl⟩ := List.mem_map.mp hr
    rw [husage]
    exact h r hmem
  · obtain ⟨r, hmem, rfl⟩ := List.mem_map.mp hr
    rw [husage]
    exact h r hmem

theorem even_init (coreCount : UInt64) (isUnitTest : Bool) : Even (init coreCount isUnitTest) :=
  fun _ => ⟨fun _ _ i hi => absurd hi (Nat.not_lt_zero i), fun _ _ => .inr nofun⟩

theorem Inv.even_step (h : Inv s) (heven : s.Even) (hop : op.Regular s) : (s.step op).Even := by
  cases op with
  | register allotmentId cpuSet =>
    rw [Metered.step, registerAllotment]
    split
    · rename_i hcan
      refine fun gran => ⟨(heven gran).1, fun e he => ?_⟩
      have hget : (s.monitor.allotmentToCpuSet.put allotmentId cpuSet).get? e.1 = some e.2 :=
        OrderedMap.mem_entries.mp he
      rw [OrderedMap.get?_put] at hget
      split at hget
      · rename_i heq
        have hnew := ((h gran).unregistered allotmentId (of_decide_eq_true hcan).2.2).2
        rw [heq]
        exact .inr (List.filterMap_eq_nil_iff.mp hnew)
      · exact (heven gran).2 e (OrderedMap.mem_entries.mpr hget)
    · exact heven
  | deRegister allotmentId =>
    refine fun gran => ⟨onGrid_drop (heven gran).1 allotmentId, fun e he => ?_⟩
    obtain ⟨he, hne⟩ := List.mem_filter.mp he
    exact gapless_drop ((heven gran).2 e he) (of_decide_eq_true hne)
  | tick mask idleTime lo hi =>
    obtain ⟨hsome, hregular⟩ := hop
    obtain ⟨m, hm⟩ := Option.isSome_iff_exists.mp hsome
    intro gran
    have hsets := (allotments_of_computeUsage hm).1
    rw [Metered.step, hm]
    show OnGrid gran (s.log gran ++ measured s.monitor mask idleTime lo hi gran)
      ∧ ∀ e ∈ m.allotmentToCpuSet.entries, Gapless gran (s.log gran ++ _) e.1
    rw [hsets]
    by_cases hdue : gran ∈ dueLevels mask
    · exact hregular gran hdue
    · rw [measured, if_pos (.inr hdue), List.append_nil]
      exact heven gran

/-- **The queries use what was measured**, throughout every run whose ticks are regular. -/
theorem queriesRight (coreCount : UInt64) (isUnitTest : Bool) (ops : List Op)
    (hops : Run.Along step (fun s op => op.Regular s) (init coreCount isUnitTest) ops) :
    Run.Throughout step QueriesRight (init coreCount isUnitTest) ops :=
  (Run.throughout_of_along (P := fun s => s.Inv ∧ s.Even)
    (fun _ op h hop => ⟨h.1.step op, h.1.even_step h.2 hop⟩)
    ⟨inv_init coreCount isUnitTest, even_init coreCount isUnitTest⟩ hops).mono
    fun _ h => h.1.right h.2

/-- The host is measured every minute. -/
def hostMinutes : List Op :=
  [.tick 1 [0] 60000000000 60000000000, .tick 1 [3000] 120000000000 120000000000,
    .tick 1 [6000] 180000000000 180000000000]

theorem queriesRight_hostMinutes : Run.Throughout step QueriesRight (init 1 false) hostMinutes :=
  queriesRight 1 false hostMinutes (by decide +kernel)

/-- Between two ticks an allotment is registered. -/
def lateRegistration : List Op :=
  [.tick 1 [0] 60000000000 60000000000, .tick 1 [3000] 120000000000 120000000000,
    .register "a" [], .tick 1 [3000] 180000000000 180000000000,
    .tick 1 [6000] 240000000000 240000000000]

/-- One value was measured in the last minute, and the query returns it twice. -/
theorem not_queriesRight_late :
    ¬ Run.Throughout step QueriesRight (init 1 false) lateRegistration
      ∧ (lateRegistration.foldl step (init 1 false)).inWindow .minute 240000000000 60 (some "a")
          = [1 / 2]
      ∧ (lateRegistration.foldl step (init 1 false)).monitor.getRawCPUCoresUsage
          .minute 240000000000 60 (some "a") = [1 / 2, 1 / 2] := by
  have hwindow : (lateRegistration.foldl step (init 1 false)).inWindow .minute 240000000000 60
      (some "a") = [1 / 2] := by decide +kernel
  have hraw : (lateRegistration.foldl step (init 1 false)).monitor.getRawCPUCoresUsage
      .minute 240000000000 60 (some "a") = [1 / 2, 1 / 2] := by decide +kernel
  have hafter : ∀ r ∈ (lateRegistration.foldl step (init 1 false)).log .minute,
      r.time ≤ 240000000000 := by decide +kernel
  refine ⟨fun h => ?_, hwindow, hraw⟩
  have hright := (h.last .minute 240000000000 60 (some "a") hafter).1
  rw [hraw, hwindow] at hright
  exact absurd (congrArg List.length hright) (by decide)

end Metered

end Dynolog
end IntegratedCLI
