import IntegratedCLI.Dynolog.MetricFrame
import Mathlib.Data.List.Perm.Basic

/-!
# Frames whose series are as long as their time unit

`AllOrNothing` says of a call that it either returns true, and then the time unit and
every series of the frame gained one sample, or returns false or throws, and then the
frame is as it was.  `Aligned` says of a frame that all of its series are as long as
its time unit, and have as much room.

A call keeps both where `Accepts` holds of it.  It does if the call fails at once: a
name is unknown, the number of samples is wrong, or the first sample is of the wrong
type.  Otherwise it has to get through: every series is given one sample of its type,
and the time unit accepts the time.  What is left out are the calls that fail on the way,
and the ones that succeed without a sample for every series.

`allOrNothing` is about runs of calls, and asks of a series that is added that it is as
long as the time unit.
-/

namespace IntegratedCLI
namespace Dynolog

variable {D : Type}

/-! ## One sample more -/

/-- The sample is of the type of the series. -/
def SampleVarT.fits : SampleVarT D → MetricSeriesVar D → Bool
  | .int64 _, .int64 _ => true
  | .uint64 _, .uint64 _ => true
  | .double _, .double _ => true
  | .perfReadValues _, .perfReadValues _ => true
  | _, _ => false

namespace MetricFrameTsUnitInterface

/-- The time is after the recorded ones; a fixed interval does not ask. -/
def CanAdd (time : TimePoint) : MetricFrameTsUnitInterface → Prop
  | .unit u => ∀ last ∈ u.lastSampleTime, last < time
  | .fixInterval _ => True

/-- One sample more. -/
def Gained (ts ts' : MetricFrameTsUnitInterface) : Prop := ∃ time, ts.addSample time = .ok ts'

variable {ts ts' : MetricFrameTsUnitInterface} {time : TimePoint}

theorem addSample_of_canAdd (h : ts.CanAdd time) : ∃ ts', ts.addSample time = .ok ts' := by
  cases ts with
  | unit u =>
    rw [addSample, MetricFrameTsUnit.addSample_of_after h]
    exact ⟨_, rfl⟩
  | fixInterval u => exact ⟨_, rfl⟩

theorem canAdd_of_addSample (h : ts.addSample time = .ok ts') : ts.CanAdd time := by
  cases ts with
  | unit u =>
    rw [addSample] at h
    split at h
    · rename_i u' hu
      exact (MetricFrameTsUnit.eq_of_addSample hu).2
    · cases h
  | fixInterval u => trivial

/-- The room is the same, and the length grows until there is none left. -/
theorem Gained.grown (h : ts.Gained ts') (hle : ts.length ≤ ts.maxLength) :
    ts'.maxLength = ts.maxLength ∧ ts'.length = min (ts.length + 1) ts.maxLength := by
  obtain ⟨time, h⟩ := h
  cases ts with
  | unit u =>
    rw [addSample] at h
    split at h
    · rename_i u' hu
      cases h
      obtain ⟨rfl, -⟩ := MetricFrameTsUnit.eq_of_addSample hu
      exact ⟨MetricSeries.maxLength_addSample, MetricSeries.size_addSample hle⟩
    · cases h
  | fixInterval u =>
    cases h
    exact ⟨rfl, Nat.min_comm _ _⟩

/-- A time unit as it is made, with samples added. -/
inductive Reached : MetricFrameTsUnitInterface → Prop where
  | unit (frameLength : ℕ) : Reached (.unit (.make frameLength))
  | fixInterval {interval : ℤ} {frameLength : ℕ} {u : MetricFrameTsUnitFixInterval}
      (h : MetricFrameTsUnitFixInterval.make interval frameLength = .ok u) :
      Reached (.fixInterval u)
  | gained {ts ts' : MetricFrameTsUnitInterface} (h : Reached ts) (h' : ts.Gained ts') :
      Reached ts'

theorem Reached.length_le (h : ts.Reached) : ts.length ≤ ts.maxLength := by
  induction h with
  | unit frameLength => exact Nat.zero_le _
  | fixInterval h =>
    rw [MetricFrameTsUnitFixInterval.make] at h
    split at h
    · cases h
    · cases h
      exact Nat.zero_le _
  | gained _ h' ih =>
    obtain ⟨hmax, hlen⟩ := h'.grown ih
    omega

end MetricFrameTsUnitInterface

namespace MetricSeriesVar

variable [Inhabited D] [Add D] {v v' : MetricSeriesVar D} {sample : SampleVarT D}

/-- One sample more. -/
def Gained (v v' : MetricSeriesVar D) : Prop := ∃ sample, v.addSample sample = .ok v'

/-- The update adds a sample to every series of its type, and throws for the others. -/
structure Adds
    (update : SampleVarT D → MetricSeriesVar D → Except FrameError (MetricSeriesVar D)) : Prop where
  ok : ∀ sample v, sample.fits v → ∃ v', update sample v = .ok v' ∧ v.Gained v'
  error : ∀ sample v, ¬ sample.fits v → update sample v = .error .badVariantAccess

theorem visit_of_not_fits
    {update : ∀ {T : Type} [Inhabited T] [Add T], MetricSeries T → T → MetricSeries T}
    (h : ¬ sample.fits v) : visit update sample v = .error .badVariantAccess := by
  cases v <;> cases sample <;> first | rfl | exact absurd rfl h

theorem adds_addSample : Adds (D := D) addSample where
  ok sample v h := by
    have hv : ∃ v', addSample sample v = .ok v' := by
      cases v <;> cases sample <;> first | exact ⟨_, rfl⟩ | cases h
    obtain ⟨v', hv⟩ := hv
    exact ⟨v', hv, sample, hv⟩
  error _ _ h := visit_of_not_fits h

theorem adds_incFromLastSample : Adds (D := D) incFromLastSample where
  ok sample v h := by
    cases v with
    | int64 s =>
      cases sample with
      | int64 x => exact ⟨_, rfl, .int64 ((s.get? (s.size - 1)).getD default + x), rfl⟩
      | _ => cases h
    | uint64 s =>
      cases sample with
      | uint64 x => exact ⟨_, rfl, .uint64 ((s.get? (s.size - 1)).getD default + x), rfl⟩
      | _ => cases h
    | double s =>
      cases sample with
      | double x => exact ⟨_, rfl, .double ((s.get? (s.size - 1)).getD default + x), rfl⟩
      | _ => cases h
    | perfReadValues s =>
      cases sample with
      | perfReadValues x =>
        exact ⟨_, rfl, .perfReadValues ((s.get? (s.size - 1)).getD default + x), rfl⟩
      | _ => cases h
  error _ _ h := visit_of_not_fits h

theorem Gained.grown (h : v.Gained v') (hle : v.size ≤ v.maxLength) :
    v'.maxLength = v.maxLength ∧ v'.size = min (v.size + 1) v.maxLength := by
  obtain ⟨sample, h⟩ := h
  cases v <;> cases sample <;> first
    | cases h
      exact ⟨MetricSeries.maxLength_addSample, MetricSeries.size_addSample hle⟩
    | cases h

end MetricSeriesVar

/-! ## Named series -/

namespace MetricFrameMap

/-- The time unit and every series gained one sample. -/
structure Advanced [Inhabited D] [Add D] (f f' : MetricFrameMap D) : Prop where
  ts : f.ts.Gained f'.ts
  series : ∀ name, Option.Rel MetricSeriesVar.Gained (f.series.get? name) (f'.series.get? name)

/-- The call succeeds and the frame advances, or it fails and leaves the frame as it is. -/
def AllOrNothing [Inhabited D] [Add D] (call : Call D Bool) (f : MetricFrameMap D) : Prop :=
  Effect.Outcome call (fun done f' => if done then f.Advanced f' else f' = f) (fun _ f' => f' = f) f

/-- The series are as long as the time unit, and have as much room. -/
structure Aligned (f : MetricFrameMap D) : Prop where
  length_le : f.ts.length ≤ f.ts.maxLength
  series : ∀ name, ∀ v ∈ f.series.get? name,
    v.size = f.ts.length ∧ v.maxLength = f.ts.maxLength

variable [Inhabited D] [Add D] {f f' : MetricFrameMap D} {time : TimePoint}
  {samples : List (String × SampleVarT D)}
  {update : SampleVarT D → MetricSeriesVar D → Except FrameError (MetricSeriesVar D)}

theorem Advanced.aligned (h : f.Advanced f') (hf : f.Aligned) : f'.Aligned := by
  obtain ⟨hmax, hlen⟩ := h.ts.grown hf.length_le
  refine ⟨by omega, fun name v' hv' => ?_⟩
  have hrel := h.series name
  rw [Option.mem_def.mp hv'] at hrel
  cases hv : f.series.get? name with
  | none =>
    rw [hv] at hrel
    cases hrel
  | some v =>
    rw [hv] at hrel
    cases hrel with
    | some hgain =>
      obtain ⟨hvlen, hvmax⟩ := hf.series name v hv
      obtain ⟨hmax', hlen'⟩ := hgain.grown (by rw [hvlen, hvmax]; exact hf.length_le)
      exact ⟨by rw [hlen', hlen, hvlen, hvmax], by rw [hmax', hmax, hvmax]⟩

theorem AllOrNothing.aligned {call : Call D Bool} (h : AllOrNothing call f) (hf : f.Aligned) :
    (Effect.after call f).Aligned := by
  refine Effect.outcome_after.mp (h.mono (fun done f' h' => ?_) fun _ f' h' => h' ▸ hf)
  cases done with
  | false => exact (show f' = f from h') ▸ hf
  | true => exact Advanced.aligned h' hf

/-- Every series is given one sample of its type, and the time unit accepts the time. -/
structure Whole (f : MetricFrameMap D) (samples : List (String × SampleVarT D))
    (time : TimePoint) : Prop where
  room : 0 < f.ts.maxLength
  names : (samples.map Prod.fst).Perm (f.series.entries.map Prod.fst)
  fits : ∀ sample ∈ samples, ∀ v ∈ f.series.get? sample.1, sample.2.fits v
  time : f.ts.CanAdd time

/-- The call fails at once, or gets through. -/
def Accepts (f : MetricFrameMap D) (samples : List (String × SampleVarT D)) (time : TimePoint) :
    Prop :=
  (∃ sample ∈ samples, f.series.get? sample.1 = none)
    ∨ (∃ sample ∈ samples.head?, ∃ v ∈ f.series.get? sample.1, ¬ sample.2.fits v)
    ∨ (samples = [] ∧ ¬ f.ts.CanAdd time)
    ∨ f.Whole samples time

/-- A round of the loop. -/
theorem outcome_updateSeries (hupdate : MetricSeriesVar.Adds update) {sample : String × SampleVarT D}
    {v : MetricSeriesVar D} (hv : f.series.get? sample.1 = some v) (hfits : sample.2.fits v) :
    Effect.Outcome (updateSeries update sample)
      (fun _ f' => ∃ v', v.Gained v'
        ∧ f' = { f with series := f.series.modify sample.1 fun _ => v' })
      (fun _ _ => False) f := by
  obtain ⟨v', hv', hgain⟩ := hupdate.ok sample.2 v hfits
  simp only [updateSeries, Effect.outcome_bind, Effect.outcome_get, hv, hv', Effect.lift_ok,
    Effect.outcome_pure, Effect.outcome_set]
  exact ⟨v', hgain, rfl⟩

/-- The loop gives every series that it is about one sample. -/
theorem outcome_updateAll (hupdate : MetricSeriesVar.Adds update)
    (hnodup : (samples.map Prod.fst).Nodup)
    (hfits : ∀ sample ∈ samples, ∃ v, f.series.get? sample.1 = some v ∧ sample.2.fits v) :
    Effect.Outcome (forM samples (updateSeries update))
      (fun _ f' => f'.ts = f.ts ∧ ∀ name,
        if name ∈ samples.map Prod.fst then
          Option.Rel MetricSeriesVar.Gained (f.series.get? name) (f'.series.get? name)
        else f'.series.get? name = f.series.get? name)
      (fun _ _ => False) f := by
  induction samples generalizing f with
  | nil => exact ⟨rfl, fun name => rfl⟩
  | cons sample samples ih =>
    rw [List.map_cons, List.nodup_cons] at hnodup
    obtain ⟨v, hv, hfit⟩ := hfits sample (by simp)
    rw [List.forM_cons, Effect.outcome_bind]
    refine (outcome_updateSeries hupdate hv hfit).mono ?_ fun _ _ h => h
    rintro _ _ ⟨v', hgain, rfl⟩
    have hother : ∀ name, name ≠ sample.1 →
        (f.series.modify sample.1 fun _ => v').get? name = f.series.get? name :=
      fun name hne => by rw [OrderedMap.get?_modify, if_neg hne]
    refine (ih hnodup.2 fun s hs => ?_).mono (fun _ f' h => ⟨h.1, fun name => ?_⟩) fun _ _ h => h
    · rw [hother s.1 fun heq => hnodup.1 (heq ▸ List.mem_map_of_mem hs)]
      exact hfits s (List.mem_cons_of_mem _ hs)
    · have hname := h.2 name
      by_cases heq : name = sample.1
      · subst heq
        rw [if_neg hnodup.1, OrderedMap.get?_modify, if_pos rfl, hv] at hname
        rw [if_pos (by simp), hname, hv]
        exact .some hgain
      · rw [hother name heq] at hname
        simpa only [List.map_cons, List.mem_cons, heq, false_or] using hname

omit [Inhabited D] [Add D] in
theorem outcome_addTime (h : f.ts.CanAdd time) :
    Effect.Outcome (addTime time : Call D Unit)
      (fun _ f' => f.ts.Gained f'.ts ∧ f'.series = f.series) (fun _ _ => False) f := by
  obtain ⟨ts', hts⟩ := MetricFrameTsUnitInterface.addSample_of_canAdd h
  simp only [addTime, Effect.outcome_bind, Effect.outcome_get, hts, Effect.lift_ok,
    Effect.outcome_pure, Effect.outcome_set]
  exact ⟨⟨time, hts⟩, trivial⟩

theorem allOrNothing_updateSamples (hupdate : MetricSeriesVar.Adds update)
    (h : f.Accepts samples time) : AllOrNothing (updateSamples update samples time) f := by
  by_cases hunknown : ∃ sample ∈ samples, f.series.get? sample.1 = none
  · rw [AllOrNothing, Effect.Outcome, updateSamples_unknown hunknown]
    rfl
  · rw [AllOrNothing, Effect.Outcome, updateSamples_known hunknown]
    show Effect.Outcome _ _ _ f
    rcases h with h | h | h | h
    · exact absurd h hunknown
    · -- the first sample is of the wrong type
      obtain ⟨sample, hhead, v, hv, hfits⟩ := h
      obtain ⟨rest, rfl⟩ := List.head?_eq_some_iff.mp hhead
      have hthrow := hupdate.error sample.2 v hfits
      simp only [List.forM_cons, updateSeries, Effect.outcome_bind, Effect.outcome_get,
        Option.mem_def.mp hv, hthrow, Effect.lift_error, Effect.outcome_throw]
    · -- there is nothing to add, and the time is refused
      obtain ⟨rfl, htime⟩ := h
      have hthrow : ∃ e, f.ts.addSample time = .error e := by
        cases hadd : f.ts.addSample time with
        | ok ts' => exact absurd (MetricFrameTsUnitInterface.canAdd_of_addSample hadd) htime
        | error e => exact ⟨e, rfl⟩
      obtain ⟨e, he⟩ := hthrow
      simp only [List.forM_nil, addTime, Effect.outcome_bind, Effect.outcome_pure,
        Effect.outcome_get, he, Effect.lift_error, Effect.outcome_throw]
    · have hknown : ∀ sample ∈ samples, ∃ v, f.series.get? sample.1 = some v ∧ sample.2.fits v := by
        intro sample hmem
        cases hv : f.series.get? sample.1 with
        | none => exact absurd ⟨sample, hmem, hv⟩ hunknown
        | some v => exact ⟨v, rfl, h.fits sample hmem v hv⟩
      have hnodup : (samples.map Prod.fst).Nodup :=
        h.names.nodup_iff.mpr (List.pairwise_map.mpr (f.series.sorted.imp ne_of_lt))
      rw [Effect.outcome_bind]
      refine (outcome_updateAll hupdate hnodup hknown).mono ?_ fun _ _ h => h.elim
      rintro _ f₁ ⟨hts, hseries⟩
      rw [Effect.outcome_bind]
      refine (outcome_addTime (hts ▸ h.time)).mono ?_ fun _ _ h => h.elim
      rintro _ f₂ ⟨hgain, hsame⟩
      show f.Advanced f₂
      refine ⟨hts ▸ hgain, fun name => ?_⟩
      have hname := hseries name
      rw [hsame]
      split at hname
      · exact hname
      · rename_i hout
        rw [hname, OrderedMap.get?_eq_none.mpr fun hin => hout (h.names.mem_iff.mpr hin)]
        exact .none

/-! ### Runs -/

inductive Op (D : Type) where
  | addSeries (key : String) (seriesVar : MetricSeriesVar D)
  | eraseSeries (name : String)
  | addSamples (samples : List (String × SampleVarT D)) (time : TimePoint)
  | incFromLastSample (delta : List (String × SampleVarT D)) (time : TimePoint)

def Op.call : Op D → Call D Bool
  | .addSeries key seriesVar => MetricFrameMap.addSeries key seriesVar
  | .eraseSeries name => MetricFrameMap.eraseSeries name
  | .addSamples samples time => MetricFrameMap.addSamples samples time
  | .incFromLastSample delta time => MetricFrameMap.incFromLastSample delta time

/-- The frame after a call, also where it throws. -/
def step (f : MetricFrameMap D) (op : Op D) : MetricFrameMap D := Effect.after op.call f

/-- The call adds samples, and does so to all series or to none. -/
def Op.Atomic (f : MetricFrameMap D) : Op D → Prop
  | .addSamples samples time => AllOrNothing (MetricFrameMap.addSamples samples time) f
  | .incFromLastSample delta time => AllOrNothing (MetricFrameMap.incFromLastSample delta time) f
  | _ => True

/-- A series that is added is as long as the time unit, and samples are accepted. -/
def Op.Keeps (f : MetricFrameMap D) : Op D → Prop
  | .addSeries key v => f.series.get? key ≠ none
      ∨ (v.size = f.ts.length ∧ v.maxLength = f.ts.maxLength)
  | .eraseSeries _ => True
  | .addSamples samples time => f.Accepts samples time
  | .incFromLastSample delta time => f.Accepts delta time

theorem Op.Keeps.atomic {op : Op D} (h : op.Keeps f) : op.Atomic f := by
  cases op with
  | addSeries key v => trivial
  | eraseSeries name => trivial
  | addSamples samples time => exact allOrNothing_updateSamples MetricSeriesVar.adds_addSample h
  | incFromLastSample delta time =>
    exact allOrNothing_updateSamples MetricSeriesVar.adds_incFromLastSample h

theorem Op.Keeps.aligned {op : Op D} (h : op.Keeps f) (hf : f.Aligned) : (step f op).Aligned := by
  cases op with
  | addSeries key v =>
    cases hkey : f.series.get? key with
    | some v₀ =>
      have hrun : MetricFrameMap.addSeries key v f = .ok false f := by
        rw [MetricFrameMap.addSeries, Effect.run_get, hkey]
        rfl
      have hstep : step f (.addSeries key v) = f := by
        rw [step, Op.call, Effect.after, hrun]
      rwa [hstep]
    | none =>
      have hrun : MetricFrameMap.addSeries key v f
          = .ok true { f with series := f.series.emplace key v } := by
        rw [MetricFrameMap.addSeries, Effect.run_get, hkey]
        rfl
      have hstep : step f (.addSeries key v) = { f with series := f.series.emplace key v } := by
        rw [step, Op.call, Effect.after, hrun]
      rw [hstep]
      refine ⟨hf.length_le, fun name w hw => ?_⟩
      rw [Option.mem_def, OrderedMap.get?_emplace, hkey] at hw
      split at hw
      · cases hw
        exact h.resolve_left fun hne => hne hkey
      · exact hf.series name w hw
  | eraseSeries name =>
    refine ⟨hf.length_le, fun key v hv => hf.series key v ?_⟩
    have hv' : (f.series.filter fun key _ => decide (key ≠ name)).get? key = some v := hv
    rw [OrderedMap.get?_filter] at hv'
    exact (Option.filter_eq_some_iff.mp hv').1
  | addSamples samples time => exact AllOrNothing.aligned h.atomic hf
  | incFromLastSample delta time => exact AllOrNothing.aligned h.atomic hf

end MetricFrameMap

/-! ## Series in a list -/

namespace MetricFrameVector

/-- The time unit and every series gained one sample. -/
structure Advanced [Inhabited D] [Add D] (f f' : MetricFrameVector D) : Prop where
  ts : f.ts.Gained f'.ts
  series : List.Forall₂ MetricSeriesVar.Gained f.series f'.series

/-- The call succeeds and the frame advances, or it fails and leaves the frame as it is. -/
def AllOrNothing [Inhabited D] [Add D] (call : Call D Bool) (f : MetricFrameVector D) : Prop :=
  Effect.Outcome call (fun done f' => if done then f.Advanced f' else f' = f) (fun _ f' => f' = f) f

/-- The series are as long as the time unit, and have as much room. -/
structure Aligned (f : MetricFrameVector D) : Prop where
  length_le : f.ts.length ≤ f.ts.maxLength
  series : ∀ v ∈ f.series, v.size = f.ts.length ∧ v.maxLength = f.ts.maxLength

variable [Inhabited D] [Add D] {f f' : MetricFrameVector D} {time : TimePoint}
  {samples : List (SampleVarT D)}
  {update : SampleVarT D → MetricSeriesVar D → Except FrameError (MetricSeriesVar D)}

theorem Advanced.aligned (h : f.Advanced f') (hf : f.Aligned) : f'.Aligned := by
  obtain ⟨hmax, hlen⟩ := h.ts.grown hf.length_le
  refine ⟨by omega, fun v' hv' => ?_⟩
  obtain ⟨i, hi, rfl⟩ := List.mem_iff_getElem.mp hv'
  have hi' : i < f.series.length := h.series.length_eq ▸ hi
  have hgain : f.series[i].Gained f'.series[i] := h.series.get hi' hi
  obtain ⟨hvlen, hvmax⟩ := hf.series _ (List.getElem_mem hi')
  obtain ⟨hmax', hlen'⟩ := hgain.grown (by rw [hvlen, hvmax]; exact hf.length_le)
  exact ⟨by rw [hlen', hlen, hvlen, hvmax], by rw [hmax', hmax, hvmax]⟩

theorem AllOrNothing.aligned {call : Call D Bool} (h : AllOrNothing call f) (hf : f.Aligned) :
    (Effect.after call f).Aligned := by
  refine Effect.outcome_after.mp (h.mono (fun done f' h' => ?_) fun _ f' h' => h' ▸ hf)
  cases done with
  | false => exact (show f' = f from h') ▸ hf
  | true => exact Advanced.aligned h' hf

/-- Every series is given one sample of its type, and the time unit accepts the time. -/
structure Whole (f : MetricFrameVector D) (samples : List (SampleVarT D)) (time : TimePoint) :
    Prop where
  room : 0 < f.ts.maxLength
  fits : List.Forall₂ (fun (sample : SampleVarT D) v => sample.fits v) samples f.series
  time : f.ts.CanAdd time

/-- The call fails at once, or gets through. -/
def Accepts (f : MetricFrameVector D) (samples : List (SampleVarT D)) (time : TimePoint) : Prop :=
  samples.length ≠ f.width
    ∨ (∃ sample ∈ samples.head?, ∃ v ∈ f.series.head?, ¬ sample.fits v)
    ∨ (samples = [] ∧ ¬ f.ts.CanAdd time)
    ∨ f.Whole samples time

/-- The loop gives every series one sample. -/
theorem updateEach_of_fits (hupdate : MetricSeriesVar.Adds update) {vs : List (MetricSeriesVar D)}
    (h : List.Forall₂ (fun (sample : SampleVarT D) v => sample.fits v) samples vs) :
    ∃ vs', updateEach update vs samples = (vs', none)
      ∧ List.Forall₂ MetricSeriesVar.Gained vs vs' := by
  induction h with
  | nil => exact ⟨[], rfl, .nil⟩
  | @cons sample v samples vs hfits _ ih =>
    obtain ⟨v', hv', hgain⟩ := hupdate.ok sample v hfits
    obtain ⟨vs', hvs', hgains⟩ := ih
    refine ⟨v' :: vs', ?_, .cons hgain hgains⟩
    rw [updateEach, hv', hvs']

omit [Inhabited D] [Add D] in
theorem updateSamples_of_length (h : samples.length = f.width) :
    updateSamples update samples time f
      = (do
          set { f with series := (updateEach update f.series samples).1 }
          match (updateEach update f.series samples).2 with
          | some e => throw e
          | none => do
            addTime time
            return true : Call D Bool) f := by
  rw [updateSamples, Effect.run_get]
  exact congrFun (if_neg (not_not.mpr h)) f

omit [Inhabited D] [Add D] in
theorem outcome_addTime (h : f.ts.CanAdd time) :
    Effect.Outcome (addTime time : Call D Unit)
      (fun _ f' => f.ts.Gained f'.ts ∧ f'.series = f.series) (fun _ _ => False) f := by
  obtain ⟨ts', hts⟩ := MetricFrameTsUnitInterface.addSample_of_canAdd h
  simp only [addTime, Effect.outcome_bind, Effect.outcome_get, hts, Effect.lift_ok,
    Effect.outcome_pure, Effect.outcome_set]
  exact ⟨⟨time, hts⟩, trivial⟩

theorem allOrNothing_updateSamples (hupdate : MetricSeriesVar.Adds update)
    (h : f.Accepts samples time) : AllOrNothing (updateSamples update samples time) f := by
  by_cases hlength : samples.length = f.width
  · rw [AllOrNothing, Effect.Outcome, updateSamples_of_length hlength]
    show Effect.Outcome _ _ _ f
    rw [Effect.outcome_bind, Effect.outcome_set]
    rcases h with h | h | h | h
    · exact absurd hlength h
    · -- the first sample is of the wrong type
      obtain ⟨sample, hhead, v, hv, hfits⟩ := h
      obtain ⟨samples, rfl⟩ := List.head?_eq_some_iff.mp hhead
      obtain ⟨vs, hvs⟩ := List.head?_eq_some_iff.mp hv
      have hthrow : updateEach update f.series (sample :: samples)
          = (f.series, some .badVariantAccess) := by
        rw [hvs, updateEach, hupdate.error sample v hfits]
      rw [hthrow]
      rfl
    · -- there is nothing to add, and the time is refused
      obtain ⟨rfl, htime⟩ := h
      have hnil : updateEach update f.series [] = (f.series, none) := by
        cases f.series <;> rfl
      have hthrow : ∃ e, f.ts.addSample time = .error e := by
        cases hadd : f.ts.addSample time with
        | ok ts' => exact absurd (MetricFrameTsUnitInterface.canAdd_of_addSample hadd) htime
        | error e => exact ⟨e, rfl⟩
      obtain ⟨e, he⟩ := hthrow
      rw [hnil]
      simp only [addTime, Effect.outcome_bind, Effect.outcome_get, he, Effect.lift_error,
        Effect.outcome_throw]
    · obtain ⟨vs', hvs', hgains⟩ := updateEach_of_fits hupdate h.fits
      rw [hvs']
      show Effect.Outcome (addTime time >>= fun _ => pure true) _ _ { f with series := vs' }
      rw [Effect.outcome_bind]
      refine (outcome_addTime (f := { f with series := vs' }) h.time).mono ?_ fun _ _ h => h.elim
      rintro _ f₂ ⟨hgain, hsame⟩
      exact ⟨hgain, hsame ▸ hgains⟩
  · have hrun : updateSamples update samples time f = .ok false f := by
      rw [updateSamples, Effect.run_get, if_pos hlength]
      rfl
    rw [AllOrNothing, Effect.Outcome, hrun]
    rfl

/-! ### Runs -/

inductive Op (D : Type) where
  | addSamples (samples : List (SampleVarT D)) (time : TimePoint)
  | incFromLastSample (delta : List (SampleVarT D)) (time : TimePoint)

def Op.call : Op D → Call D Bool
  | .addSamples samples time => MetricFrameVector.addSamples samples time
  | .incFromLastSample delta time => MetricFrameVector.incFromLastSample delta time

/-- The frame after a call, also where it throws. -/
def step (f : MetricFrameVector D) (op : Op D) : MetricFrameVector D := Effect.after op.call f

/-- The call adds samples to all series or to none. -/
def Op.Atomic (f : MetricFrameVector D) (op : Op D) : Prop := AllOrNothing op.call f

def Op.Keeps (f : MetricFrameVector D) : Op D → Prop
  | .addSamples samples time => f.Accepts samples time
  | .incFromLastSample delta time => f.Accepts delta time

theorem Op.Keeps.atomic {op : Op D} (h : op.Keeps f) : op.Atomic f := by
  cases op with
  | addSamples samples time => exact allOrNothing_updateSamples MetricSeriesVar.adds_addSample h
  | incFromLastSample delta time =>
    exact allOrNothing_updateSamples MetricSeriesVar.adds_incFromLastSample h

theorem Op.Keeps.aligned {op : Op D} (h : op.Keeps f) (hf : f.Aligned) : (step f op).Aligned :=
  AllOrNothing.aligned h.atomic hf

end MetricFrameVector

/-! ## All or nothing -/

theorem MetricFrameMap.aligned_make {maxLength : ℕ} {ts : MetricFrameTsUnitInterface}
    {f : MetricFrameMap D} (hts : ts.Reached) (h : MetricFrameMap.make maxLength ts = .ok f) :
    f.Aligned := by
  rw [make] at h
  split at h
  · cases h
  · cases h
    exact ⟨hts.length_le, fun name v hv => nomatch hv⟩

section

variable [Inhabited D] [Add D]

/-- **Updates are all or nothing**, in frames of both kinds, and the series stay as long as
the time unit, in every run of calls that are accepted. -/
theorem updates_allOrNothing :
    (∀ maxLength ts, MetricFrameTsUnitInterface.Reached ts →
      ∀ f₀ : MetricFrameMap D, MetricFrameMap.make maxLength ts = .ok f₀ →
      ∀ ops, Run.Along MetricFrameMap.step (fun f op => op.Keeps f) f₀ ops →
        Run.Throughout MetricFrameMap.step MetricFrameMap.Aligned f₀ ops
        ∧ Run.Along MetricFrameMap.step (fun f op => op.Atomic f) f₀ ops)
    ∧ (∀ f₀ : MetricFrameVector D, f₀.ts.Reached →
      (∀ v ∈ f₀.series, v.size = f₀.ts.length ∧ v.maxLength = f₀.ts.maxLength) →
      ∀ ops, Run.Along MetricFrameVector.step (fun f op => op.Keeps f) f₀ ops →
        Run.Throughout MetricFrameVector.step MetricFrameVector.Aligned f₀ ops
        ∧ Run.Along MetricFrameVector.step (fun f op => op.Atomic f) f₀ ops) := by
  constructor
  · intro maxLength ts hts f₀ hmake ops hops
    have h₀ : f₀.Aligned := MetricFrameMap.aligned_make hts hmake
    exact ⟨Run.throughout_of_along (fun f op hf h => h.aligned hf) h₀ hops,
      hops.mono fun f op h => h.atomic⟩
  · intro f₀ hts hseries ops hops
    exact ⟨Run.throughout_of_along (fun f op hf h => h.aligned hf) ⟨hts.length_le, hseries⟩ hops,
      hops.mono fun f op h => h.atomic⟩

end

/-! ### Two series -/

/-- A frame for two samples a second apart. -/
def twoSeconds : MetricFrameMap ℚ := ⟨.fixInterval ⟨1000000, 2, 0, 0⟩, .empty⟩

def twoSeries : List (MetricFrameMap.Op ℚ) :=
  [.addSeries "a" (.int64 (.make 2)), .addSeries "b" (.uint64 (.make 2))]

/-- Both series are given a sample. -/
theorem updates_allOrNothing_twoSeries :
    Run.Throughout MetricFrameMap.step MetricFrameMap.Aligned twoSeconds
      (twoSeries ++ [.addSamples [("b", .uint64 7), ("a", .int64 1)] 0]) := by
  refine ((updates_allOrNothing (D := ℚ)).1 2 (.fixInterval ⟨1000000, 2, 0, 0⟩)
    (@MetricFrameTsUnitInterface.Reached.fixInterval 1000000 2 _ rfl) twoSeconds rfl _ ?_).1
  refine ⟨.inr ⟨?_, ?_⟩, .inr ⟨?_, ?_⟩, .inr (.inr (.inr ⟨?_, ?_, ?_, trivial⟩)), trivial⟩
  all_goals decide +kernel

/-- The second sample is of the wrong type: the first series keeps its sample, and the time
unit has none. -/
theorem not_updates_allOrNothing_wrongType :
    let f := twoSeries.foldl MetricFrameMap.step twoSeconds
    let op : MetricFrameMap.Op ℚ := .addSamples [("a", .int64 1), ("b", .int64 1)] 0
    MetricFrameMap.make 2 (.fixInterval ⟨1000000, 2, 0, 0⟩) = .ok twoSeconds
      ∧ ¬ op.Atomic f ∧ ¬ (MetricFrameMap.step f op).Aligned := by
  intro f op
  have hthrows : (op.call f matches .error _ _) = true := by decide +kernel
  have hbefore : (f.series.get? "a").map MetricSeriesVar.size = some 0 := by decide +kernel
  have hafter : ((MetricFrameMap.step f op).series.get? "a").map MetricSeriesVar.size = some 1 := by
    decide +kernel
  have hlength : (MetricFrameMap.step f op).ts.length = 0 := by decide +kernel
  refine ⟨rfl, fun h => ?_, fun h => ?_⟩
  · cases hrun : op.call f with
    | ok done f' =>
      rw [hrun] at hthrows
      cases hthrows
    | error e f' =>
      have hcall : MetricFrameMap.AllOrNothing op.call f := h
      have hsame : f' = f := hcall.of_error hrun
      have hstep : MetricFrameMap.step f op = f' := by rw [MetricFrameMap.step, Effect.after, hrun]
      rw [hstep, hsame, hbefore] at hafter
      cases hafter
  · obtain ⟨v, hv, hsize⟩ := Option.map_eq_some_iff.mp hafter
    have := (h.series "a" v hv).1
    omega

end Dynolog
end IntegratedCLI
