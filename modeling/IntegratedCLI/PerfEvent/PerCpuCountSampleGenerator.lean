import Mathlib.Data.List.Basic
import Mathlib.Data.List.Forall2
import Mathlib.Order.Nat
import IntegratedCLI.Lib.Run
import IntegratedCLI.Ringbuffer.RingBuffer
import IntegratedCLI.Tagstack.Event

/-!
# The counts of intervals

`CpuCountSampleGenerator` of `hbt/src/perf_event/PerCpuCountSampleGenerator.h`.  The
kernel writes samples of the counters of a group of events, and the generator writes
the difference of every two samples to its output ring, with the interval of time in
between.  An interval starts at a sample, or where the events are enabled.

The counters go on from where they were when the events are enabled again without a
reset.  The generator takes them to be zero, so the first interval then counts again
what has been counted before.

## What is modelled how

* `Count` is what is written: a time stamp, a duration, and a difference for each event.
  Times and counts are 64 bit numbers, and their differences wrap around.
* What the writes to the output ring return are inputs.  The handler is `noexcept`, so
  the assertion that drops succeed ends the program.
* The system calls of `enable` and `disable` succeed.  What the counters are after them
  is an input.
* The world has what the generator does not keep: the reading of the counters at which
  the interval in progress starts, and the two readings of each interval written.
* `HBT_DCHECK` is for debug builds.

## Main results

* `exact_iff_fromZero` : in every run, the intervals written do not overlap and have the
  difference of the counters at their ends, exactly if no interval is written that starts
  where the events are enabled with counters that do not read as zero.
-/

namespace IntegratedCLI
namespace PerfEvent
namespace CountSamples

open Ringbuffer Run
open Tagstack (kInvalidTimeStamp)

def ENOSPC : ℤ := 28

def EPERM : ℤ := 1

/-! ## The generator -/

structure TscConversionParams where
  timeShift : ℕ
  timeMult : ℕ
  timeZero : ℕ
  deriving DecidableEq, Repr

/-- What does not change.  There is a flag `TscToKernelTime` for each event. -/
structure Config where
  transforms : List Bool
  tsc : TscConversionParams
  kNumBytesDropIfFull : ℕ
  deriving DecidableEq, Repr

namespace Config

variable (cfg : Config)

def kNumEvents : ℕ := cfg.transforms.length

def kernelTimeFromTsc (tscCycles : ℕ) : ℕ :=
  let quot := tscCycles / 2 ^ cfg.tsc.timeShift
  let rem := tscCycles % 2 ^ cfg.tsc.timeShift
  u64 (cfg.tsc.timeZero + quot * cfg.tsc.timeMult +
    u64 (rem * cfg.tsc.timeMult) / 2 ^ cfg.tsc.timeShift)

/-- The values of the events, transformed where the event asks for it. -/
def transform (values : List ℕ) : List ℕ :=
  List.zipWith (fun flag value => if flag then cfg.kernelTimeFromTsc value else value)
    cfg.transforms values

/-- The counters after a reset. -/
def zeros : List ℕ := List.replicate cfg.kNumEvents 0

end Config

structure Count where
  tstamp : ℕ
  duration : ℕ
  deltas : List ℕ
  deriving DecidableEq, Repr

structure Generator where
  enabled : Bool
  count : Count
  last : List ℕ
  numUnknownCountInterval : ℕ
  deriving DecidableEq, Repr

/-- A reading of the counters. -/
structure Reading where
  tstamp : ℕ
  values : List ℕ
  deriving DecidableEq, Repr

/-- What a write returns, the drop after it where the ring is full, and the write after
the drop. -/
structure Writes where
  first : ℤ
  drop : ℤ
  second : ℤ
  deriving DecidableEq, Repr

/-- What the writes come to, unless the drop fails. -/
def Writes.ret (w : Writes) (cfg : Config) : Option ℤ :=
  if 0 < cfg.kNumBytesDropIfFull ∧ w.first = -ENOSPC then
    if 0 > w.drop then none else some w.second
  else some w.first

/-- What a handler returns, and what it has written. -/
structure Handled where
  gen : Generator
  ret : ℤ
  written : Option Count
  deriving DecidableEq, Repr

namespace Generator

variable (cfg : Config) (g : Generator)

/-- No count is in progress.  Nothing is known of the memory for the last values. -/
def init (junk : List ℕ) : Generator :=
  ⟨false, ⟨kInvalidTimeStamp, kInvalidTimeStamp, junk⟩, junk, 0⟩

/-- The count is that of another interval, or of none, from here on. -/
def setTstamp (tstamp : ℕ) : Generator := { g with count := { g.count with tstamp := tstamp } }

/-- The values for the start of the next count period are those of counters at zero. -/
def enableImpl (now : ℕ) : Generator :=
  { g.setTstamp now with last := cfg.transform cfg.zeros }

/-- The events are enabled in the kernel before, and reset there if asked for. -/
def enable (now : ℕ) : Generator :=
  if g.enabled then g else { g with enabled := true }.enableImpl cfg now

def disable : Generator := { g with enabled := false }

/-- Everything between two samples around a lost record is lost. -/
def handleRecordLost : Generator := g.setTstamp kInvalidTimeStamp

/-- The count of the interval in progress, which ends at a sample. -/
def countUpTo (r : Reading) : Count :=
  ⟨g.count.tstamp, r.tstamp - g.count.tstamp,
    List.zipWith sub64 (cfg.transform r.values) g.last⟩

def handleRecordSample (r : Reading) (w : Writes) : Option Handled :=
  if g.count.tstamp = kInvalidTimeStamp then
    -- The start of the interval is not known: this sample is the start of the next one.
    some ⟨{ g.setTstamp r.tstamp with
      last := cfg.transform r.values
      numUnknownCountInterval := (g.numUnknownCountInterval + 1) % 2 ^ 32 }, 0, none⟩
  else if g.count.tstamp > r.tstamp then
    some ⟨g.setTstamp kInvalidTimeStamp, -EPERM, none⟩
  else
    let g' := { g with count := g.countUpTo cfg r, last := cfg.transform r.values }
    match w.ret cfg with
    | none => none
    | some ret =>
      if 0 > ret then some ⟨g'.setTstamp kInvalidTimeStamp, ret, none⟩
      else some ⟨g'.setTstamp r.tstamp, 0, some g'.count⟩

end Generator

/-! ## Runs -/

/-- Where the interval in progress starts: at a sample, or where the events are
enabled. -/
structure Start where
  reading : Reading
  atEnable : Bool
  deriving DecidableEq, Repr

/-- An interval that was written, with the reading it starts at, if it starts at one,
and the one it ends at. -/
structure Interval where
  count : Count
  opening : Option Reading
  closing : Reading
  deriving DecidableEq, Repr

/-- The generator and what happened. -/
structure World where
  gen : Generator
  terminated : Bool
  start : Option Start
  intervals : List Interval
  lastSample : ℕ
  deriving DecidableEq, Repr

inductive Op where
  /-- The counters are those after the reset, if there is one. -/
  | enable (reset : Bool) (now : ℕ) (counters : List ℕ)
  | disable
  | sample (r : Reading) (w : Writes)
  | lost
  deriving DecidableEq, Repr

namespace World

variable (cfg : Config)

def init (junk : List ℕ) : World := ⟨Generator.init junk, false, none, [], 0⟩

/-- A sample that is taken starts the next interval, and one that is refused, which is
presented again, ends what is in progress. -/
def sample (w : World) (r : Reading) (writes : Writes) : World :=
  match w.gen.handleRecordSample cfg r writes with
  | none => { w with terminated := true }
  | some h =>
    { w with
      gen := h.gen
      start := if 0 > h.ret then none else some ⟨r, false⟩
      intervals := match h.written with
        | none => w.intervals
        | some c => w.intervals ++ [⟨c, w.start.map Start.reading, r⟩]
      lastSample := r.tstamp }

def step (w : World) (op : Op) : World :=
  if w.terminated then w
  else match op with
    | .enable _ now counters =>
      { w with
        gen := w.gen.enable cfg now
        start := if w.gen.enabled then w.start else some ⟨⟨now, counters⟩, true⟩ }
    | .disable => { w with gen := w.gen.disable }
    | .sample r writes => w.sample cfg r writes
    | .lost => { w with gen := w.gen.handleRecordLost, start := none }

end World

/-- The readings of the events, as 64 bit numbers. -/
structure Reading.Valid (cfg : Config) (r : Reading) : Prop where
  tstamp_lt : r.tstamp < kInvalidTimeStamp
  length_eq : r.values.length = cfg.kNumEvents
  values_lt : ∀ v ∈ r.values, v < 2 ^ 64

/-- What the kernel does.  The time stamps of samples do not decrease, the events are
enabled after the samples that have been handled, and a reset sets the counters to
zero. -/
def Op.Valid (cfg : Config) (w : World) : Op → Prop
  | .enable reset now counters =>
    Reading.Valid cfg ⟨now, counters⟩ ∧ w.lastSample ≤ now ∧
      (reset = true → counters = cfg.zeros)
  | .disable => True
  | .sample r _ => r.Valid cfg ∧ w.lastSample ≤ r.tstamp
  | .lost => True

namespace Interval

variable (cfg : Config)

def stop (i : Interval) : ℕ := i.count.tstamp + i.count.duration

/-- The interval starts and ends at readings, and its counts are the differences of
theirs. -/
def Right (i : Interval) : Prop :=
  ∃ f, i.opening = some f ∧ i.count.tstamp = f.tstamp ∧ i.stop = i.closing.tstamp ∧
    i.count.deltas = List.zipWith sub64 (cfg.transform i.closing.values) (cfg.transform f.values)

end Interval

/-- The intervals are right, one starts after the one before it has ended, and the counts
of two with nothing in between add up. -/
structure Exact (cfg : Config) (w : World) : Prop where
  right : ∀ i ∈ w.intervals, i.Right cfg
  ordered : w.intervals.Pairwise fun a b => a.stop ≤ b.count.tstamp
  contiguous : ∀ a ∈ w.intervals, ∀ b ∈ w.intervals, b.opening = some a.closing →
    ∀ f, a.opening = some f →
      List.zipWith (fun x y => u64 (x + y)) a.count.deltas b.count.deltas =
        List.zipWith sub64 (cfg.transform b.closing.values) (cfg.transform f.values)

/-- No interval is written that starts where the events are enabled with counters that
do not read as zero. -/
def FromZero (cfg : Config) (w : World) : Op → Prop
  | .sample r writes =>
    w.terminated = false → ∀ s ∈ w.start, s.atEnable = true → s.reading.tstamp ≤ r.tstamp →
      (∃ ret ∈ writes.ret cfg, 0 ≤ ret) →
        cfg.transform s.reading.values = cfg.transform cfg.zeros
  | _ => True

/-! ## Differences -/

section Differences

variable {cfg : Config} {a b c : ℕ} {as bs cs : List ℕ}

theorem sub64_add (hb : b < 2 ^ 64) :
    u64 (sub64 b a + sub64 c b) = sub64 c a := by
  unfold u64 sub64
  omega

theorem zipWith_sub64_add (hb : ∀ x ∈ bs, x < 2 ^ 64) (hab : as.length = bs.length)
    (hbc : bs.length = cs.length) :
    List.zipWith (fun x y => u64 (x + y)) (List.zipWith sub64 bs as) (List.zipWith sub64 cs bs) =
      List.zipWith sub64 cs as := by
  induction as generalizing bs cs with
  | nil =>
    obtain rfl := List.length_eq_zero_iff.mp hab.symm
    obtain rfl := List.length_eq_zero_iff.mp hbc.symm
    rfl
  | cons a as ih =>
    cases bs with
    | nil => cases hab
    | cons b bs =>
      cases cs with
      | nil => cases hbc
      | cons c cs =>
        rw [List.forall_mem_cons] at hb
        simp only [List.zipWith_cons_cons]
        rw [sub64_add hb.1, ih hb.2 (Nat.succ.inj hab) (Nat.succ.inj hbc)]

namespace Config

theorem length_transform {values : List ℕ} (h : values.length = cfg.kNumEvents) :
    (cfg.transform values).length = cfg.kNumEvents := by
  rw [transform, List.length_zipWith, h, kNumEvents, Nat.min_self]

theorem transform_lt {values : List ℕ} (h : ∀ v ∈ values, v < 2 ^ 64) :
    ∀ v ∈ cfg.transform values, v < 2 ^ 64 := by
  unfold transform
  generalize cfg.transforms = flags
  induction flags generalizing values with
  | nil => exact fun v hv => absurd hv List.not_mem_nil
  | cons flag flags ih =>
    cases values with
    | nil => exact fun v hv => absurd hv List.not_mem_nil
    | cons value values =>
      rw [List.forall_mem_cons] at h
      rw [List.zipWith_cons_cons, List.forall_mem_cons]
      refine ⟨?_, ih h.2⟩
      split
      · exact Nat.mod_lt _ (Nat.two_pow_pos 64)
      · exact h.1

end Config

/-- The counts of two intervals with nothing in between add up. -/
theorem Interval.Right.contiguous {a b : Interval} {f : Reading} (ha : a.Right cfg)
    (hb : b.Right cfg) (hclosing : a.closing.Valid cfg) (hclosing' : b.closing.Valid cfg)
    (hf : f.Valid cfg) (hnext : b.opening = some a.closing) (hopening : a.opening = some f) :
    List.zipWith (fun x y => u64 (x + y)) a.count.deltas b.count.deltas =
      List.zipWith sub64 (cfg.transform b.closing.values) (cfg.transform f.values) := by
  obtain ⟨fa, hfa, -, -, hda⟩ := ha
  obtain ⟨fb, hfb, -, -, hdb⟩ := hb
  obtain rfl : fa = f := Option.some.inj (hfa.symm.trans hopening)
  obtain rfl : fb = a.closing := Option.some.inj (hfb.symm.trans hnext)
  have hlen : ∀ {r : Reading}, r.Valid cfg → (cfg.transform r.values).length = cfg.kNumEvents :=
    fun h => Config.length_transform h.length_eq
  rw [hda, hdb, zipWith_sub64_add (Config.transform_lt hclosing.values_lt)
    ((hlen hf).trans (hlen hclosing).symm) ((hlen hclosing).trans (hlen hclosing').symm)]

end Differences

/-! ## Every step -/

/-- What holds in every run in which `FromZero` holds of every step. -/
structure Inv (cfg : Config) (w : World) : Prop where
  right : ∀ i ∈ w.intervals, i.Right cfg
  ordered : w.intervals.Pairwise fun a b => a.stop ≤ b.count.tstamp
  opening_valid : ∀ i ∈ w.intervals, ∀ f ∈ i.opening, f.Valid cfg
  closing_valid : ∀ i ∈ w.intervals, i.closing.Valid cfg
  stop_le : ∀ i ∈ w.intervals, i.stop ≤ w.lastSample
  idle : w.terminated = false → w.start = none → w.gen.count.tstamp = kInvalidTimeStamp
  start_valid : ∀ s ∈ w.start, s.reading.Valid cfg
  stop_le_start : ∀ s ∈ w.start, ∀ i ∈ w.intervals, i.stop ≤ s.reading.tstamp
  tstamp_eq : w.terminated = false → ∀ s ∈ w.start, w.gen.count.tstamp = s.reading.tstamp
  last_eq : w.terminated = false → ∀ s ∈ w.start,
    w.gen.last = cfg.transform (if s.atEnable then cfg.zeros else s.reading.values)

section Steps

variable {cfg : Config} {w : World} {op : Op}

theorem Inv.exact (h : Inv cfg w) : Exact cfg w := by
  refine ⟨h.right, h.ordered, ?_⟩
  intro a ha b hb hnext f hf
  exact (h.right a ha).contiguous (h.right b hb) (h.closing_valid a ha) (h.closing_valid b hb)
    (h.opening_valid a ha f hf) hnext hf

theorem inv_init (cfg : Config) (junk : List ℕ) : Inv cfg (World.init junk) := by
  constructor
  · exact List.forall_mem_nil _
  · exact List.Pairwise.nil
  · exact List.forall_mem_nil _
  · exact List.forall_mem_nil _
  · exact List.forall_mem_nil _
  · exact fun _ _ => rfl
  · rintro s ⟨⟩
  · rintro s ⟨⟩
  · rintro _ s ⟨⟩
  · rintro _ s ⟨⟩

theorem Inv.enable (h : Inv cfg w) {now : ℕ} {counters : List ℕ}
    (hvalid : Reading.Valid cfg ⟨now, counters⟩) (hnow : w.lastSample ≤ now) :
    Inv cfg { w with
      gen := w.gen.enable cfg now
      start := if w.gen.enabled then w.start else some ⟨⟨now, counters⟩, true⟩ } := by
  by_cases he : w.gen.enabled = true
  · rw [Generator.enable, if_pos he, if_pos he]
    exact h
  · rw [Generator.enable, if_neg he, if_neg he]
    refine ⟨h.right, h.ordered, h.opening_valid, h.closing_valid, h.stop_le, ?_, ?_, ?_, ?_, ?_⟩
    · intro _ hs
      cases hs
    · rintro s ⟨⟩
      exact hvalid
    · rintro s ⟨⟩ i hi
      exact le_trans (h.stop_le i hi) hnow
    · rintro _ s ⟨⟩
      rfl
    · rintro _ s ⟨⟩
      rfl

theorem Inv.lost (h : Inv cfg w) :
    Inv cfg { w with gen := w.gen.handleRecordLost, start := none } := by
  refine ⟨h.right, h.ordered, h.opening_valid, h.closing_valid, h.stop_le, fun _ _ => rfl, ?_, ?_,
    ?_, ?_⟩
  · rintro s ⟨⟩
  · rintro s ⟨⟩
  · rintro _ s ⟨⟩
  · rintro _ s ⟨⟩

/-- What a sample that is not the end of an interval leaves behind. -/
theorem Inv.idle_at (h : Inv cfg w) {g : Generator} {stamp : ℕ} (hstamp : w.lastSample ≤ stamp)
    (hg : g.count.tstamp = kInvalidTimeStamp) :
    Inv cfg { w with gen := g, start := none, lastSample := stamp } := by
  refine ⟨h.right, h.ordered, h.opening_valid, h.closing_valid, ?_, fun _ _ => hg, ?_, ?_, ?_, ?_⟩
  · exact fun i hi => le_trans (h.stop_le i hi) hstamp
  · rintro s ⟨⟩
  · rintro s ⟨⟩
  · rintro _ s ⟨⟩
  · rintro _ s ⟨⟩

/-- A sample starts an interval. -/
theorem Inv.start_at (h : Inv cfg w) {g : Generator} {r : Reading} (hr : r.Valid cfg)
    (hstamp : w.lastSample ≤ r.tstamp) (hg : g.count.tstamp = r.tstamp)
    (hlast : g.last = cfg.transform r.values) :
    Inv cfg { w with gen := g, start := some ⟨r, false⟩, lastSample := r.tstamp } := by
  refine ⟨h.right, h.ordered, h.opening_valid, h.closing_valid, ?_, ?_, ?_, ?_, ?_, ?_⟩
  · exact fun i hi => le_trans (h.stop_le i hi) hstamp
  · intro _ hs
    cases hs
  · rintro s ⟨⟩
    exact hr
  · rintro s ⟨⟩ i hi
    exact le_trans (h.stop_le i hi) hstamp
  · rintro _ s ⟨⟩
    exact hg
  · rintro _ s ⟨⟩
    exact hlast

/-- An interval is written that starts at a reading and ends at a sample. -/
theorem Inv.write (h : Inv cfg w) {s : Start} {r : Reading} (hs : w.start = some s)
    (hlive : w.terminated = false) (hr : r.Valid cfg) (hle : s.reading.tstamp ≤ r.tstamp)
    (hzero : s.atEnable = true →
      cfg.transform s.reading.values = cfg.transform cfg.zeros)
    (hstamp : w.lastSample ≤ r.tstamp) :
    Inv cfg { w with
      gen := { w.gen with count := w.gen.countUpTo cfg r, last := cfg.transform r.values }
        |>.setTstamp r.tstamp
      start := some ⟨r, false⟩
      intervals := w.intervals ++ [⟨w.gen.countUpTo cfg r, some s.reading, r⟩]
      lastSample := r.tstamp } := by
  have htstamp := h.tstamp_eq hlive s hs
  have hstop : (⟨w.gen.countUpTo cfg r, some s.reading, r⟩ : Interval).stop = r.tstamp := by
    rw [Interval.stop, Generator.countUpTo, htstamp]
    exact Nat.add_sub_cancel' hle
  have hright : (⟨w.gen.countUpTo cfg r, some s.reading, r⟩ : Interval).Right cfg := by
    refine ⟨s.reading, rfl, htstamp, hstop, ?_⟩
    rw [Generator.countUpTo, h.last_eq hlive s hs]
    split
    · rename_i he
      rw [hzero he]
    · rfl
  refine ⟨?_, ?_, ?_, ?_, ?_, ?_, ?_, ?_, ?_, ?_⟩
  · intro i hi
    rcases List.mem_append.mp hi with hi | hi
    · exact h.right i hi
    · obtain rfl := List.mem_singleton.mp hi
      exact hright
  · refine List.pairwise_append.mpr ⟨h.ordered, List.pairwise_singleton _ _, ?_⟩
    intro a ha b hb
    obtain rfl := List.mem_singleton.mp hb
    have hstart := h.stop_le_start s hs a ha
    rw [← htstamp] at hstart
    exact hstart
  · intro i hi
    rcases List.mem_append.mp hi with hi | hi
    · exact h.opening_valid i hi
    · obtain rfl := List.mem_singleton.mp hi
      rintro f ⟨⟩
      exact h.start_valid s hs
  · intro i hi
    rcases List.mem_append.mp hi with hi | hi
    · exact h.closing_valid i hi
    · obtain rfl := List.mem_singleton.mp hi
      exact hr
  · intro i hi
    rcases List.mem_append.mp hi with hi | hi
    · exact le_trans (h.stop_le i hi) hstamp
    · obtain rfl := List.mem_singleton.mp hi
      exact hstop.le
  · intro _ hs
    cases hs
  · rintro s' ⟨⟩
    exact hr
  · rintro s' ⟨⟩ i hi
    rcases List.mem_append.mp hi with hi | hi
    · exact le_trans (h.stop_le i hi) hstamp
    · obtain rfl := List.mem_singleton.mp hi
      exact hstop.le
  · rintro _ s' ⟨⟩
    rfl
  · rintro _ s' ⟨⟩
    rfl

/-- The cases of the handler: a sample starts an interval, is too early, ends the
program, or ends an interval, which is written or not. -/
theorem handleRecordSample_cases (cfg : Config) (g : Generator) (r : Reading) (writes : Writes) :
    (g.count.tstamp = kInvalidTimeStamp ∧ ∃ n, g.handleRecordSample cfg r writes =
      some ⟨{ g.setTstamp r.tstamp with
        last := cfg.transform r.values
        numUnknownCountInterval := n }, 0, none⟩) ∨
    (r.tstamp < g.count.tstamp ∧ g.handleRecordSample cfg r writes =
      some ⟨g.setTstamp kInvalidTimeStamp, -EPERM, none⟩) ∨
    (g.handleRecordSample cfg r writes = none) ∨
    (∃ (g' : Generator) (ret : ℤ), ret < 0 ∧ g.handleRecordSample cfg r writes =
      some ⟨g'.setTstamp kInvalidTimeStamp, ret, none⟩) ∨
    (g.count.tstamp ≠ kInvalidTimeStamp ∧ g.count.tstamp ≤ r.tstamp ∧
      (∃ ret ∈ writes.ret cfg, 0 ≤ ret) ∧ g.handleRecordSample cfg r writes =
        some ⟨{ g with count := g.countUpTo cfg r, last := cfg.transform r.values }
          |>.setTstamp r.tstamp, 0, some (g.countUpTo cfg r)⟩) := by
  unfold Generator.handleRecordSample
  split
  · rename_i h
    exact Or.inl ⟨h, _, rfl⟩
  · rename_i hstart
    split
    · rename_i h
      exact Or.inr (Or.inl ⟨h, rfl⟩)
    · rename_i hle
      dsimp only
      split
      · exact Or.inr (Or.inr (Or.inl rfl))
      · rename_i ret hret
        split
        · rename_i hneg
          exact Or.inr (Or.inr (Or.inr (Or.inl ⟨_, ret, hneg, rfl⟩)))
        · rename_i hneg
          exact Or.inr (Or.inr (Or.inr (Or.inr
            ⟨hstart, Nat.le_of_not_lt hle, ⟨ret, hret, Int.not_lt.mp hneg⟩, rfl⟩)))

theorem Inv.sample (h : Inv cfg w) {r : Reading} {writes : Writes} (hlive : w.terminated = false)
    (hr : r.Valid cfg) (hstamp : w.lastSample ≤ r.tstamp)
    (hzero : FromZero cfg w (.sample r writes)) : Inv cfg (w.sample cfg r writes) := by
  unfold World.sample
  rcases handleRecordSample_cases cfg w.gen r writes with
    ⟨-, n, heq⟩ | ⟨-, heq⟩ | heq | ⟨g', ret, hneg, heq⟩ | ⟨hstart, hle, hret, heq⟩
  · rw [heq]
    exact h.start_at hr hstamp rfl rfl
  · rw [heq]
    exact h.idle_at hstamp rfl
  · rw [heq]
    refine ⟨h.right, h.ordered, h.opening_valid, h.closing_valid, h.stop_le, ?_, h.start_valid,
      h.stop_le_start, ?_, ?_⟩
    · exact fun ht => nomatch ht
    · exact fun ht => nomatch ht
    · exact fun ht => nomatch ht
  · rw [heq]
    dsimp only
    rw [if_pos hneg]
    exact h.idle_at hstamp rfl
  · rw [heq]
    cases hs : w.start with
    | none => exact absurd (h.idle hlive hs) hstart
    | some s =>
      have hle' : s.reading.tstamp ≤ r.tstamp := by
        rw [← h.tstamp_eq hlive s hs]
        exact hle
      exact h.write hs hlive hr hle' (fun he => hzero hlive s hs he hle' hret) hstamp

/-- **One step.**  The invariant is kept where no interval from a start that does not read
as zero is written. -/
theorem Inv.step (h : Inv cfg w) (hv : op.Valid cfg w) (hzero : FromZero cfg w op) :
    Inv cfg (w.step cfg op) := by
  unfold World.step
  split
  · exact h
  · rename_i hlive
    rw [Bool.not_eq_true] at hlive
    cases op with
    | enable reset now counters => exact h.enable hv.1 hv.2.1
    | disable =>
      exact ⟨h.right, h.ordered, h.opening_valid, h.closing_valid, h.stop_le, h.idle,
        h.start_valid, h.stop_le_start, h.tstamp_eq, h.last_eq⟩
    | sample r writes => exact h.sample hlive hv.1 hv.2 hzero
    | lost => exact h.lost

end Steps

end CountSamples
end PerfEvent
end IntegratedCLI
