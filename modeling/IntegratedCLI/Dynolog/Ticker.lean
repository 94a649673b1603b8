import IntegratedCLI.Lib.Dict
import IntegratedCLI.Lib.OrderedMap
import Mathlib.Data.Rat.Floor
import Mathlib.Data.BitVec
import Mathlib.Data.String.Basic

/-!
# The ticker

A ticker calls its subscribers at major ticks, at minor ticks, and at ticks of several
sub-minor levels, each level `base` times as fast as the one above.  The ticks of the
last level are the fundamental ticks.  A subscriber has a sample rate for each sub-minor
level: it is called at a stretch of the ticks of that level, as long as the rate says
and at a place that is drawn once.

From the subscribers a plan is made for one minor tick: a list of calls, each with its
fundamental tick and the mask of the levels that are due.  The loop goes through the
plan once for every minor tick.  At the major tick it first calls everybody with the
major bit, and then passes over as many entries of the plan as it has made calls.

A callback is named by the subscriber that it belongs to.  Sample rates are doubles:
the product of a rate with a number of ticks is rounded.  Of the rounding only this is
used, that it keeps the order and is exact for integers that a double can hold.
-/

namespace IntegratedCLI
namespace Dynolog

/-- How products of doubles are rounded. -/
structure Rounding where
  round : ℚ → ℚ
  mono : Monotone round
  exact : ∀ n : ℕ, n ≤ 2 ^ 53 → round n = n

/-- The template parameters of a ticker, with what it asserts of them; the nanoseconds of
a minor tick fit into 64 bits. -/
structure TickerParams where
  majorTickMs : ℕ
  minorTickMs : ℕ
  base : ℕ
  levels : ℕ
  major_pos : 0 < majorTickMs
  minor_pos : 0 < minorTickMs
  ns_lt : minorTickMs * 1000000 < 2 ^ 64
  base_gt : 1 < base ∨ levels = 2
  levels_gt : 1 < levels
  levels_le : levels ≤ 16
  major_mod : majorTickMs % minorTickMs = 0
  tick_gt : 10000 < minorTickMs * 1000000 / base ^ (levels - 2)

namespace TickerParams

variable (p : TickerParams)

def subtickLevels : ℕ := p.levels - 2

def minorTicksPerMajorTick : ℕ := p.majorTickMs / p.minorTickMs

/-- The geometric array `1, base, base², ...`. -/
def levelTicksPerMinorTick (i : ℕ) : ℕ := p.base ^ i

/-- The same array, read backwards from position `levels - 2`. -/
def fundamentalTickPerLevel (i : ℕ) : ℕ := p.base ^ (p.levels - 2 - i)

def fundamentalTickPerMinorTick : ℕ := p.fundamentalTickPerLevel 0

def fundamentalTickNs : ℕ := p.minorTickMs * 1000000 / p.fundamentalTickPerMinorTick

end TickerParams

abbrev TMask := BitVec 16

namespace TMask

def isMajorTick (mask : TMask) : Bool := mask &&& 1#16 ≠ 0

def isMinorTick (mask : TMask) : Bool := mask &&& (1#16 <<< 1) ≠ 0

def isSubminorTick (mask : TMask) (sublevel : ℕ) : Bool := mask &&& (1#16 <<< (sublevel + 2)) ≠ 0

end TMask

/-- A callback with the mask that it is bound to. -/
structure TFuncBound where
  subscriber : String
  mask : TMask
  deriving DecidableEq, Repr

/-! ## Subscribers -/

/-- The configuration of a subscriber: the sample rates, and what `rand` returned for each
level when the places of the stretches were drawn. -/
structure SubscriberConfig (p : TickerParams) where
  rates : Fin p.subtickLevels → ℚ
  rates_mem : ∀ i, 0 ≤ rates i ∧ rates i ≤ 1
  seeds : Fin p.subtickLevels → ℕ

namespace SubscriberConfig

variable {p : TickerParams} (fl : Rounding) (c : SubscriberConfig p)

def nTicks (i : Fin p.subtickLevels) : ℕ :=
  ⌊fl.round (p.levelTicksPerMinorTick (i + 1) * c.rates i)⌋.toNat

/-- The place of the stretch, in ticks of the level. -/
def place (i : Fin p.subtickLevels) : ℕ :=
  let start := p.levelTicksPerMinorTick (i + 1) - c.nTicks fl i
  if start ≠ 0 then c.seeds i % start else start

def startIdx (i : Fin p.subtickLevels) : ℕ :=
  c.place fl i * p.fundamentalTickPerLevel (i + 1)

def endIdx (i : Fin p.subtickLevels) : ℕ :=
  (c.place fl i + c.nTicks fl i) * p.fundamentalTickPerLevel (i + 1)

/-- A tick of the level that is in the stretch. -/
def isDue (idx : ℕ) (i : Fin p.subtickLevels) : Bool :=
  idx % p.fundamentalTickPerLevel (i + 1) = 0 ∧ c.startIdx fl i ≤ idx ∧ idx < c.endIdx fl i

def makeMask (idx : ℕ) (isMajorTick : Bool) : TMask :=
  let mask : TMask := if isMajorTick then 1#16 else 0#16
  let mask := if idx % p.fundamentalTickPerMinorTick = 0 then mask ||| 1#16 <<< 1 else mask
  (List.finRange p.subtickLevels).foldl
    (fun mask i => if c.isDue fl idx i then mask ||| 1#16 <<< (i + 2 : ℕ) else mask) mask

def getTickMaybe (name : String) (idx : ℕ) : Option (TMask × TFuncBound) :=
  let mask := c.makeMask fl idx false
  if 0 < mask then some (mask, ⟨name, mask⟩) else none

def getMajorTick (name : String) : TFuncBound := ⟨name, c.makeMask fl 0 true⟩

end SubscriberConfig

/-! ## The plan -/

/-- The key of a callback that was bound; the mask of the major tick is entered as zero. -/
structure BoundSubscriberKey where
  name : String
  mask : ℕ
  deriving DecidableEq, Repr

abbrev BoundSubscribers := List (BoundSubscriberKey × TFuncBound)

/-- The callback under a key, which is added if there is none. -/
def BoundSubscribers.emplace (bound : BoundSubscribers) (key : BoundSubscriberKey)
    (f : TFuncBound) : BoundSubscribers × TFuncBound :=
  match bound.lookup key with
  | some g => (bound, g)
  | none => (Dict.put bound key f, f)

structure Plan where
  boundSubscribers : BoundSubscribers
  majorTickCallbacks : List TFuncBound
  tickIdx : List ℕ
  tickCallbacks : List TFuncBound

namespace Plan

variable {p : TickerParams} (fl : Rounding)

/-- Add the major tick of a subscriber. -/
def addMajorTick (plan : Plan) (e : String × SubscriberConfig p) : Plan :=
  let bound := plan.boundSubscribers.emplace ⟨e.1, 0⟩ (e.2.getMajorTick fl e.1)
  { plan with
    boundSubscribers := bound.1
    majorTickCallbacks := plan.majorTickCallbacks ++ [bound.2] }

/-- Ask a subscriber whether it is interested in a tick. -/
def addTick (i : ℕ) (plan : Plan) (e : String × SubscriberConfig p) : Plan :=
  match e.2.getTickMaybe fl e.1 i with
  | none => plan
  | some (mask, f) =>
    let bound := plan.boundSubscribers.emplace ⟨e.1, mask.toNat⟩ f
    { plan with
      boundSubscribers := bound.1
      tickIdx := plan.tickIdx ++ [i]
      tickCallbacks := plan.tickCallbacks ++ [bound.2] }

def rebuildPlan (configs : OrderedMap String (SubscriberConfig p)) : Plan :=
  let plan := configs.entries.foldl (addMajorTick fl) ⟨[], [], [], []⟩
  (List.range p.fundamentalTickPerMinorTick).foldl
    (fun plan i => configs.entries.foldl (addTick fl i) plan) plan

end Plan

/-! ## The loop -/

/-- A call that was made: in which minor tick, at which fundamental tick of it, and the time
that the loop last slept until, in nanoseconds. -/
structure Called where
  minor : ℕ
  tick : ℕ
  time : ℕ
  call : TFuncBound
  deriving DecidableEq, Repr

namespace TickerParams

variable (p : TickerParams)

/-- When a fundamental tick of a minor tick is scheduled. -/
def scheduled (majorTickStart i tickIdx : ℕ) : ℕ :=
  majorTickStart + p.minorTickMs * i * 1000000 + tickIdx * p.fundamentalTickNs

/-- The loop over the plan in minor tick `i`: `skip` entries are still to be passed over,
`prev` is the tick of the entry before, and `time` is what was slept until. -/
def runMinorTick (majorTickStart i : ℕ) : ℕ → Option ℕ → ℕ → List (ℕ × TFuncBound) →
    List Called × ℕ
  | _, _, time, [] => ([], time)
  | skip + 1, _, time, (tickIdx, _) :: rest =>
    runMinorTick majorTickStart i skip (some tickIdx) time rest
  | 0, prev, time, (tickIdx, tickCallback) :: rest =>
    let time := if prev ≠ some tickIdx then p.scheduled majorTickStart i tickIdx else time
    let r := runMinorTick majorTickStart i 0 (some tickIdx) time rest
    (⟨i, tickIdx, time, tickCallback⟩ :: r.1, r.2)

/-- The loop over the minor ticks. -/
def runMinorTicks (plan : Plan) (majorTickStart : ℕ) : List ℕ → ℕ → List Called
  | [], _ => []
  | i :: is, time =>
    let skip := if i = 0 then plan.majorTickCallbacks.length else 0
    let r := p.runMinorTick majorTickStart i skip none time
      (plan.tickIdx.zip plan.tickCallbacks)
    r.1 ++ runMinorTicks plan majorTickStart is r.2

/-- One major interval: the calls that are made, in order. -/
def runMajorTick (plan : Plan) (majorTickStart : ℕ) : List Called :=
  plan.majorTickCallbacks.map (fun callback => ⟨0, 0, majorTickStart, callback⟩)
    ++ p.runMinorTicks plan majorTickStart (List.range p.minorTicksPerMajorTick) majorTickStart

end TickerParams

end Dynolog
end IntegratedCLI
