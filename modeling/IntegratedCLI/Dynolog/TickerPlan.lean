import IntegratedCLI.Dynolog.Ticker
import Mathlib.Data.List.Basic
import Mathlib.Algebra.Order.Floor.Ring
import Mathlib.Data.List.Sort

/-!
# The plan of a ticker is complete

`schedule` says what a major interval should be: at every fundamental tick of every minor
tick the subscribers are called for whom a level is due, each once and with the mask of
all levels that are.  `runMajorTick_eq` is that the loop over the plan does this.  The
minor bit is set at the first tick of a minor tick, so the plan begins with one entry for
each subscriber; these are as many as there are major ticks, and what is passed over in
the first minor tick is just what was called before with the major bit.

`Complete` is what follows for the number of the calls, their masks and their times, and
`complete` the theorem.
-/

namespace IntegratedCLI
namespace Dynolog

/-! ## Bits -/

namespace TMask

variable {mask : TMask} {k b : ℕ}

theorem and_bit_ne_zero (hk : k < 16) : mask &&& (1#16 <<< k) ≠ 0 ↔ mask.getLsbD k = true := by
  show mask &&& BitVec.twoPow 16 k ≠ 0 ↔ _
  rw [BitVec.and_twoPow]
  split
  · rename_i h
    refine iff_of_true (fun h0 => ?_) h
    have hbit : (BitVec.twoPow 16 k).getLsbD k = (0#16).getLsbD k := congrArg (·.getLsbD k) h0
    rw [BitVec.getLsbD_twoPow, BitVec.getLsbD_zero, decide_eq_true hk, decide_eq_true rfl] at hbit
    cases hbit
  · rename_i h
    exact iff_of_false (fun h0 => h0 rfl) h

theorem getLsbD_or_bit (hk : k < 16) :
    (mask ||| 1#16 <<< k).getLsbD b = (mask.getLsbD b || decide (k = b)) := by
  show (mask ||| BitVec.twoPow 16 k).getLsbD b = _
  rw [BitVec.getLsbD_or, BitVec.getLsbD_twoPow, decide_eq_true hk, Bool.true_and]

theorem isMajorTick_eq : mask.isMajorTick = mask.getLsbD 0 :=
  Bool.eq_iff_iff.mpr (decide_eq_true_iff.trans (and_bit_ne_zero (k := 0) (by decide)))

theorem isMinorTick_eq : mask.isMinorTick = mask.getLsbD 1 :=
  Bool.eq_iff_iff.mpr (decide_eq_true_iff.trans (and_bit_ne_zero (k := 1) (by decide)))

theorem isSubminorTick_eq (hk : k + 2 < 16) : mask.isSubminorTick k = mask.getLsbD (k + 2) :=
  Bool.eq_iff_iff.mpr (decide_eq_true_iff.trans (and_bit_ne_zero hk))

end TMask

namespace SubscriberConfig

variable {p : TickerParams} {fl : Rounding} {c : SubscriberConfig p} {idx b : ℕ} {major : Bool}

theorem subtickLevels_le (p : TickerParams) : p.subtickLevels ≤ 14 := by
  have := p.levels_le
  rw [TickerParams.subtickLevels]
  omega

/-- The bits that are set for the sub-minor levels. -/
theorem getLsbD_foldl (is : List (Fin p.subtickLevels)) (mask : TMask) :
    (is.foldl (fun mask i => if c.isDue fl idx i then mask ||| 1#16 <<< (i + 2 : ℕ) else mask)
      mask).getLsbD b = true ↔
        mask.getLsbD b = true ∨ ∃ i ∈ is, c.isDue fl idx i = true ∧ (i + 2 : ℕ) = b := by
  induction is generalizing mask with
  | nil => simp
  | cons i is ih =>
    have hi : (i + 2 : ℕ) < 16 := by
      have := subtickLevels_le p
      omega
    rw [List.foldl_cons, ih]
    split
    · rename_i hdue
      rw [TMask.getLsbD_or_bit hi]
      simp [hdue, or_assoc]
    · rename_i hdue
      simp [hdue]

theorem getLsbD_makeMask :
    (c.makeMask fl idx major).getLsbD b = true ↔
      (b = 0 ∧ major = true) ∨ (b = 1 ∧ idx % p.fundamentalTickPerMinorTick = 0)
        ∨ ∃ i, c.isDue fl idx i = true ∧ (i + 2 : ℕ) = b := by
  have hmajor : (if major then 1#16 else 0#16).getLsbD b = (decide (b = 0) && major) := by
    cases major with
    | false => rw [Bool.and_false]; exact BitVec.getLsbD_zero
    | true => rw [if_pos rfl, Bool.and_true, BitVec.getLsbD_one]; simp
  rw [makeMask, getLsbD_foldl]
  split
  · rename_i hminor
    rw [TMask.getLsbD_or_bit (by decide), hmajor]
    simp only [Bool.or_eq_true, Bool.and_eq_true, decide_eq_true_eq, List.mem_finRange, true_and,
      hminor, and_true, or_assoc, @eq_comm ℕ 1]
  · rename_i hminor
    rw [hmajor]
    simp only [Bool.and_eq_true, decide_eq_true_eq, List.mem_finRange, true_and, hminor, and_false,
      false_or]

end SubscriberConfig

/-! ## The stretch of a level -/

/-- The multiples of `P` in a stretch, among the numbers below `L * P`. -/
theorem filter_range_stretch {P L s n : ℕ} (hP : 0 < P) (h : s + n ≤ L) :
    (List.range (L * P)).filter (fun t => t % P = 0 ∧ s * P ≤ t ∧ t < (s + n) * P)
      = (List.range n).map fun k => (s + k) * P := by
  refine (List.Pairwise.filter _ List.pairwise_lt_range).eq_of_mem_iff ?_ fun t => ?_
  · refine List.pairwise_map.mpr (List.pairwise_lt_range.imp fun {a b} hab => ?_)
    exact Nat.mul_lt_mul_of_pos_right (by omega) hP
  · rw [List.mem_filter, List.mem_range, decide_eq_true_iff, List.mem_map]
    constructor
    · rintro ⟨-, hmod, hlow, hhigh⟩
      obtain ⟨q, rfl⟩ := Nat.dvd_of_mod_eq_zero hmod
      rw [Nat.mul_comm P q] at hlow hhigh ⊢
      have hlow := Nat.le_of_mul_le_mul_right hlow hP
      have hhigh := Nat.lt_of_mul_lt_mul_right hhigh
      exact ⟨q - s, List.mem_range.mpr (by omega), by rw [Nat.add_sub_cancel' hlow]⟩
    · rintro ⟨k, hk, rfl⟩
      have hk := List.mem_range.mp hk
      exact ⟨Nat.mul_lt_mul_of_pos_right (by omega) hP, Nat.mul_mod_left _ _,
        Nat.mul_le_mul_right P (by omega), Nat.mul_lt_mul_of_pos_right (by omega) hP⟩

namespace TickerParams

variable (p : TickerParams)

theorem minorTicks_pos : 0 < p.minorTicksPerMajorTick :=
  Nat.div_pos (Nat.le_of_dvd p.major_pos (Nat.dvd_of_mod_eq_zero p.major_mod)) p.minor_pos

theorem fundamentalTick_pos (i : ℕ) : 0 < p.fundamentalTickPerLevel i := by
  rw [fundamentalTickPerLevel]
  rcases p.base_gt with h | h
  · exact Nat.pow_pos (by omega)
  · rw [h, Nat.sub_self, Nat.zero_sub, Nat.pow_zero]
    exact Nat.one_pos

theorem fundamentalTickPerMinorTick_pos : 0 < p.fundamentalTickPerMinorTick :=
  p.fundamentalTick_pos 0

theorem fundamentalTickPerMinorTick_eq (i : Fin p.subtickLevels) :
    p.fundamentalTickPerMinorTick
      = p.levelTicksPerMinorTick (i + 1) * p.fundamentalTickPerLevel (i + 1) := by
  have hi : (i : ℕ) < p.levels - 2 := i.isLt
  rw [fundamentalTickPerMinorTick, fundamentalTickPerLevel, levelTicksPerMinorTick,
    fundamentalTickPerLevel, ← Nat.pow_add]
  congr 1
  omega

/-- The fundamental ticks of a minor tick are few enough to be exact as doubles. -/
theorem fundamentalTickPerMinorTick_le : p.fundamentalTickPerMinorTick ≤ 2 ^ 53 := by
  have htick := p.tick_gt
  have hns := p.ns_lt
  have hmul := (Nat.le_div_iff_mul_le (p.fundamentalTick_pos 0)).mp htick.le
  have hft : p.fundamentalTickPerMinorTick = p.base ^ (p.levels - 2) := rfl
  have hpow : p.fundamentalTickPerLevel 0 = p.base ^ (p.levels - 2) := rfl
  omega

theorem levelTicks_le (i : Fin p.subtickLevels) :
    p.levelTicksPerMinorTick (i + 1) ≤ 2 ^ 53 := by
  refine le_trans ?_ p.fundamentalTickPerMinorTick_le
  rw [p.fundamentalTickPerMinorTick_eq i]
  exact Nat.le_mul_of_pos_right _ (p.fundamentalTick_pos _)

end TickerParams

namespace SubscriberConfig

variable {p : TickerParams} (fl : Rounding) (c : SubscriberConfig p) (i : Fin p.subtickLevels)

theorem nTicks_le : c.nTicks fl i ≤ p.levelTicksPerMinorTick (i + 1) := by
  have hrate : (p.levelTicksPerMinorTick (i + 1) : ℚ) * c.rates i
      ≤ (p.levelTicksPerMinorTick (i + 1) : ℕ) :=
    mul_le_of_le_one_right (Nat.cast_nonneg _) (c.rates_mem i).2
  have hround := fl.mono hrate
  rw [fl.exact _ (p.levelTicks_le i)] at hround
  have hfloor := Int.floor_le_floor hround
  rw [Int.floor_natCast] at hfloor
  rw [nTicks]
  omega

theorem place_add_nTicks_le : c.place fl i + c.nTicks fl i ≤ p.levelTicksPerMinorTick (i + 1) := by
  have hle := c.nTicks_le fl i
  rw [place]
  split
  · rename_i h
    have hlt := Nat.mod_lt (c.seeds i) (Nat.pos_of_ne_zero h)
    omega
  · omega

/-- The ticks of a level that are due in a minor tick. -/
theorem filter_isDue :
    (List.range p.fundamentalTickPerMinorTick).filter (c.isDue fl · i)
      = (List.range (c.nTicks fl i)).map fun k =>
          (c.place fl i + k) * p.fundamentalTickPerLevel (i + 1) := by
  rw [p.fundamentalTickPerMinorTick_eq i]
  exact filter_range_stretch (p.fundamentalTick_pos _) (c.place_add_nTicks_le fl i)

end SubscriberConfig

/-! ## What is planned -/

theorem BoundSubscribers.emplace_eq {bound : BoundSubscribers} {key : BoundSubscriberKey}
    {f : TFuncBound}
    (h : ∀ g, bound.lookup key = some g → g = f) :
    (bound.emplace key f).2 = f
      ∧ ∀ key', (bound.emplace key f).1.lookup key'
          = if key' = key then some f else bound.lookup key' := by
  rw [emplace]
  split
  · rename_i g hg
    obtain rfl := h g hg
    refine ⟨rfl, fun key' => ?_⟩
    split
    · rename_i hkey
      rw [hkey, hg]
    · rfl
  · exact ⟨rfl, fun key' => Dict.lookup_put bound key key' f⟩

namespace Plan

variable {p : TickerParams} {fl : Rounding} {plan : Plan}

/-- The entries of the plan: a fundamental tick, and the callback. -/
def ticks (plan : Plan) : List (ℕ × TFuncBound) := plan.tickIdx.zip plan.tickCallbacks

/-- What a subscriber has planned for a fundamental tick. -/
def ticksOf (fl : Rounding) (t : ℕ) (e : String × SubscriberConfig p) : List (ℕ × TFuncBound) :=
  ((e.2.getTickMaybe fl e.1 t).map fun r => (t, r.2)).toList

/-- The two lists of the plan belong together, and a callback is bound to its mask. -/
structure Good (plan : Plan) : Prop where
  length : plan.tickIdx.length = plan.tickCallbacks.length
  bound : ∀ name (mask : TMask) f, mask ≠ 0 →
    plan.boundSubscribers.lookup ⟨name, mask.toNat⟩ = some f → f = ⟨name, mask⟩

theorem addTick_good (h : plan.Good) (t : ℕ) (e : String × SubscriberConfig p) :
    (plan.addTick fl t e).Good ∧ (plan.addTick fl t e).ticks = plan.ticks ++ ticksOf fl t e
      ∧ (plan.addTick fl t e).majorTickCallbacks = plan.majorTickCallbacks := by
  rw [addTick, ticksOf, SubscriberConfig.getTickMaybe]
  generalize e.2.makeMask fl t false = mask
  by_cases hpos : 0 < mask
  · have hne : mask ≠ 0 := fun h0 => by rw [h0] at hpos; exact absurd hpos (by decide)
    obtain ⟨hf, hlookup⟩ := BoundSubscribers.emplace_eq fun g => h.bound e.1 mask g hne
    rw [if_pos hpos]
    refine ⟨⟨?_, fun name mask' f hne' hf => ?_⟩, ?_, rfl⟩
    · show (plan.tickIdx ++ [t]).length = (plan.tickCallbacks ++ [_]).length
      rw [List.length_append, List.length_append, h.length]
      rfl
    · have hf' := (hlookup ⟨name, mask'.toNat⟩).symm.trans hf
      split at hf'
      · rename_i hkey
        rw [BoundSubscriberKey.mk.injEq, BitVec.toNat_inj] at hkey
        rw [hkey.1, hkey.2]
        exact (Option.some.inj hf').symm
      · exact h.bound name mask' f hne' hf'
    · show (plan.tickIdx ++ [t]).zip (plan.tickCallbacks ++ [_]) = _
      rw [List.zip_append h.length, hf]
      rfl
  · rw [if_neg hpos]
    exact ⟨h, (List.append_nil _).symm, rfl⟩

/-- What is appended by each round of a loop is appended by the loop. -/
theorem foldl_good {α : Type} {f : Plan → α → Plan} {g : α → List (ℕ × TFuncBound)}
    (hf : ∀ plan a, Good plan → (f plan a).Good ∧ (f plan a).ticks = plan.ticks ++ g a
      ∧ (f plan a).majorTickCallbacks = plan.majorTickCallbacks) (as : List α) (h : plan.Good) :
    (as.foldl f plan).Good ∧ (as.foldl f plan).ticks = plan.ticks ++ as.flatMap g
      ∧ (as.foldl f plan).majorTickCallbacks = plan.majorTickCallbacks := by
  induction as generalizing plan with
  | nil => exact ⟨h, (List.append_nil _).symm, rfl⟩
  | cons a as ih =>
    obtain ⟨hgood, hticks, hmajor⟩ := hf plan a h
    obtain ⟨hgood', hticks', hmajor'⟩ := ih hgood
    refine ⟨hgood', ?_, hmajor'.trans hmajor⟩
    rw [List.foldl_cons, hticks', hticks, List.flatMap_cons, List.append_assoc]

/-- Every subscriber is entered once for the major tick, and nothing is bound yet to a
mask. -/
theorem foldl_addMajorTick {es : List (String × SubscriberConfig p)}
    (hnodup : (es.map Prod.fst).Nodup)
    (hfresh : ∀ e ∈ es, plan.boundSubscribers.lookup ⟨e.1, 0⟩ = none)
    (hbound : ∀ name mask, mask ≠ 0 → plan.boundSubscribers.lookup ⟨name, mask⟩ = none) :
    let plan' := es.foldl (addMajorTick fl) plan
    plan'.majorTickCallbacks
        = plan.majorTickCallbacks ++ es.map (fun e => e.2.getMajorTick fl e.1)
      ∧ plan'.tickIdx = plan.tickIdx ∧ plan'.tickCallbacks = plan.tickCallbacks
      ∧ ∀ name mask, mask ≠ 0 → plan'.boundSubscribers.lookup ⟨name, mask⟩ = none := by
  induction es generalizing plan with
  | nil => exact ⟨(List.append_nil _).symm, rfl, rfl, hbound⟩
  | cons e es ih =>
    rw [List.map_cons, List.nodup_cons] at hnodup
    have hnone := hfresh e (by simp)
    obtain ⟨hf, hlookup⟩ := @BoundSubscribers.emplace_eq plan.boundSubscribers ⟨e.1, 0⟩
      (e.2.getMajorTick fl e.1) fun g hg => by rw [hnone] at hg; cases hg
    have hother : ∀ key : BoundSubscriberKey, key ≠ ⟨e.1, 0⟩ →
        (plan.addMajorTick fl e).boundSubscribers.lookup key
          = plan.boundSubscribers.lookup key :=
      fun key hne => (hlookup key).trans (if_neg hne)
    obtain ⟨hmajor, hidx, hcall, hnew⟩ := @ih (plan.addMajorTick fl e) hnodup.2
      (fun e' he' => by
        rw [hother _ fun h => hnodup.1 ((BoundSubscriberKey.mk.inj h).1 ▸ List.mem_map_of_mem he')]
        exact hfresh e' (List.mem_cons_of_mem _ he'))
      (fun name mask hne => by
        rw [hother _ fun h => hne (BoundSubscriberKey.mk.inj h).2]
        exact hbound name mask hne)
    refine ⟨?_, hidx, hcall, hnew⟩
    rw [List.foldl_cons, hmajor]
    show (plan.majorTickCallbacks ++ [_]) ++ _ = _
    rw [hf, List.append_assoc]
    rfl

/-- **The plan**: the major ticks of all subscribers, and for every fundamental tick the
calls of those that are interested. -/
theorem rebuildPlan_eq (configs : OrderedMap String (SubscriberConfig p)) :
    (rebuildPlan fl configs).majorTickCallbacks
        = configs.entries.map (fun e => e.2.getMajorTick fl e.1)
      ∧ (rebuildPlan fl configs).ticks
        = (List.range p.fundamentalTickPerMinorTick).flatMap fun t =>
            configs.entries.flatMap (ticksOf fl t) := by
  have hnodup : (configs.entries.map Prod.fst).Nodup :=
    List.pairwise_map.mpr (configs.sorted.imp ne_of_lt)
  obtain ⟨hmajor, hidx, hcall, hbound⟩ := @foldl_addMajorTick p fl ⟨[], [], [], []⟩
    configs.entries hnodup (fun _ _ => rfl) (fun _ _ _ => rfl)
  have hgood : (configs.entries.foldl (addMajorTick fl) ⟨[], [], [], []⟩).Good := by
    refine ⟨by rw [hidx, hcall]; rfl, fun name mask f hne hf => ?_⟩
    rw [hbound name mask.toNat fun h0 => hne (BitVec.eq_of_toNat_eq h0)] at hf
    cases hf
  obtain ⟨-, hticks, hmajor'⟩ := foldl_good
    (fun plan t h => foldl_good (fun plan e h => @addTick_good p fl plan h t e) configs.entries h)
    (List.range p.fundamentalTickPerMinorTick) hgood
  refine ⟨hmajor'.trans hmajor, hticks.trans ?_⟩
  rw [ticks, hidx, hcall]
  rfl

end Plan

/-! ## What is called -/

section

variable {p : TickerParams} {fl : Rounding} {start i t skip time : ℕ} {prev : Option ℕ}

/-- The levels that are due for a subscriber at a fundamental tick of a minor tick. -/
def SubscriberConfig.dueMask (fl : Rounding) (c : SubscriberConfig p) (i t : ℕ) : TMask :=
  c.makeMask fl t (decide (i = 0 ∧ t = 0))

/-- The calls that are due at a fundamental tick of a minor tick: one for each subscriber
for whom a level is due. -/
def callsAt (fl : Rounding) (configs : OrderedMap String (SubscriberConfig p)) (start i t : ℕ) :
    List Called :=
  configs.entries.flatMap fun e =>
    if 0 < e.2.dueMask fl i t then [⟨i, t, p.scheduled start i t, ⟨e.1, e.2.dueMask fl i t⟩⟩]
    else []

/-- The calls of a major interval. -/
def schedule (fl : Rounding) (configs : OrderedMap String (SubscriberConfig p)) (start : ℕ) :
    List Called :=
  (List.range p.minorTicksPerMajorTick).flatMap fun i =>
    (List.range p.fundamentalTickPerMinorTick).flatMap (callsAt fl configs start i)

/-- An entry of the plan, called in a minor tick. -/
def TickerParams.called (p : TickerParams) (start i : ℕ) (r : ℕ × TFuncBound) : Called :=
  ⟨i, r.1, p.scheduled start i r.1, r.2⟩

/-- The loop sleeps until the time of each entry, unless it has done so for the one before. -/
theorem runMinorTick_eq (hprev : ∀ t, prev = some t → time = p.scheduled start i t)
    (rs : List (ℕ × TFuncBound)) :
    (p.runMinorTick start i 0 prev time rs).1 = rs.map (p.called start i) := by
  induction rs generalizing prev time with
  | nil => rfl
  | cons r rs ih =>
    have htime : (if prev ≠ some r.1 then p.scheduled start i r.1 else time)
        = p.scheduled start i r.1 := by
      split
      · rfl
      · rename_i h
        exact hprev _ (not_not.mp h)
    rw [TickerParams.runMinorTick, List.map_cons, htime, ih fun t ht => by rw [← Option.some.inj ht]]
    rfl

/-- Entries of the first tick are passed over; the loop has slept until then already. -/
theorem runMinorTick_skip (hprev : ∀ t, prev = some t → start = p.scheduled start 0 t)
    {skipped rs : List (ℕ × TFuncBound)} (hskip : ∀ r ∈ skipped, r.1 = 0) :
    (p.runMinorTick start 0 skipped.length prev start (skipped ++ rs)).1
      = rs.map (p.called start 0) := by
  induction skipped generalizing prev with
  | nil => exact runMinorTick_eq hprev rs
  | cons r skipped ih =>
    refine ih (fun t ht => ?_) fun r' hr' => hskip r' (List.mem_cons_of_mem _ hr')
    rw [← Option.some.inj ht, hskip r List.mem_cons_self]
    simp only [TickerParams.scheduled, Nat.mul_zero, Nat.zero_mul, Nat.add_zero]

theorem runMinorTicks_eq {plan : Plan} {is : List ℕ} (h : ∀ i ∈ is, i ≠ 0) :
    p.runMinorTicks plan start is time = is.flatMap fun i => plan.ticks.map (p.called start i) := by
  induction is generalizing time with
  | nil => rfl
  | cons i is ih =>
    rw [TickerParams.runMinorTicks, List.flatMap_cons, if_neg (h i List.mem_cons_self),
      ih fun i' hi' => h i' (List.mem_cons_of_mem _ hi')]
    congr 1
    exact runMinorTick_eq (fun t (ht : none = some t) => nomatch ht) _

/-- The minor bit is set at the first tick of a minor tick. -/
theorem SubscriberConfig.makeMask_zero_pos (c : SubscriberConfig p) (major : Bool) :
    0 < c.makeMask fl 0 major := by
  have hbit : (c.makeMask fl 0 major).getLsbD 1 = true :=
    SubscriberConfig.getLsbD_makeMask.mpr (.inr (.inl ⟨rfl, Nat.zero_mod _⟩))
  refine (BitVec.pos_iff_ne_zero _).mpr fun h0 => ?_
  rw [h0] at hbit
  cases hbit

/-- Apart from the major tick, what is called is what is planned. -/
theorem callsAt_eq (configs : OrderedMap String (SubscriberConfig p)) (h : ¬ (i = 0 ∧ t = 0)) :
    callsAt fl configs start i t
      = (configs.entries.flatMap (Plan.ticksOf fl t)).map (p.called start i) := by
  rw [callsAt, List.map_flatMap]
  congr 1
  funext e
  rw [SubscriberConfig.dueMask, decide_eq_false h, Plan.ticksOf, SubscriberConfig.getTickMaybe]
  split <;> rfl

theorem callsAt_zero (configs : OrderedMap String (SubscriberConfig p)) :
    callsAt fl configs start 0 0
      = (configs.entries.map fun e => e.2.getMajorTick fl e.1).map fun callback =>
          ⟨0, 0, start, callback⟩ := by
  rw [callsAt, List.map_map, List.map_eq_flatMap]
  refine List.flatMap_congr fun e _ => ?_
  have hmask : e.2.dueMask fl 0 0 = e.2.makeMask fl 0 true := rfl
  have htime : p.scheduled start 0 0 = start := by
    simp only [TickerParams.scheduled, Nat.mul_zero, Nat.zero_mul, Nat.add_zero]
  rw [hmask, if_pos (e.2.makeMask_zero_pos true), htime]
  rfl

/-- At the first tick every subscriber is interested. -/
theorem ticksOf_zero (e : String × SubscriberConfig p) :
    Plan.ticksOf fl 0 e = [(0, ⟨e.1, e.2.makeMask fl 0 false⟩)] := by
  rw [Plan.ticksOf, SubscriberConfig.getTickMaybe, if_pos (e.2.makeMask_zero_pos false)]
  rfl

/-- The minor tick in which the entries of the first tick are passed over. -/
theorem runMinorTick_first {configs : OrderedMap String (SubscriberConfig p)} {k : ℕ}
    (hk : k = configs.entries.length) (rs : List (ℕ × TFuncBound)) :
    (p.runMinorTick start 0 k none start
      (configs.entries.flatMap (Plan.ticksOf fl 0) ++ rs)).1 = rs.map (p.called start 0) := by
  have hflat : configs.entries.flatMap (Plan.ticksOf fl 0)
      = configs.entries.map fun e => (0, ⟨e.1, e.2.makeMask fl 0 false⟩) := by
    rw [List.map_eq_flatMap]
    exact List.flatMap_congr fun e _ => ticksOf_zero e
  have hlen : (configs.entries.flatMap (Plan.ticksOf fl 0)).length = k := by
    rw [hflat, List.length_map, hk]
  rw [← hlen]
  refine runMinorTick_skip (fun t (ht : none = some t) => nomatch ht) fun r hr => ?_
  rw [hflat] at hr
  obtain ⟨e, -, rfl⟩ := List.mem_map.mp hr
  rfl

/-- **What is called is what is due.**  The entries that are passed over in the first minor
tick are those of the first tick, one for each subscriber. -/
theorem runMajorTick_eq (configs : OrderedMap String (SubscriberConfig p)) (start : ℕ) :
    p.runMajorTick (Plan.rebuildPlan fl configs) start = schedule fl configs start := by
  obtain ⟨hmajor, hticks⟩ := @Plan.rebuildPlan_eq p fl configs
  obtain ⟨m, hm⟩ := Nat.exists_eq_succ_of_ne_zero p.minorTicks_pos.ne'
  obtain ⟨f, hf⟩ := Nat.exists_eq_succ_of_ne_zero p.fundamentalTickPerMinorTick_pos.ne'
  have hsplit : (Plan.rebuildPlan fl configs).ticks
      = configs.entries.flatMap (Plan.ticksOf fl 0)
        ++ (List.range' 1 f).flatMap fun t => configs.entries.flatMap (Plan.ticksOf fl t) := by
    rw [hticks, hf, List.range_eq_range', List.range'_succ, List.flatMap_cons]
  have hlater : ∀ i, i ≠ 0 → (Plan.rebuildPlan fl configs).ticks.map (p.called start i)
      = (List.range p.fundamentalTickPerMinorTick).flatMap (callsAt fl configs start i) := by
    intro i hi
    rw [hticks, List.map_flatMap]
    exact List.flatMap_congr fun t _ => (callsAt_eq configs fun h => hi h.1).symm
  have hrest : ((List.range' 1 f).flatMap fun t =>
      configs.entries.flatMap (Plan.ticksOf fl t)).map (p.called start 0)
        = (List.range' 1 f).flatMap (callsAt fl configs start 0) := by
    rw [List.map_flatMap]
    refine List.flatMap_congr fun t ht => (callsAt_eq configs fun h => ?_).symm
    have := (List.mem_range'_1.mp ht).1
    omega
  rw [TickerParams.runMajorTick, schedule, hm, List.range_eq_range', List.range'_succ,
    TickerParams.runMinorTicks, List.flatMap_cons, if_pos rfl, hmajor, ← callsAt_zero,
    runMinorTicks_eq fun i hi => by have := (List.mem_range'_1.mp hi).1; omega,
    List.flatMap_congr fun i hi => hlater i (by have := (List.mem_range'_1.mp hi).1; omega), hf,
    List.range_eq_range', List.range'_succ, List.flatMap_cons, ← hrest, List.append_assoc]
  congr 2
  show (p.runMinorTick start 0 _ none start (Plan.rebuildPlan fl configs).ticks).1 = _
  rw [hsplit]
  exact runMinorTick_first (List.length_map _) _

end

/-! ## Counting the calls -/

/-- The calls of one subscriber. -/
def callsOf (name : String) (calls : List Called) : List Called :=
  calls.filter fun e => e.call.subscriber = name

section

variable {α β : Type}

/-- Of a range of positions all but one contribute nothing. -/
theorem flatMap_range_single {f : ℕ → List α} {n i : ℕ} (hi : i < n) (h : ∀ j ≠ i, f j = []) :
    (List.range n).flatMap f = f i := by
  induction n with
  | zero => omega
  | succ n ih =>
    rw [List.range_succ, List.flatMap_append, List.flatMap_singleton]
    by_cases hlast : i = n
    · have hnone : (List.range n).flatMap f = [] :=
        List.flatMap_eq_nil_iff.mpr fun j hj => h j (by have := List.mem_range.mp hj; omega)
      rw [hnone, hlast, List.nil_append]
    · rw [ih (by omega), h n (Ne.symm hlast), List.append_nil]

/-- What is contributed where a condition holds. -/
theorem flatMap_ite (q : α → Bool) (f : α → β) (l : List α) :
    (l.flatMap fun a => if q a then [f a] else []) = (l.filter q).map f := by
  induction l with
  | nil => rfl
  | cons a l ih =>
    rw [List.flatMap_cons, ih, List.filter_cons]
    split <;> rfl

/-- Of the entries of a map, the contribution of one key. -/
theorem filter_flatMap_key {κ ν : Type} [LinearOrder κ] {m : OrderedMap κ ν} {k : κ} {v : ν}
    (hv : m.get? k = some v) (f : κ × ν → List α) (q : α → Bool)
    (hq : ∀ e, ∀ a ∈ f e, q a = decide (e.1 = k)) :
    (m.entries.flatMap f).filter q = f (k, v) := by
  have hother : ∀ e, e.1 ≠ k → (f e).filter q = [] := fun e he =>
    List.filter_eq_nil_iff.mpr fun a ha => by rw [hq e a ha, decide_eq_false he]; exact nofun
  obtain ⟨es, hs⟩ := m
  have hv' : es.lookup k = some v := hv
  show (es.flatMap f).filter q = f (k, v)
  clear hv
  induction es with
  | nil => cases hv'
  | cons e es ih =>
    obtain ⟨he, hes⟩ := List.pairwise_cons.mp hs
    rw [OrderedMap.lookup_cons'] at hv'
    rw [List.flatMap_cons, List.filter_append]
    split at hv'
    · rename_i hk
      obtain rfl : e = (k, v) := Prod.ext hk.symm (Option.some.inj hv')
      have hrest : (es.flatMap f).filter q = [] := by
        rw [List.filter_flatMap]
        exact List.flatMap_eq_nil_iff.mpr fun e' he' => hother e' (he e' he').ne'
      rw [hrest, List.append_nil]
      exact List.filter_eq_self.mpr fun a ha => by rw [hq _ a ha, decide_eq_true rfl]
    · rename_i hk
      rw [hother e (Ne.symm hk), List.nil_append]
      exact ih hes hv'

end

section

variable {p : TickerParams} {fl : Rounding} {configs : OrderedMap String (SubscriberConfig p)}
  {c : SubscriberConfig p} {name : String} {start i t : ℕ}

/-- The call of one subscriber at a fundamental tick, if a level is due. -/
def callAt (fl : Rounding) (c : SubscriberConfig p) (name : String) (start i t : ℕ) :
    List Called :=
  if 0 < c.dueMask fl i t then [⟨i, t, p.scheduled start i t, ⟨name, c.dueMask fl i t⟩⟩] else []

theorem callsOf_callsAt (hc : configs.get? name = some c) :
    callsOf name (callsAt fl configs start i t) = callAt fl c name start i t := by
  refine filter_flatMap_key hc _ _ fun e a ha => ?_
  split at ha
  · rw [List.mem_singleton.mp ha]
  · cases ha

theorem callsOf_schedule (hc : configs.get? name = some c) :
    callsOf name (schedule fl configs start)
      = (List.range p.minorTicksPerMajorTick).flatMap fun i =>
          (List.range p.fundamentalTickPerMinorTick).flatMap (callAt fl c name start i) := by
  rw [callsOf, schedule, List.filter_flatMap]
  refine List.flatMap_congr fun i _ => ?_
  rw [List.filter_flatMap]
  exact List.flatMap_congr fun t _ => callsOf_callsAt hc

/-- The calls with a bit that is set in the mask wherever there is one. -/
theorem filter_callAt {q : Called → Bool} {d : ℕ → ℕ → Bool}
    (hq : ∀ i t, q ⟨i, t, p.scheduled start i t, ⟨name, c.dueMask fl i t⟩⟩ = d i t)
    (hd : ∀ i t, d i t = true → 0 < c.dueMask fl i t) (i t : ℕ) :
    (callAt fl c name start i t).filter q
      = if d i t then [⟨i, t, p.scheduled start i t, ⟨name, c.dueMask fl i t⟩⟩] else [] := by
  rw [callAt]
  by_cases hdue : d i t = true
  · rw [if_pos (hd i t hdue), if_pos hdue, List.filter_singleton, hq, hdue]
    rfl
  · rw [if_neg hdue]
    split
    · rw [List.filter_singleton, hq, (Bool.not_eq_true _).mp hdue]
      rfl
    · rfl

theorem filter_callsOf (hc : configs.get? name = some c) {q : Called → Bool} {d : ℕ → ℕ → Bool}
    (hq : ∀ i t, q ⟨i, t, p.scheduled start i t, ⟨name, c.dueMask fl i t⟩⟩ = d i t)
    (hd : ∀ i t, d i t = true → 0 < c.dueMask fl i t) :
    (callsOf name (schedule fl configs start)).filter q
      = (List.range p.minorTicksPerMajorTick).flatMap fun i =>
          ((List.range p.fundamentalTickPerMinorTick).filter (d i)).map fun t =>
            ⟨i, t, p.scheduled start i t, ⟨name, c.dueMask fl i t⟩⟩ := by
  rw [callsOf_schedule hc, List.filter_flatMap]
  refine List.flatMap_congr fun i _ => ?_
  rw [List.filter_flatMap, ← flatMap_ite]
  exact List.flatMap_congr fun t _ => filter_callAt hq hd i t

/-! ### The bits of a call -/

theorem pos_of_bit {mask : TMask} {b : ℕ} (h : mask.getLsbD b = true) : 0 < mask := by
  refine (BitVec.pos_iff_ne_zero _).mpr fun h0 => ?_
  rw [h0, BitVec.getLsbD_zero] at h
  cases h

theorem isMajorTick_dueMask :
    (c.dueMask fl i t).isMajorTick = decide (i = 0 ∧ t = 0) := by
  rw [TMask.isMajorTick_eq, Bool.eq_iff_iff, SubscriberConfig.dueMask,
    SubscriberConfig.getLsbD_makeMask]
  simp

theorem isMinorTick_dueMask :
    (c.dueMask fl i t).isMinorTick = decide (t % p.fundamentalTickPerMinorTick = 0) := by
  rw [TMask.isMinorTick_eq, Bool.eq_iff_iff, SubscriberConfig.dueMask,
    SubscriberConfig.getLsbD_makeMask]
  simp

theorem isSubminorTick_dueMask (l : Fin p.subtickLevels) :
    (c.dueMask fl i t).isSubminorTick l = c.isDue fl t l := by
  have hl : (l + 2 : ℕ) < 16 := by
    have := SubscriberConfig.subtickLevels_le p
    omega
  rw [TMask.isSubminorTick_eq hl, Bool.eq_iff_iff, SubscriberConfig.dueMask,
    SubscriberConfig.getLsbD_makeMask]
  simp [Fin.val_inj]

/-- The calls of one minor tick with a bit of their own. -/
theorem filter_callsOf_minor (hc : configs.get? name = some c) {i₀ : ℕ}
    (hi₀ : i₀ < p.minorTicksPerMajorTick) (bit : TMask → Bool) (d : ℕ → Bool)
    (hbit : ∀ i t, bit (c.dueMask fl i t) = d t)
    (hpos : ∀ mask, bit mask = true → 0 < mask) :
    ((callsOf name (schedule fl configs start)).filter fun e =>
        e.minor = i₀ ∧ bit e.call.mask).map Called.tick
      = (List.range p.fundamentalTickPerMinorTick).filter d := by
  rw [@filter_callsOf p fl configs c name start hc _ (fun i t => decide (i = i₀) && d t)]
  · rw [flatMap_range_single hi₀]
    · simp only [decide_true, Bool.true_and, List.map_map]
      exact List.map_id _
    · intro j hj
      simp [hj]
  · intro i t
    show decide (i = i₀ ∧ bit (c.dueMask fl i t) = true) = _
    rw [hbit]
    simp
  · intro i t h
    refine hpos _ ?_
    rw [hbit]
    simp only [Bool.and_eq_true] at h
    exact h.2

end

/-! ## The plan is complete -/

/-- The calls of a major interval are complete. -/
structure Complete {p : TickerParams} (fl : Rounding)
    (configs : OrderedMap String (SubscriberConfig p)) (start : ℕ) (calls : List Called) :
    Prop where
  /-- Everybody is called once with the major bit, -/
  major : ∀ name c, configs.get? name = some c →
    ((callsOf name calls).filter (·.call.mask.isMajorTick)).length = 1
  /-- once in every minor tick with the minor bit, -/
  minor : ∀ name c, configs.get? name = some c → ∀ i < p.minorTicksPerMajorTick,
    ((callsOf name calls).filter fun e => e.minor = i ∧ e.call.mask.isMinorTick).length = 1
  /-- and with the bit of a sub-minor level at as many ticks of the level as the rate says,
  one after the other. -/
  subminor : ∀ name c, configs.get? name = some c → ∀ i < p.minorTicksPerMajorTick,
    ∀ l : Fin p.subtickLevels,
      ((callsOf name calls).filter fun e =>
          e.minor = i ∧ e.call.mask.isSubminorTick l).map Called.tick
        = (List.range (c.nTicks fl l)).map fun k =>
            (c.place fl l + k) * p.fundamentalTickPerLevel (l + 1)
  /-- A call has the bits that are due, and no others. -/
  mask : ∀ e ∈ calls, ∃ c, configs.get? e.call.subscriber = some c ∧
    ∀ b, e.call.mask.getLsbD b = true ↔
      (b = 0 ∧ e.minor = 0 ∧ e.tick = 0) ∨ (b = 1 ∧ e.tick = 0)
        ∨ ∃ l : Fin p.subtickLevels, b = l + 2 ∧ ∃ k < c.nTicks fl l,
            e.tick = (c.place fl l + k) * p.fundamentalTickPerLevel (l + 1)
  /-- A subscriber is called once at a tick. -/
  once : calls.Pairwise fun e e' =>
    ¬ (e.call.subscriber = e'.call.subscriber ∧ e.minor = e'.minor ∧ e.tick = e'.tick)
  /-- The calls are made at the times of their ticks, in order. -/
  scheduled : ∀ e ∈ calls, e.time = p.scheduled start e.minor e.tick
  ordered : calls.Pairwise fun e e' => e.time ≤ e'.time

section

variable {p : TickerParams} {fl : Rounding} {configs : OrderedMap String (SubscriberConfig p)}
  {start : ℕ} {e e' : Called}

/-- The order of the calls: by minor tick, by fundamental tick, and by subscriber. -/
def Called.Before (e e' : Called) : Prop :=
  e.minor < e'.minor ∨ (e.minor = e'.minor ∧ (e.tick < e'.tick
    ∨ (e.tick = e'.tick ∧ e.call.subscriber < e'.call.subscriber)))

/-- What a scheduled call is. -/
structure Called.Scheduled (fl : Rounding) (configs : OrderedMap String (SubscriberConfig p))
    (start : ℕ) (e : Called) : Prop where
  tick : e.tick < p.fundamentalTickPerMinorTick
  time : e.time = p.scheduled start e.minor e.tick
  subscriber : ∃ c, configs.get? e.call.subscriber = some c
    ∧ e.call.mask = c.dueMask fl e.minor e.tick

theorem scheduled_of_mem (h : e ∈ schedule fl configs start) : e.Scheduled fl configs start := by
  rw [schedule, List.mem_flatMap] at h
  obtain ⟨i, -, h⟩ := h
  rw [List.mem_flatMap] at h
  obtain ⟨t, ht, h⟩ := h
  rw [callsAt, List.mem_flatMap] at h
  obtain ⟨⟨name, c⟩, hmem, h⟩ := h
  split at h
  · rw [List.mem_singleton.mp h]
    exact ⟨List.mem_range.mp ht, rfl, c, OrderedMap.mem_entries.mp hmem, rfl⟩
  · cases h

theorem pairwise_callsAt (i t : ℕ) : (callsAt fl configs start i t).Pairwise Called.Before := by
  refine List.pairwise_flatMap.mpr ⟨fun a _ => ?_, configs.sorted.imp fun {a b} hab => ?_⟩
  · split
    · exact List.pairwise_singleton _ _
    · exact List.Pairwise.nil
  · intro x hx y hy
    split at hx
    · split at hy
      · rw [List.mem_singleton.mp hx, List.mem_singleton.mp hy]
        exact .inr ⟨rfl, .inr ⟨rfl, hab⟩⟩
      · cases hy
    · cases hx

theorem mem_callsAt {i t : ℕ} (h : e ∈ callsAt fl configs start i t) : e.minor = i ∧ e.tick = t := by
  rw [callsAt, List.mem_flatMap] at h
  obtain ⟨a, -, h⟩ := h
  split at h
  · rw [List.mem_singleton.mp h]
    exact ⟨rfl, rfl⟩
  · cases h

theorem pairwise_schedule : (schedule fl configs start).Pairwise Called.Before := by
  refine List.pairwise_flatMap.mpr ⟨fun i _ => List.pairwise_flatMap.mpr
    ⟨fun t _ => pairwise_callsAt i t, List.pairwise_lt_range.imp fun {t t'} htt' => ?_⟩,
    List.pairwise_lt_range.imp fun {i i'} hii' => ?_⟩
  · intro x hx y hy
    obtain ⟨hi, ht⟩ := mem_callsAt hx
    obtain ⟨hi', ht'⟩ := mem_callsAt hy
    exact .inr ⟨hi.trans hi'.symm, .inl (ht ▸ ht' ▸ htt')⟩
  · intro x hx y hy
    obtain ⟨t, -, hx⟩ := List.mem_flatMap.mp hx
    obtain ⟨t', -, hy⟩ := List.mem_flatMap.mp hy
    exact .inl ((mem_callsAt hx).1 ▸ (mem_callsAt hy).1 ▸ hii')

/-- The last fundamental tick of a minor tick is before the next minor tick. -/
theorem scheduled_le {i t i' t' : ℕ} (ht : t < p.fundamentalTickPerMinorTick)
    (h : i < i' ∨ (i = i' ∧ t ≤ t')) : p.scheduled start i t ≤ p.scheduled start i' t' := by
  rw [TickerParams.scheduled, TickerParams.scheduled]
  rcases h with h | ⟨rfl, h⟩
  · have htick : t * p.fundamentalTickNs ≤ p.minorTickMs * 1000000 := by
      refine (Nat.mul_le_mul_right _ ht.le).trans ?_
      exact Nat.mul_div_le _ _
    have hminor : p.minorTickMs * i * 1000000 + p.minorTickMs * 1000000
        ≤ p.minorTickMs * i' * 1000000 := by
      rw [← Nat.add_mul, ← Nat.mul_succ]
      exact Nat.mul_le_mul_right _ (Nat.mul_le_mul_left _ h)
    omega
  · exact Nat.add_le_add_left (Nat.mul_le_mul_right _ h) _

theorem Called.Before.time_le (h : e.Before e') (he : e.Scheduled fl configs start)
    (he' : e'.Scheduled fl configs start) : e.time ≤ e'.time := by
  rw [he.time, he'.time]
  refine scheduled_le he.tick ?_
  rcases h with h | ⟨h, h' | ⟨h', -⟩⟩
  · exact .inl h
  · exact .inr ⟨h, h'.le⟩
  · exact .inr ⟨h, h'.le⟩

theorem mask_of_scheduled (he : e.Scheduled fl configs start) :
    ∃ c, configs.get? e.call.subscriber = some c ∧
      ∀ b, e.call.mask.getLsbD b = true ↔
        (b = 0 ∧ e.minor = 0 ∧ e.tick = 0) ∨ (b = 1 ∧ e.tick = 0)
          ∨ ∃ l : Fin p.subtickLevels, b = l + 2 ∧ ∃ k < c.nTicks fl l,
              e.tick = (c.place fl l + k) * p.fundamentalTickPerLevel (l + 1) := by
  obtain ⟨c, hc, hmask⟩ := he.subscriber
  refine ⟨c, hc, fun b => ?_⟩
  have hfirst : e.tick % p.fundamentalTickPerMinorTick = 0 ↔ e.tick = 0 := by
    rw [Nat.mod_eq_of_lt he.tick]
  have hdue : ∀ l, c.isDue fl e.tick l = true ↔ ∃ k < c.nTicks fl l,
      e.tick = (c.place fl l + k) * p.fundamentalTickPerLevel (l + 1) := by
    intro l
    have hmem : e.tick ∈ (List.range p.fundamentalTickPerMinorTick).filter (c.isDue fl · l) ↔ _ :=
      List.mem_filter
    rw [c.filter_isDue, List.mem_map] at hmem
    constructor
    · intro h
      obtain ⟨k, hk, htick⟩ := hmem.mpr ⟨List.mem_range.mpr he.tick, h⟩
      exact ⟨k, List.mem_range.mp hk, htick.symm⟩
    · rintro ⟨k, hk, htick⟩
      exact (hmem.mp ⟨k, List.mem_range.mpr hk, htick.symm⟩).2
  rw [hmask, SubscriberConfig.dueMask, SubscriberConfig.getLsbD_makeMask, hfirst,
    decide_eq_true_iff]
  refine or_congr Iff.rfl (or_congr Iff.rfl (exists_congr fun l => ?_))
  rw [hdue, and_comm, eq_comm]

end

theorem filter_range_zero {n : ℕ} (h : 0 < n) (q : ℕ → Bool)
    (hq : ∀ t < n, q t = true ↔ t = 0) : (List.range n).filter q = [0] := by
  obtain ⟨m, rfl⟩ := Nat.exists_eq_succ_of_ne_zero h.ne'
  have hrest : (List.range' 1 m).filter q = [] := by
    refine List.filter_eq_nil_iff.mpr fun t ht hqt => ?_
    have hlt := List.mem_range'_1.mp ht
    have := (hq t (by omega)).mp hqt
    omega
  rw [List.range_eq_range', List.range'_succ, List.filter_cons, if_pos ((hq 0 h).mpr rfl)]
  exact congrArg _ hrest

/-- **The plan of a ticker is complete.** -/
theorem ticker_plan_complete (p : TickerParams) (fl : Rounding)
    (configs : OrderedMap String (SubscriberConfig p)) (majorTickStart : ℕ) :
    Complete fl configs majorTickStart
      (p.runMajorTick (Plan.rebuildPlan fl configs) majorTickStart) := by
  rw [runMajorTick_eq]
  constructor
  · intro name c hc
    rw [filter_callsOf hc (fun i t => isMajorTick_dueMask) fun i t h =>
        pos_of_bit (TMask.isMajorTick_eq ▸ isMajorTick_dueMask.trans h),
      flatMap_range_single p.minorTicks_pos fun j hj => ?_, List.length_map,
      filter_range_zero p.fundamentalTickPerMinorTick_pos _ fun t _ => by simp]
    · rfl
    · simp [hj]
  · intro name c hc i hi
    rw [← List.length_map, filter_callsOf_minor hc hi TMask.isMinorTick _
        (fun i t => isMinorTick_dueMask) fun mask h => pos_of_bit (TMask.isMinorTick_eq ▸ h),
      filter_range_zero p.fundamentalTickPerMinorTick_pos _ fun t ht => ?_]
    · rfl
    · rw [decide_eq_true_iff, Nat.mod_eq_of_lt ht]
  · intro name c hc i hi l
    rw [filter_callsOf_minor hc hi (·.isSubminorTick l) _ (fun i t => isSubminorTick_dueMask l)
      fun mask h => ?_]
    · exact c.filter_isDue fl l
    · have hl : (l + 2 : ℕ) < 16 := by
        have := SubscriberConfig.subtickLevels_le p
        omega
      exact pos_of_bit (TMask.isSubminorTick_eq hl ▸ h)
  · exact fun e he => mask_of_scheduled (scheduled_of_mem he)
  · refine pairwise_schedule.imp fun {e e'} h => ?_
    rintro ⟨hname, hminor, htick⟩
    rcases h with h | ⟨-, h | ⟨-, h⟩⟩
    · omega
    · omega
    · exact h.ne hname
  · exact fun e he => (scheduled_of_mem he).time
  · exact pairwise_schedule.imp_of_mem fun he he' h =>
      h.time_le (scheduled_of_mem he) (scheduled_of_mem he')

/-- Two minor ticks of two fundamental ticks, of which the subscriber wants every second:
the first call has all bits, and in the second minor tick the major bit is missing. -/
example :
    let p : TickerParams := ⟨2, 1, 2, 3, by decide, by decide, by decide, by decide, by decide,
      by decide, by decide, by decide⟩
    let c : SubscriberConfig p := ⟨fun _ => 1 / 2, fun _ => by decide +kernel, fun _ => 0⟩
    let fl : Rounding := ⟨id, monotone_id, fun _ _ => rfl⟩
    p.runMajorTick (Plan.rebuildPlan fl (OrderedMap.empty.emplace "cpu" c)) 0
      = [⟨0, 0, 0, ⟨"cpu", 7⟩⟩, ⟨1, 0, 1000000, ⟨"cpu", 6⟩⟩] := by
  decide +kernel

end Dynolog
end IntegratedCLI
