import IntegratedCLI.Lac.Prompt
import Mathlib.Tactic.Ring

/-!
# Self-extend

With `grp_attn_n` above one the loop does not shift the context.  It goes on beyond the context
that the model was trained with by grouping: of the tokens in the cache the ones of complete
windows of `grp_attn_w` tokens share a position with their neighbours, `grp_attn_n` at a time,
and the other ones move down by what that saves.

The three calls that group a window move the entries behind the groups up to where they were
decoded, divide the positions of the window, and move the rest down again.  `groupStep_placed`
says that the positions are then those of `position` for one window more, and
`groupLoop_placed` that the loop groups all windows that are complete.

There is no session file, so that all tokens are decoded.  With one, `decoded_where_restored`,
a window may be grouped while the entries of the session are still being reused.
-/

namespace IntegratedCLI
namespace Lac

/-! ## The loop -/

/-- `llama_kv_cache_seq_div` : divide the positions of a range. -/
def KvCache.seqDiv (c : KvCache) (p0 p1 d : ℤ) : KvCache :=
  List.map (fun p => if inRange p0 p1 p then p.tdiv d else p) c

/-- The sizes of the groups, as `main` checks them. -/
structure GroupParams where
  gaN : ℤ
  gaW : ℤ
  gaN_pos : 0 < gaN
  gaN_ne_one : gaN ≠ 1
  dvd : gaW.tmod gaN = 0

/-- The state of the loop, with the number of positions that are grouped so far. -/
structure Extended where
  st : State
  gaI : ℤ
  deriving DecidableEq, Repr

structure ExtendedWorld where
  state : Option Extended
  acts : List Act
  deriving DecidableEq, Repr

namespace Extended

variable (g : GroupParams) (p : Params) (inp : Input) (x : Extended)

/-- Group the first window that is not grouped. -/
def groupStep : Extended :=
  let ib := (g.gaN * x.gaI).tdiv g.gaW
  let bd := g.gaW.tdiv g.gaN * (g.gaN - 1)
  let dd := g.gaW.tdiv g.gaN - ib * bd - g.gaW
  let c := x.st.cache.seqAdd x.gaI x.st.nPast (ib * bd)
  let c := c.seqDiv (x.gaI + ib * bd) (x.gaI + ib * bd + g.gaW) g.gaN
  let c := c.seqAdd (x.gaI + ib * bd + g.gaW) (x.st.nPast + ib * bd) dd
  { st := { x.st with cache := c, nPast := x.st.nPast - bd }
    gaI := x.gaI + g.gaW.tdiv g.gaN }

def groupLoop : ℕ → Extended → Extended
  | 0, x => x
  | fuel + 1, x => if x.gaI + g.gaW ≤ x.st.nPast then groupLoop fuel (x.groupStep g) else x

/-- Group what is complete.  Every window takes `grp_attn_w` positions off. -/
def group : Extended := groupLoop g (x.st.nPast - x.gaI).toNat x

def predict : List Act × Option Extended :=
  if x.st.embd = [] then ([], some x)
  else
    let x := group g { x with st := x.st.truncate p }
    let r := x.st.feed p inp
    (r.1, r.2.map fun st => { x with st := st })

def iterate : List Act × Option Extended :=
  let r := x.predict g p inp
  (r.1, r.2.map fun x => { x with st := (x.st.next p inp).append inp })

end Extended

namespace ExtendedWorld

def init (p : Params) : ExtendedWorld := ⟨p.start.map fun st => ⟨st, 0⟩, []⟩

def step (g : GroupParams) (p : Params) (w : ExtendedWorld) (inp : Input) : ExtendedWorld :=
  match w.state with
  | none => w
  | some x => ⟨(x.iterate g p inp).2, w.acts ++ (x.iterate g p inp).1⟩

end ExtendedWorld

/-! ## The positions -/

namespace GroupParams

variable (g : GroupParams)

/-- The position of a token when the first windows are grouped. -/
def position (windows : ℕ) (i : ℕ) : ℤ :=
  if (i : ℤ) < windows * g.gaW then i / g.gaN
  else i - windows * (g.gaW - g.gaW / g.gaN)

/-- The entries of the first tokens. -/
def entries (windows n : ℕ) : KvCache := (List.range n).map (g.position windows)

/-- What is decoded: a batch behind the `n` tokens before it, of which all complete windows are
grouped. -/
def Placed : ℕ → List Act → Prop
  | _, [] => True
  | n, .decode nPast nEval cache :: acts =>
    nPast = g.position (n / g.gaW.toNat) n ∧ cache = g.entries (n / g.gaW.toNat) n ∧
      Placed (n + nEval) acts
  | _, _ :: _ => False

instance instDecidablePlaced : ∀ n acts, Decidable (g.Placed n acts)
  | _, [] => isTrue trivial
  | n, .decode _ nEval _ :: acts =>
    have := instDecidablePlaced (n + nEval) acts
    inferInstanceAs (Decidable (_ ∧ _ ∧ _))
  | _, .shift _ _ :: _ => isFalse id
  | _, .reuse _ _ :: _ => isFalse id

end GroupParams

/-- How many tokens were decoded. -/
def decodedCount : List Act → ℕ
  | [] => 0
  | .decode _ nEval _ :: acts => nEval + decodedCount acts
  | _ :: acts => decodedCount acts

section Positions

variable {g : GroupParams} {p : Params} {inp : Input} {x : Extended} {n k : ℕ}

theorem decodedCount_append (as bs : List Act) :
    decodedCount (as ++ bs) = decodedCount as + decodedCount bs := by
  induction as with
  | nil => exact (Nat.zero_add _).symm
  | cons a as ih =>
    cases a with
    | shift _ _ => exact ih
    | reuse _ _ => exact ih
    | decode _ m _ =>
      show m + decodedCount (as ++ bs) = m + decodedCount as + decodedCount bs
      rw [ih, Nat.add_assoc]

theorem GroupParams.Placed.append {as bs : List Act} (h : g.Placed n as)
    (h' : g.Placed (n + decodedCount as) bs) : g.Placed n (as ++ bs) := by
  induction as generalizing n with
  | nil => exact h'
  | cons a as ih =>
    cases a with
    | shift _ _ => exact h.elim
    | reuse _ _ => exact h.elim
    | decode _ m _ =>
      refine ⟨h.1, h.2.1, ih h.2.2 ?_⟩
      rw [Nat.add_assoc]
      exact h'

/-- The entries of a mapped list are moved one by one. -/
theorem KvCache.seqAdd_map {l : List ℕ} {f : ℕ → ℤ} {p0 p1 d : ℤ}
    (h : ∀ i ∈ l, 0 ≤ if inRange p0 p1 (f i) then f i + d else f i) :
    KvCache.seqAdd (l.map f) p0 p1 d =
      l.map fun i => if inRange p0 p1 (f i) then f i + d else f i := by
  unfold seqAdd
  rw [List.map_map, List.filter_eq_self.mpr]
  · rfl
  · intro q hq
    obtain ⟨i, hi, rfl⟩ := List.mem_map.mp hq
    exact decide_eq_true (h i hi)

/-! ### A window -/

theorem KvCache.inRange_iff_le_lt {p0 p1 q : ℤ} (h0 : 0 ≤ p0) (h1 : 0 ≤ p1) :
    inRange p0 p1 q = true ↔ p0 ≤ q ∧ q < p1 := by
  unfold inRange
  rw [max_eq_left h0, Bool.and_eq_true, Bool.or_eq_true, decide_eq_true_eq, decide_eq_true_eq,
    decide_eq_true_eq]
  omega

theorem GroupParams.width_eq (hW : 0 < g.gaW) :
    g.gaW.tdiv g.gaN = g.gaW / g.gaN ∧ g.gaN * (g.gaW / g.gaN) = g.gaW ∧
      0 < g.gaW / g.gaN ∧ g.gaW / g.gaN ≤ g.gaW := by
  have hdvd : g.gaN * (g.gaW / g.gaN) = g.gaW := Int.mul_ediv_cancel' (Int.dvd_of_tmod_eq_zero g.dvd)
  have hpos := g.gaN_pos
  refine ⟨Int.tdiv_eq_ediv_of_nonneg hW.le, hdvd, ?_, Int.ediv_le_self _ hW.le⟩
  by_contra hneg
  have hle : g.gaN * (g.gaW / g.gaN) ≤ 0 :=
    mul_nonpos_of_nonneg_of_nonpos hpos.le (not_lt.mp hneg)
  omega

/-- The calls that group the window from `A + B` on, where the groups before it take `A`
positions and save `B`. -/
theorem KvCache.group_window {d A B w q m : ℤ} {n : ℕ} (hd : 0 < d) (hA : 0 ≤ A) (hB : 0 ≤ B)
    (hgroups : ∀ i : ℤ, i < A + B → i / d < A) (hwindow : ∀ i : ℤ, i < A + B + w → i / d < A + q)
    (hq : 0 ≤ q) (hqw : q ≤ w) (hfull : A + B + w ≤ n) (hm : m = n - B) :
    ((seqAdd ((List.range n).map fun i : ℕ => if (i : ℤ) < A + B then (i : ℤ) / d else i - B)
      A m B).seqDiv (A + B) (A + B + w) d).seqAdd (A + B + w) (m + B) (q - B - w) =
      (List.range n).map fun i : ℕ =>
        if (i : ℤ) < A + B + w then (i : ℤ) / d else i - (B + (w - q)) := by
  have hdiv : ∀ i : ℕ, 0 ≤ (i : ℤ) / d := fun i => Int.ediv_nonneg (Int.natCast_nonneg i) hd.le
  -- the entries behind the groups are where they were decoded
  have hback : seqAdd ((List.range n).map fun i : ℕ => if (i : ℤ) < A + B then (i : ℤ) / d
      else i - B) A m B = (List.range n).map fun i : ℕ => if (i : ℤ) < A + B then (i : ℤ) / d
        else i := by
    have hmove : ∀ i ∈ List.range n, (if inRange A m (if (i : ℤ) < A + B then (i : ℤ) / d
        else i - B) then (if (i : ℤ) < A + B then (i : ℤ) / d else i - B) + B
        else if (i : ℤ) < A + B then (i : ℤ) / d else i - B) =
        if (i : ℤ) < A + B then (i : ℤ) / d else i := by
      intro i hi
      have hin : (i : ℤ) < n := Int.ofNat_lt.mpr (List.mem_range.mp hi)
      by_cases hlt : (i : ℤ) < A + B
      · have hless := hgroups i hlt
        rw [if_pos hlt, if_pos hlt, if_neg]
        rw [inRange_iff_le_lt hA (by omega)]
        omega
      · rw [if_neg hlt, if_neg hlt, if_pos]
        · omega
        · rw [inRange_iff_le_lt hA (by omega)]
          omega
    rw [seqAdd_map]
    · exact List.map_congr_left hmove
    · intro i hi
      rw [hmove i hi]
      split
      · exact hdiv i
      · exact Int.natCast_nonneg i
  have hdivide : KvCache.seqDiv ((List.range n).map fun i : ℕ => if (i : ℤ) < A + B then
      (i : ℤ) / d else i) (A + B) (A + B + w) d = (List.range n).map fun i : ℕ =>
        if (i : ℤ) < A + B + w then (i : ℤ) / d else i := by
    unfold seqDiv
    rw [List.map_map]
    refine List.map_congr_left fun i _ => ?_
    have hi := Int.natCast_nonneg i
    rw [Function.comp_apply]
    by_cases hlt : (i : ℤ) < A + B
    · have hless := hgroups i hlt
      have hnext : (i : ℤ) < A + B + w := by omega
      rw [if_pos hlt, if_pos hnext, if_neg]
      rw [inRange_iff_le_lt (by omega) (by omega)]
      omega
    · rw [if_neg hlt]
      by_cases hnext : (i : ℤ) < A + B + w
      · rw [if_pos hnext, if_pos, Int.tdiv_eq_ediv_of_nonneg hi]
        rw [inRange_iff_le_lt (by omega) (by omega)]
        omega
      · rw [if_neg hnext, if_neg]
        rw [inRange_iff_le_lt (by omega) (by omega)]
        omega
  have hrest : ∀ i ∈ List.range n, (if inRange (A + B + w) (m + B)
      (if (i : ℤ) < A + B + w then (i : ℤ) / d else i) then
        (if (i : ℤ) < A + B + w then (i : ℤ) / d else i) + (q - B - w)
      else if (i : ℤ) < A + B + w then (i : ℤ) / d else i) =
      if (i : ℤ) < A + B + w then (i : ℤ) / d else i - (B + (w - q)) := by
    intro i hi
    have hin : (i : ℤ) < n := Int.ofNat_lt.mpr (List.mem_range.mp hi)
    by_cases hlt : (i : ℤ) < A + B + w
    · have hless := hwindow i hlt
      rw [if_pos hlt, if_pos hlt, if_neg]
      rw [inRange_iff_le_lt (by omega) (by omega)]
      omega
    · rw [if_neg hlt, if_neg hlt, if_pos]
      · omega
      · rw [inRange_iff_le_lt (by omega) (by omega)]
        omega
  rw [hback, hdivide, seqAdd_map]
  · exact List.map_congr_left hrest
  · intro i hi
    rw [hrest i hi]
    split
    · exact hdiv i
    · omega

/-- The first `k` windows of the tokens are complete, and they are grouped. -/
structure Extended.Grouped (g : GroupParams) (n k : ℕ) (x : Extended) : Prop where
  nPast : x.st.nPast = g.position k n
  gaI : x.gaI = k * (g.gaW / g.gaN)
  cache : x.st.cache = g.entries k n
  complete : (k : ℤ) * g.gaW ≤ n

/-- **A group step** groups one window more. -/
theorem Extended.Grouped.groupStep (h : x.Grouped g n k) (hW : 0 < g.gaW)
    (hfull : ((k + 1 : ℕ) : ℤ) * g.gaW ≤ n) : (x.groupStep g).Grouped g n (k + 1) := by
  obtain ⟨htdiv, hdvd, hq, hqw⟩ := GroupParams.width_eq hW
  obtain ⟨hnPast, hgaI, hcache, hcomplete⟩ := h
  have hpast : x.st.nPast = n - k * (g.gaW - g.gaW / g.gaN) := by
    rw [hnPast, GroupParams.position, if_neg (not_lt.mpr hcomplete)]
  have hib : (g.gaN * x.gaI).tdiv g.gaW = k := by
    have hmul : g.gaN * x.gaI = k * g.gaW := by
      rw [hgaI, mul_left_comm, hdvd]
    rw [hmul, Int.mul_tdiv_cancel _ hW.ne']
  have hbd : g.gaW.tdiv g.gaN * (g.gaN - 1) = g.gaW - g.gaW / g.gaN := by
    rw [htdiv, mul_sub, mul_comm, hdvd, mul_one]
  have hsplit : (k : ℤ) * g.gaW = k * (g.gaW / g.gaN) + k * (g.gaW - g.gaW / g.gaN) := by ring
  have hnext : ((k + 1 : ℕ) : ℤ) * g.gaW =
      k * (g.gaW / g.gaN) + k * (g.gaW - g.gaW / g.gaN) + g.gaW := by
    push_cast
    ring
  have hlt : ∀ j i : ℤ, i < j * g.gaW → i / g.gaN < j * (g.gaW / g.gaN) := by
    intro j i hi
    refine Int.ediv_lt_of_lt_mul g.gaN_pos ?_
    rw [mul_assoc, mul_comm (g.gaW / g.gaN), hdvd]
    exact hi
  refine ⟨?_, ?_, ?_, hfull⟩
  · show x.st.nPast - g.gaW.tdiv g.gaN * (g.gaN - 1) = g.position (k + 1) n
    rw [GroupParams.position, if_neg (not_lt.mpr hfull), hbd, hpast]
    push_cast
    ring
  · show x.gaI + g.gaW.tdiv g.gaN = _
    rw [hgaI, htdiv]
    push_cast
    ring
  · have hgroup := KvCache.group_window (d := g.gaN) (A := k * (g.gaW / g.gaN))
      (B := k * (g.gaW - g.gaW / g.gaN)) (w := g.gaW) (q := g.gaW / g.gaN) (m := x.st.nPast) (n := n)
      g.gaN_pos (by positivity) (mul_nonneg (Int.natCast_nonneg k) (by omega))
      (fun i hi => hlt k i (hsplit ▸ hi)) (fun i hi => ?_) hq.le hqw (hnext ▸ hfull) hpast
    · unfold Extended.groupStep
      dsimp only
      rw [hib, hbd, htdiv, hgaI, hcache, GroupParams.entries]
      unfold GroupParams.position
      rw [hsplit, hgroup]
      refine List.map_congr_left fun i _ => ?_
      rw [GroupParams.position, hnext]
      have hsaved : ((k + 1 : ℕ) : ℤ) * (g.gaW - g.gaW / g.gaN) =
          k * (g.gaW - g.gaW / g.gaN) + (g.gaW - g.gaW / g.gaN) := by
        push_cast
        ring
      rw [hsaved]
    · have hless := hlt (k + 1 : ℕ) i (hnext ▸ hi)
      push_cast at hless
      rw [add_mul, one_mul] at hless
      exact hless

theorem Extended.groupStep_rest (g : GroupParams) (x : Extended) : ∃ c m,
    (x.groupStep g).st = { x.st with cache := c, nPast := m } := ⟨_, _, rfl⟩

/-- What grouping does to the state: the cache and the number of positions change. -/
theorem Extended.groupLoop_rest (g : GroupParams) (fuel : ℕ) (x : Extended) : ∃ c m,
    (groupLoop g fuel x).st = { x.st with cache := c, nPast := m } := by
  induction fuel generalizing x with
  | zero => exact ⟨_, _, rfl⟩
  | succ fuel ih =>
    unfold groupLoop
    split
    · obtain ⟨c, m, h⟩ := ih (x.groupStep g)
      exact ⟨c, m, h⟩
    · exact ⟨_, _, rfl⟩

/-- **The loop** groups the windows that are complete. -/
theorem Extended.Grouped.groupLoop (hW : 0 < g.gaW) {fuel : ℕ} (h : x.Grouped g n k)
    (hfuel : (n : ℤ) - k * g.gaW ≤ fuel) :
    (Extended.groupLoop g fuel x).Grouped g n (n / g.gaW.toNat) := by
  obtain ⟨w, hw⟩ : ∃ w : ℕ, g.gaW = w := ⟨g.gaW.toNat, (Int.toNat_of_nonneg hW.le).symm⟩
  have hgap : ∀ {k : ℕ} {x : Extended}, x.Grouped g n k →
      (x.gaI + g.gaW ≤ x.st.nPast ↔ ((k + 1 : ℕ) : ℤ) * g.gaW ≤ n) := by
    intro k x h
    rw [h.gaI, h.nPast, GroupParams.position, if_neg (not_lt.mpr h.complete)]
    push_cast
    rw [add_mul, one_mul, mul_sub]
    omega
  have hlast : ∀ {k : ℕ}, (k : ℤ) * g.gaW ≤ n → ¬ ((k + 1 : ℕ) : ℤ) * g.gaW ≤ n →
      n / g.gaW.toNat = k := by
    intro k hle hnot
    rw [hw] at hle hnot hW ⊢
    rw [Int.toNat_natCast]
    refine Nat.div_eq_of_lt_le ?_ ?_
    · exact_mod_cast hle
    · exact_mod_cast not_le.mp hnot
  induction fuel generalizing x k with
  | zero =>
    have hnot : ¬ ((k + 1 : ℕ) : ℤ) * g.gaW ≤ n := by
      push_cast at hfuel ⊢
      rw [add_mul, one_mul]
      omega
    rw [hlast h.complete hnot]
    exact h
  | succ fuel ih =>
    unfold Extended.groupLoop
    split
    · rename_i hfull
      rw [hgap h] at hfull
      refine ih (h.groupStep hW hfull) ?_
      push_cast at hfuel ⊢
      rw [add_mul, one_mul]
      omega
    · rename_i hfull
      rw [hgap h] at hfull
      rw [hlast h.complete hfull]
      exact h

theorem Extended.Grouped.group (h : x.Grouped g n k) (hW : 0 < g.gaW) :
    (x.group g).Grouped g n (n / g.gaW.toNat) := by
  refine h.groupLoop hW ?_
  rw [h.gaI, h.nPast, GroupParams.position, if_neg (not_lt.mpr h.complete), mul_sub]
  omega

/-! ## Runs -/

/-- What holds of the loop before an iteration, when `n` tokens have been decoded. -/
structure Extending (g : GroupParams) (p : Params) (n : ℕ) (x : Extended) : Prop where
  done : x.st.Done
  batch : x.st.embd.length ≤ p.nBatch
  grouped : ∃ k, x.Grouped g n k

theorem GroupParams.position_add (hcomplete : (k : ℤ) * g.gaW ≤ n) (i : ℕ) :
    g.position k (n + i) = g.position k n + i := by
  unfold position
  rw [if_neg (by push_cast; omega), if_neg (not_lt.mpr hcomplete)]
  push_cast
  ring

/-- A batch goes behind the entries. -/
theorem GroupParams.entries_put (hcomplete : (k : ℤ) * g.gaW ≤ n) (m : ℕ) :
    (g.entries k n).put (g.position k n) m = g.entries k (n + m) := by
  unfold entries KvCache.put
  rw [List.range_add, List.map_append, List.map_map]
  refine congrArg _ (List.map_congr_left fun i _ => ?_)
  exact (position_add hcomplete i).symm

/-- The pending tokens are decoded behind the ones before them. -/
theorem Extending.predict_ok (h : Extending g p n x) (hW : 0 < g.gaW) (hctx : 5 ≤ p.nCtx)
    (inp : Input) : g.Placed n (x.predict g p inp).1 ∧
      ∀ x' ∈ (x.predict g p inp).2,
        Extending g p (n + decodedCount (x.predict g p inp).1)
          { x' with st := { x'.st with embd := [] } } := by
  obtain ⟨k, hgrouped⟩ := h.grouped
  by_cases hnil : x.st.embd = []
  · rw [Extended.predict, if_pos hnil]
    refine ⟨trivial, ?_⟩
    rintro x' ⟨⟩
    exact ⟨h.done, Nat.zero_le _, k, hgrouped.nPast, hgrouped.gaI, hgrouped.cache,
      hgrouped.complete⟩
  · rw [Extended.predict, if_neg hnil]
    have htruncated : Extended.Grouped g n k { x with st := x.st.truncate p } :=
      ⟨hgrouped.nPast, hgrouped.gaI, hgrouped.cache, hgrouped.complete⟩
    have hplaced := htruncated.group hW
    obtain ⟨c, m, hrest⟩ := Extended.groupLoop_rest g _ { x with st := x.st.truncate p }
    extract_lets y r
    replace hrest : y.st = { x.st.truncate p with cache := c, nPast := m } := hrest
    have hembd : y.st.embd = x.st.embd.take (p.nCtx - 4).toNat := by
      rw [hrest]
      rfl
    have hne : y.st.embd ≠ [] := by
      rw [hembd]
      exact State.truncate_ne_nil hctx hnil
    have hbatch : y.st.embd.length ≤ p.nBatch := by
      rw [hembd]
      exact (List.length_take_le' _ _).trans h.batch
    have hdone : y.st.Done := by
      rw [hrest]
      exact h.done
    have hsome : y.st.matched < y.st.embd.length := by
      rw [State.matched_of_done hdone]
      exact List.length_pos_iff.mpr hne
    have hfeed : r = _ := State.feed_of_done hdone hne hbatch
    rw [hfeed]
    refine ⟨⟨hplaced.nPast, hplaced.cache, trivial⟩, fun x' hx' => ?_⟩
    obtain ⟨st', hst', rfl⟩ := Option.map_eq_some_iff.mp hx'
    obtain ⟨_, hst'⟩ := Option.mem_ite_none_left.mp hst'
    obtain ⟨ts, j, hrecord, hdone'⟩ := State.decoded_record hsome
    rw [hrecord] at hst'
    cases hst'
    have hcount : decodedCount [.decode y.st.nPast y.st.embd.length y.st.cache] =
        y.st.embd.length := rfl
    rw [hcount]
    refine ⟨hdone', Nat.zero_le _, n / g.gaW.toNat, ?_, hplaced.gaI, ?_, ?_⟩
    · show y.st.nPast + (y.st.embd.length : ℤ) = _
      rw [GroupParams.position_add hplaced.complete, ← hplaced.nPast]
    · show y.st.cache.put _ _ = _
      rw [State.matched_of_done hdone, Nat.sub_zero, Nat.cast_zero, add_zero, hplaced.cache,
        hplaced.nPast, GroupParams.entries_put hplaced.complete]
    · exact hplaced.complete.trans (Int.ofNat_le.mpr (Nat.le_add_right _ _))

/-- What is pending next fits into a batch. -/
theorem Extending.next (h : Extending g p n { x with st := { x.st with embd := [] } }) :
    Extending g p n { x with st := (x.st.next p inp).append inp } := by
  obtain ⟨embd, m, embdInp, hnext, hbatch⟩ := @State.next_eq p inp x.st
  obtain ⟨hdone, _, k, hgrouped⟩ := h
  rw [hnext]
  exact ⟨hdone, hbatch, k, hgrouped.nPast, hgrouped.gaI, hgrouped.cache, hgrouped.complete⟩

/-- The invariant of a run. -/
structure ExtendedWorld.Inv (g : GroupParams) (p : Params) (w : ExtendedWorld) : Prop where
  placed : g.Placed 0 w.acts
  state : ∀ x ∈ w.state, Extending g p (decodedCount w.acts) x

theorem ExtendedWorld.Inv.step {w : ExtendedWorld} (h : w.Inv g p) (hW : 0 < g.gaW)
    (hctx : 5 ≤ p.nCtx) (inp : Input) : (w.step g p inp).Inv g p := by
  obtain ⟨state, acts⟩ := w
  cases state with
  | none => exact h
  | some x =>
    obtain ⟨hplaced, hnext⟩ := (h.state x rfl).predict_ok hW hctx inp
    refine ⟨h.placed.append ?_, fun x' hx' => ?_⟩
    · rw [Nat.zero_add]
      exact hplaced
    · obtain ⟨x'', hx'', rfl⟩ := Option.map_eq_some_iff.mp hx'
      show Extending g p (decodedCount (acts ++ (x.predict g p inp).1)) _
      rw [decodedCount_append]
      exact (hnext x'' hx'').next

theorem ExtendedWorld.init_inv (hsession : p.session = []) : (ExtendedWorld.init p).Inv g p := by
  refine ⟨trivial, fun x hx => ?_⟩
  obtain ⟨st, hst, rfl⟩ := Option.map_eq_some_iff.mp hx
  obtain ⟨E, hE, rfl⟩ := Option.map_eq_some_iff.mp hst
  have hcomplete : ((0 : ℕ) : ℤ) * g.gaW ≤ (0 : ℕ) := by simp
  refine ⟨?_, Nat.zero_le _, 0, ?_, ?_, ?_, hcomplete⟩
  · show (p.resized E).length ≤ 0
    rw [Params.resized_of_nil hsession]
    exact le_rfl
  · show (0 : ℤ) = g.position 0 0
    rw [GroupParams.position, if_neg (not_lt.mpr hcomplete)]
    simp
  · show (0 : ℤ) = _
    simp
  · show p.restored E = []
    unfold Params.restored
    rw [hsession, if_pos rfl]
    rfl

theorem ExtendedWorld.run_inv {w : ExtendedWorld} (h : w.Inv g p) (hW : 0 < g.gaW)
    (hctx : 5 ≤ p.nCtx) (inputs : List Input) : (inputs.foldl (step g p) w).Inv g p := by
  induction inputs generalizing w with
  | nil => exact h
  | cons inp inputs ih => exact ih (h.step hW hctx inp)

/-- **Self-extend places every batch right.**  Whenever a batch is decoded, the complete windows
of the tokens before it are grouped, and the other tokens and the batch follow without a gap. -/
theorem selfExtend_placed (g : GroupParams) (p : Params) (hW : 0 < g.gaW) (hsession : p.session = [])
    (inputs : List Input) : g.Placed 0 (inputs.foldl (ExtendedWorld.step g p) (.init p)).acts := by
  cases hE : p.prompt with
  | none =>
    -- the loop is not reached
    have hstart : ExtendedWorld.init p = ⟨none, []⟩ := by
      rw [ExtendedWorld.init, Params.start, hE]
      rfl
    have hidle : inputs.foldl (ExtendedWorld.step g p) ⟨none, []⟩ = ⟨none, []⟩ := by
      induction inputs with
      | nil => rfl
      | cons inp inputs ih => exact ih
    rw [hstart, hidle]
    trivial
  | some E =>
    have hinv := ExtendedWorld.run_inv (g := g) (ExtendedWorld.init_inv hsession) hW
      (Params.five_le_nCtx hE) inputs
    exact hinv.placed

end Positions

/-! ### Groups of four -/

/-- Windows of eight tokens, of which four share a position. -/
def groupsOfFour : GroupParams where
  gaN := 4
  gaW := 8
  gaN_pos := by decide
  gaN_ne_one := by decide
  dvd := by decide

/-- A prompt of twenty tokens, decoded eleven at a time. -/
def twentyTokens : Params where
  nCtx := 64
  nBatch := 11
  nKeep := 0
  nPredict := -1
  ctxShift := true
  addBos := false
  bos := 1
  tokens := List.replicate 20 7
  session := []
  promptCache := false
  decoderStart := none
  nBatch_pos := by decide

theorem selfExtend_placed_twentyTokens :
    ((List.replicate 4 (sample 9)).foldl (ExtendedWorld.step groupsOfFour twentyTokens)
        (.init twentyTokens)).acts =
      [.decode 0 11 [],
        .decode 5 9 [0, 0, 0, 0, 1, 1, 1, 1, 2, 3, 4],
        .decode 8 1 [0, 0, 0, 0, 1, 1, 1, 1, 2, 2, 2, 2, 3, 3, 3, 3, 4, 5, 6, 7]] ∧
    groupsOfFour.Placed 0 ((List.replicate 4 (sample 9)).foldl
      (ExtendedWorld.step groupsOfFour twentyTokens) (.init twentyTokens)).acts :=
  ⟨by decide, selfExtend_placed groupsOfFour twentyTokens (by decide) rfl _⟩

/-- The prompt goes on behind the tokens of a session file. -/
def restoredTokens : Params :=
  { twentyTokens with session := List.replicate 20 7, tokens := List.replicate 20 7 ++ [8, 8, 8] }

/-- With a session file a window is grouped before all of the session was reused.  The entries
behind it are not moved, and tokens are decoded at positions that are taken. -/
theorem decoded_where_restored : ∃ nPast nEval cache,
    .decode nPast nEval cache ∈ ((List.replicate 3 (sample 9)).foldl
      (ExtendedWorld.step groupsOfFour restoredTokens) (.init restoredTokens)).acts ∧
      nPast ∈ cache :=
  ⟨14, 2, [0, 0, 0, 0, 1, 1, 1, 1, 2, 3, 4, 11, 12, 13, 14, 15, 16, 17, 18, 19], by decide, by decide⟩

end Lac
end IntegratedCLI
