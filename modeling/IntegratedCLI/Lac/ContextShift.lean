import IntegratedCLI.Lib.Run
import IntegratedCLI.Lac.Prompt

/-!
# The context and its shift

The loop is to call `llama_decode` only where the tokens fit in the context.  Where the
pending tokens would fill it, the context is shifted once, and half of what is behind the
first `n_keep` entries goes.  That need not be enough: with many tokens to keep and many
tokens pending there is no room for these after the shift either, and nothing checks it.

## Main results

* `Generating.predict_ok` : a shift keeps the first positions filled, and the tokens fit
  if the shift makes enough room.
* `fits` : in a run whose shifts make enough room every call fits.
* `not_fits_longPrompt` : a prompt that is kept, and an input as long.
-/

namespace IntegratedCLI
namespace Lac

open Run

/-! ## What is to hold -/

/-- A shift leaves the first positions filled, and a batch fits in the context. -/
def Act.Fits (nCtx : ℤ) : Act → Prop
  | .shift nPast cache => 0 ≤ nPast ∧ Filled cache nPast
  | .reuse nPast _ => 0 ≤ nPast
  | .decode nPast nEval _ => 0 ≤ nPast ∧ nPast + nEval ≤ nCtx

def World.Fits (p : Params) (w : World) : Prop :=
  (∀ a ∈ w.acts, a.Fits p.nCtx) ∧ ∀ st ∈ w.state, 0 ≤ st.nPast

/-- If the pending tokens fill the context, what a shift discards makes enough room for
them.  Where there is an encoder, the prompt is not in the cache, and no more may be kept
than is there. -/
def State.Roomy (p : Params) (st : State) : Prop :=
  st.embd ≠ [] → (st.truncate p).Full p →
    st.nPast - st.nDiscard + (st.truncate p).embd.length ≤ p.nCtx ∧
      (p.decoderStart.isSome → st.nKeep ≤ st.nPast + 1)

instance (p : Params) (st : State) : Decidable (st.Roomy p) :=
  inferInstanceAs (Decidable (_ → _ → _ ∧ _))

def World.Roomy (p : Params) (w : World) : Prop := ∀ st ∈ w.state, st.Roomy p

instance (p : Params) (w : World) : Decidable (w.Roomy p) :=
  inferInstanceAs (Decidable (∀ st ∈ w.state, st.Roomy p))

/-! ## A shift -/

theorem Filled.shift {c : KvCache} {n k d : ℤ} (h : Filled c n) (hk : 0 ≤ k) (hd : 0 ≤ d)
    (hle : d = 0 ∨ k + d ≤ n) :
    Filled ((c.seqRm k (k + d)).seqAdd (k + d) n (-d)) (n - d) := by
  intro q
  have hmem : ∀ r, r ∈ c.seqRm k (k + d) ↔ (0 ≤ r ∧ r < n) ∧ ¬ (k ≤ r ∧ r < k + d) := by
    intro r
    rw [KvCache.seqRm, List.mem_filter, h r]
    simp [KvCache.inRange]
    omega
  simp only [KvCache.seqAdd, List.mem_filter, List.mem_map, hmem, decide_eq_true_eq]
  constructor
  · rintro ⟨⟨r, ⟨hr, hout⟩, rfl⟩, hpos⟩
    refine ⟨hpos, ?_⟩
    simp [KvCache.inRange]
    split_ifs with hin
    · omega
    · omega
  · rintro ⟨hq, hlt⟩
    refine ⟨?_, hq⟩
    by_cases hlow : q < k
    · refine ⟨q, by omega, ?_⟩
      simp [KvCache.inRange]
      omega
    · refine ⟨q + d, by omega, ?_⟩
      simp [KvCache.inRange]
      omega

theorem State.nDiscard_bounds {st : State} (h : st.nKeep ≤ st.nPast + 1) :
    0 ≤ st.nDiscard ∧ (st.nDiscard = 0 ∨ st.nKeep + st.nDiscard ≤ st.nPast) ∧
      st.nKeep ≤ st.nPast - st.nDiscard + 1 := by
  unfold State.nDiscard
  rcases lt_or_ge (st.nPast - st.nKeep) 0 with hneg | hpos
  · have hone : st.nPast - st.nKeep = -1 := by omega
    rw [hone]
    have hzero : (-1 : ℤ).tdiv 2 = 0 := rfl
    omega
  · rw [Int.tdiv_eq_ediv_of_nonneg hpos]
    omega

/-! ## After the prompt -/

/-- The session is used up, and the first positions are filled. -/
structure Generating (p : Params) (E : List Token) (st : State) : Prop where
  done : st.Done
  nonneg : 0 ≤ st.nPast
  nPast_le : st.nPast ≤ p.nCtx
  cache : Filled st.cache st.nPast
  nKeep : st.nKeep = p.kept E
  nKeep_le : p.decoderStart = none → st.nKeep ≤ st.nPast + 1
  batch : st.embd.length ≤ p.nBatch

namespace Generating

variable {p : Params} {E : List Token} {st : State} {inp : Input}

/-- Tokens that fit are decoded. -/
theorem feed_ok (h : Generating p E st) (inp : Input) (hne : st.embd ≠ [])
    (hfit : st.nPast + st.embd.length ≤ p.nCtx) :
    (∀ a ∈ (st.feed p inp).1, a.Fits p.nCtx) ∧
      ∀ st' ∈ (st.feed p inp).2, Generating p E { st' with embd := [] } := by
  have hnonneg := h.nonneg
  rw [State.feed_of_done h.done hne h.batch]
  refine ⟨fun a ha => ?_, fun st' hst' => ?_⟩
  · rw [List.mem_singleton.mp ha]
    exact ⟨hnonneg, hfit⟩
  · obtain ⟨_, hst'⟩ := Option.mem_ite_none_left.mp hst'
    cases hst'
    have hsome : st.matched < st.embd.length := by
      rw [State.matched_of_done h.done]
      exact List.length_pos_iff.mpr hne
    obtain ⟨ts, m, hrecord, hdone⟩ := State.decoded_record hsome
    rw [hrecord]
    have hcache : Filled (st.cache.put (st.nPast + st.matched) (st.embd.length - st.matched))
        (st.nPast + st.embd.length) := by
      rw [State.matched_of_done h.done]
      have hput := h.cache.put hnonneg le_rfl (k := st.embd.length) (by omega)
      simpa using hput
    refine ⟨hdone, ?_, hfit, hcache, h.nKeep, fun hdec => ?_, Nat.zero_le _⟩
    · show 0 ≤ st.nPast + (st.embd.length : ℤ)
      omega
    · have hkeep := h.nKeep_le hdec
      show st.nKeep ≤ st.nPast + (st.embd.length : ℤ) + 1
      omega

theorem truncate (h : Generating p E st) : Generating p E (st.truncate p) :=
  ⟨h.done, h.nonneg, h.nPast_le, h.cache, h.nKeep, h.nKeep_le,
    (List.length_take_le' _ _).trans h.batch⟩

/-- A shift keeps the first positions filled. -/
theorem shift (h : Generating p E st) (hkeep : st.nKeep ≤ st.nPast + 1) :
    Generating p E st.shift := by
  obtain ⟨hd, hle, hkeep'⟩ := State.nDiscard_bounds hkeep
  have hpos : 0 ≤ st.nKeep := by
    rw [h.nKeep]
    exact Params.kept_nonneg
  have hnonneg := h.nonneg
  have hle' := h.nPast_le
  refine ⟨h.done, ?_, ?_, h.cache.shift hpos hd hle, h.nKeep, fun _ => hkeep', h.batch⟩
  · show 0 ≤ st.nPast - st.nDiscard
    omega
  · show st.nPast - st.nDiscard ≤ p.nCtx
    omega

/-- If a shift makes enough room, all calls fit. -/
theorem predict_ok (h : Generating p E st) (inp : Input) (hctx : 5 ≤ p.nCtx) (hroomy : st.Roomy p) :
    (∀ a ∈ (st.predict p inp).1, a.Fits p.nCtx) ∧
      ∀ st' ∈ (st.predict p inp).2, Generating p E { st' with embd := [] } := by
  by_cases hnil : st.embd = []
  · rw [State.predict_nil hnil]
    refine ⟨by simp, fun st' hst' => ?_⟩
    cases hst'
    exact ⟨h.done, h.nonneg, h.nPast_le, h.cache, h.nKeep, h.nKeep_le, Nat.zero_le _⟩
  have hne := State.truncate_ne_nil hctx hnil
  rw [State.predict, if_neg hnil]
  dsimp only
  split_ifs with hfull hctx hpred
  · exact ⟨by simp, by simp⟩
  · exact ⟨by simp, by simp⟩
  · obtain ⟨hroom, henc⟩ := hroomy hnil hfull
    have hkeep : st.nKeep ≤ st.nPast + 1 := by
      cases hdec : p.decoderStart with
      | none => exact h.nKeep_le hdec
      | some t => exact henc (by rw [hdec]; rfl)
    have hshift := h.truncate.shift hkeep
    have hfeed := hshift.feed_ok inp hne hroom
    refine ⟨fun a ha => ?_, hfeed.2⟩
    rcases List.mem_cons.mp ha with rfl | ha
    · exact ⟨hshift.nonneg, hshift.cache⟩
    · exact hfeed.1 a ha
  · exact h.truncate.feed_ok inp hne (Int.le_of_lt (Int.not_le.mp hfull))

/-- What is pending next fits into a batch. -/
theorem next (h : Generating p E { st with embd := [] }) :
    Generating p E ((st.next p inp).append inp) := by
  obtain ⟨embd, n, embdInp, hnext, hbatch⟩ := @State.next_eq p inp st
  rw [hnext]
  exact ⟨h.done, h.nonneg, h.nPast_le, h.cache, h.nKeep, h.nKeep_le, hbatch⟩

end Generating

/-! ## The prompt -/

namespace Prompting

variable {p : Params} {E : List Token} {n : ℕ} {st : State} {inp : Input}

/-- There is room for the prompt. -/
theorem predict_ok (h : Prompting p E n st) (inp : Input) (hE : p.prompt = some E)
    (hdec : p.decoderStart = none ∨ p.session = []) :
    (∀ a ∈ (st.predict p inp).1, a.Fits p.nCtx) ∧
      ∀ st' ∈ (st.predict p inp).2, ∃ n', Prompting p E n' { st' with embd := [] } := by
  by_cases hnil : st.embd = []
  · rw [State.predict_nil hnil]
    refine ⟨by simp, fun st' hst' => ⟨n, ?_⟩⟩
    cases hst'
    obtain ⟨nPast, embd, embdInp⟩ := st
    cases hnil
    exact h
  have hL := nMatching_le hdec (E := E)
  have hnPast := h.nPast
  have hreuse : ∀ ts, ∀ a ∈ reuses st.nPast ts, a.Fits p.nCtx := by
    intro ts a ha
    obtain ⟨i, t, -, rfl⟩ := mem_reuses ha
    show 0 ≤ st.nPast + i
    omega
  rw [h.predict_eq hE hnil]
  rcases State.matched_le.lt_or_eq with hsome | hall
  · rw [State.feed_of_some hsome h.batch]
    refine ⟨fun a ha => ?_, fun st' hst' => ⟨n + st.embd.length, ?_⟩⟩
    · rcases List.mem_append.mp ha with ha | ha
      · exact hreuse _ a ha
      · rw [List.mem_singleton.mp ha]
        have hlen := h.length_le hE
        exact ⟨by omega, by omega⟩
    · have hdecoded := h.decoded hL hsome
      dsimp only at hst'
      split_ifs at hst'
      · cases hst'
      · cases hst'
        exact hdecoded
  · rw [State.feed_of_all hall]
    refine ⟨hreuse _, fun st' hst' => ⟨n + st.embd.length, ?_⟩⟩
    cases hst'
    obtain ⟨hreused, hnil'⟩ := h.reused hL hnil hall
    rw [← hnil']
    exact hreused

/-- When the prompt has been fed, the session is used up. -/
theorem generating (h : Prompting p E n { st with embd := [] }) (hE : p.prompt = some E)
    (hdec : p.decoderStart = none ∨ p.session = []) (hall : (p.fed E).length ≤ st.nConsumed) :
    Generating p E { st with embd := [] } := by
  have hcount : n = st.nConsumed := h.count
  have hle : st.nConsumed ≤ (p.fed E).length := h.nConsumed_le
  have hnPast : st.nPast = n := h.nPast
  have hlen := Params.length_fed_le hE
  have hm := Params.nMatching_le_length_fed (E := E) hdec
  have hdone : st.Done := by
    rcases h.session with hdone | ⟨htokens, hconsumed, hmatching⟩
    · exact hdone
    · have hresized := Params.length_resized_le (E := E) hdec (by omega)
      have htokens' : st.sessionTokens = p.resized E := htokens
      have hconsumed' : st.nSessionConsumed = n := hconsumed
      rw [State.Done, htokens', hconsumed']
      omega
  have hcache : Filled st.cache st.nPast := by
    have hfilled := h.cache
    rw [max_eq_left (by omega), ← hnPast] at hfilled
    exact hfilled
  refine ⟨hdone, ?_, ?_, hcache, h.nKeep, fun hnone => ?_, Nat.zero_le _⟩
  · dsimp only
    omega
  · dsimp only
    omega
  · have hkept := Params.kept_le (p := p) (E := E)
    have hkeep : st.nKeep = p.kept E := h.nKeep
    rw [Params.fed_of_none hnone] at hall
    dsimp only
    omega

/-- The next tokens are those of the prompt, or the prompt has been fed. -/
theorem next_ok (h : Prompting p E n { st with embd := [] }) (hE : p.prompt = some E)
    (hdec : p.decoderStart = none ∨ p.session = []) :
    (∃ n', Prompting p E n' ((st.next p inp).append inp)) ∨
      Generating p E ((st.next p inp).append inp) := by
  rcases Nat.lt_or_ge st.nConsumed (p.fed E).length with hlt | hall
  · exact .inl ⟨n, (h.next inp hlt).1.append⟩
  · exact .inr (h.generating hE hdec hall).next

end Prompting

/-! ## Runs -/

/-- What holds of the loop before an iteration. -/
structure Inv (p : Params) (E : List Token) (w : World) : Prop where
  acts : ∀ a ∈ w.acts, a.Fits p.nCtx
  state : ∀ st ∈ w.state, (∃ n, Prompting p E n st) ∨ Generating p E st

variable {p : Params} {E : List Token} {st : State} {w : World} {inp : Input}

theorem Inv.fits (h : Inv p E w) : w.Fits p := by
  refine ⟨h.acts, fun st hst => ?_⟩
  rcases h.state st hst with ⟨n, hprompt⟩ | hgen
  · rw [hprompt.nPast]
    exact Int.natCast_nonneg n
  · exact hgen.nonneg

/-- What an iteration keeps. -/
theorem Inv.step (hE : p.prompt = some E) (hdec : p.decoderStart = none ∨ p.session = [])
    (h : Inv p E w) (hroomy : w.Roomy p) : Inv p E (w.step p inp) := by
  obtain ⟨state, acts⟩ := w
  cases state with
  | none => exact h
  | some st =>
    have hpredict : (∀ a ∈ (st.predict p inp).1, a.Fits p.nCtx) ∧
        ∀ st' ∈ (st.predict p inp).2, (∃ n, Prompting p E n { st' with embd := [] }) ∨
          Generating p E { st' with embd := [] } := by
      rcases h.state st rfl with ⟨n, hprompt⟩ | hgen
      · have hok := hprompt.predict_ok inp hE hdec
        exact ⟨hok.1, fun st' hst' => .inl (hok.2 st' hst')⟩
      · have hok := hgen.predict_ok inp (Params.five_le_nCtx hE) (hroomy st rfl)
        exact ⟨hok.1, fun st' hst' => .inr (hok.2 st' hst')⟩
    refine ⟨fun a ha => ?_, fun st'' hst'' => ?_⟩
    · rcases List.mem_append.mp ha with ha | ha
      · exact h.acts a ha
      · exact hpredict.1 a ha
    · obtain ⟨st', hst', rfl⟩ := Option.map_eq_some_iff.mp hst''
      rcases hpredict.2 st' hst' with ⟨n, hprompt⟩ | hgen
      · exact hprompt.next_ok hE hdec
      · exact .inr hgen.next

/-- A shift that discards a negative number leaves a gap. -/
theorem State.not_filled_shift (st : State) (hkeep : st.nPast + 1 < st.nKeep) (hpos : 0 ≤ st.nPast)
    (hcache : Filled st.cache st.nPast) : ¬ Filled st.shift.cache st.shift.nPast := by
  have hd : st.nDiscard < 0 ∧ st.nPast < st.nKeep + st.nDiscard := by
    have hneg : st.nPast - st.nKeep = -(st.nKeep - st.nPast) := by omega
    rw [State.nDiscard, hneg, Int.neg_tdiv, Int.tdiv_eq_ediv_of_nonneg (by omega)]
    omega
  intro hfilled
  have hmem : st.nPast ∈ st.shift.cache := (hfilled _).mpr ⟨hpos, by
    show st.nPast < st.nPast - st.nDiscard
    omega⟩
  unfold State.shift KvCache.seqAdd KvCache.seqRm at hmem
  simp only [List.mem_filter, List.mem_map] at hmem
  obtain ⟨⟨r, ⟨hr, -⟩, hmove⟩, -⟩ := hmem
  have hlt := (hcache r).mp hr
  have hout : KvCache.inRange (st.nKeep + st.nDiscard) st.nPast r = false := by
    simp [KvCache.inRange]
    omega
  rw [hout] at hmove
  simp at hmove
  omega

/-- A call does not fit if a shift does not make enough room. -/
theorem Inv.not_fits (hE : p.prompt = some E) (hshift : p.ctxShift = true)
    (hpred : p.nPredict ≠ -2) (h : Inv p E w) (hroomy : ¬ w.Roomy p) :
    ¬ (w.step p inp).Fits p := by
  obtain ⟨state, acts⟩ := w
  unfold World.Roomy State.Roomy at hroomy
  push Not at hroomy
  obtain ⟨st, hst, hne, hfull, hbad⟩ := hroomy
  cases hst
  rcases h.state st rfl with ⟨n, hprompt⟩ | hgen
  · have hlen := hprompt.length_le hE
    rw [State.truncate_eq (by omega)] at hfull
    exact absurd hfull (hprompt.not_full hE)
  · rintro ⟨hacts, -⟩
    have hin : ∀ a ∈ (st.predict p inp).1, a.Fits p.nCtx := fun a ha =>
      hacts a (List.mem_append.mpr (.inr ha))
    rw [State.predict, if_neg hne] at hin
    dsimp only at hin
    rw [if_pos hfull, if_neg (by simp [hshift]), if_neg hpred] at hin
    by_cases hkeep : st.nKeep ≤ st.nPast + 1
    · have hembd := State.truncate_ne_nil (Params.five_le_nCtx hE) hne
      have hfeed := @State.feed_of_done p inp (st.truncate p).shift
        hgen.done hembd (hgen.truncate.batch)
      have hfits := hin (.decode (st.truncate p).shift.nPast (st.truncate p).shift.embd.length
        (st.truncate p).shift.cache) (List.mem_cons_of_mem _ (by rw [hfeed]; exact List.mem_singleton_self _))
      have hroom : (st.truncate p).shift.nPast + (st.truncate p).shift.embd.length ≤ p.nCtx := hfits.2
      exact absurd hkeep (Int.not_le.mpr (hbad hroom).2)
    · have hfits := hin _ List.mem_cons_self
      exact State.not_filled_shift (st.truncate p) (Int.not_le.mp hkeep) hgen.nonneg
        hgen.cache hfits.2

/-- **The context does not overflow** in a run exactly if its shifts make enough room. -/
theorem fits_iff (h : p.start = some st) (hdec : p.decoderStart = none ∨ p.session = [])
    (hshift : p.ctxShift = true) (hpred : p.nPredict ≠ -2) (inputs : List Input) :
    Throughout (World.step p) (World.Fits p) ⟨some st, []⟩ inputs ↔
      Along (World.step p) (fun w _ => w.Roomy p) ⟨some st, []⟩ inputs := by
  obtain ⟨E, hE, -⟩ := Option.map_eq_some_iff.mp h
  have hstart : Inv p E ⟨some st, []⟩ := by
    refine ⟨by simp, fun st' hst' => ?_⟩
    cases hst'
    exact .inl ⟨0, (Params.prompting_start hE h).1⟩
  exact throughout_iff_along_of_inv (fun w _ hw hroom => hw.step hE hdec hroom)
    (fun w hw => hw.fits) (fun w _ hw hroom => hw.not_fits hE hshift hpred hroom) hstart

/-! ## Two runs -/

def shortPrompt : Params :=
  { nCtx := 32, nBatch := 8, nKeep := 4, nPredict := -1, ctxShift := true, addBos := true, bos := 1
    tokens := List.replicate 10 7, session := [], promptCache := false, decoderStart := none
    nBatch_pos := by decide }

def shortPromptStart : State :=
  ⟨0, [], List.replicate 10 7, 0, [], 0, false, 5, []⟩

/-- The context is shifted twice. -/
theorem fits_shortPrompt :
    Throughout (World.step shortPrompt) (World.Fits shortPrompt) ⟨some shortPromptStart, []⟩
      (List.replicate 40 (sample 5)) :=
  (fits_iff (by decide) (.inl rfl) rfl (by decide) _).mpr (by decide +kernel)

/-- The prompt has more than half of the tokens the context has room for, and all of them
are kept. -/
def longPrompt : Params :=
  { nCtx := 4096, nBatch := 2048, nKeep := -1, nPredict := -1, ctxShift := true, addBos := true
    bos := 1, tokens := List.replicate 2200 7, session := [], promptCache := false
    decoderStart := none, nBatch_pos := by decide }

/-- The prompt is taken in two batches, and then what the user has typed. -/
def longInput : List Input := [turn [], turn (List.replicate 2000 8), turn [], turn []]

/-- A batch does not fit. -/
def Act.overruns (nCtx : ℤ) : Act → Bool
  | .decode nPast nEval _ => nCtx < nPast + nEval
  | _ => false

theorem Act.not_fits {nCtx : ℤ} {a : Act} (h : a.overruns nCtx = true) : ¬ a.Fits nCtx := by
  cases a with
  | decode nPast nEval c => exact fun hfits => Int.not_lt.mpr hfits.2 (of_decide_eq_true h)
  | shift nPast c => cases h
  | reuse nPast t => cases h

set_option maxRecDepth 8000 in
/-- After a prompt that is kept, a shift discards nothing, and the input of the user does
not fit. -/
theorem not_fits_longPrompt : ∃ st, longPrompt.start = some st ∧
    ¬ Throughout (World.step longPrompt) (World.Fits longPrompt) ⟨some st, []⟩ longInput := by
  obtain ⟨st, hst⟩ := Option.isSome_iff_exists.mp
    (show longPrompt.start.isSome = true by decide +kernel)
  have hover : longPrompt.start.elim false (fun st =>
      (longInput.foldl (World.step longPrompt) ⟨some st, []⟩).acts.any
        (Act.overruns longPrompt.nCtx)) = true := by decide +kernel
  rw [hst] at hover
  obtain ⟨a, ha, hover⟩ := List.any_eq_true.mp hover
  exact ⟨st, hst, fun h => Act.not_fits hover (h.last.1 a ha)⟩

end Lac
end IntegratedCLI
