import IntegratedCLI.Lac.Generation

/-!
# Feeding the prompt

Until the prompt is used up, the tokens that are fed or pending are its first ones, and
there is room for them: the prompt is shorter than the context.  The first tokens that the
session has as well are not decoded, and what the session left in the cache is at the
positions below `nMatching`.

## Main results

* `Prompting.predict_ok` : what feeding the pending tokens of the prompt does.
* `Prompting.next` : what is pending then.
-/

namespace IntegratedCLI
namespace Lac

/-! ## What the loop begins with -/

/-- There is an entry at every position below a number, and at no other one. -/
def Filled (c : KvCache) (n : ℤ) : Prop := ∀ q, q ∈ c ↔ 0 ≤ q ∧ q < n

theorem Filled.put {c : KvCache} {n pos : ℤ} {k : ℕ} (h : Filled c n) (hpos : 0 ≤ pos)
    (hle : pos ≤ n) (hn : n ≤ pos + k) : Filled (c.put pos k) (pos + k) := by
  intro q
  rw [KvCache.mem_put, h q]
  omega

namespace Params

variable {p : Params} {E : List Token}

theorem prompt_eq_some (h : p.prompt = some E) : E ≠ [] ∧ (E.length : ℤ) ≤ p.nCtx - 4 := by
  unfold prompt at h
  dsimp only at h
  generalize (if p.tokens = [] ∧ p.addBos then [p.bos] else p.tokens) = ts at h
  split_ifs at h with hbad
  obtain rfl : ts = E := Option.some.inj h
  push Not at hbad
  exact ⟨hbad.1, hbad.2⟩

/-- A context that is too small for a token is not used. -/
theorem five_le_nCtx (h : p.prompt = some E) : 5 ≤ p.nCtx := by
  have hE := prompt_eq_some h
  have hpos := List.length_pos_iff.mpr hE.1
  omega

theorem length_fed_le (h : p.prompt = some E) : ((p.fed E).length : ℤ) ≤ p.nCtx - 4 := by
  have hE := prompt_eq_some h
  have hpos := List.length_pos_iff.mpr hE.1
  unfold fed
  cases p.decoderStart with
  | none => exact hE.2
  | some t =>
    rw [List.length_singleton]
    omega

theorem kept_nonneg : 0 ≤ p.kept E := by
  unfold kept
  split_ifs with h
  · omega
  · omega

theorem kept_le : p.kept E ≤ E.length + 1 := by
  have hbos : p.addBos.toNat ≤ 1 := p.addBos.toNat_le
  unfold kept
  split_ifs with h
  · omega
  · omega

theorem fed_of_none (h : p.decoderStart = none) : p.fed E = E := by rw [fed, h]

theorem resized_of_nil (h : p.session = []) : p.resized E = [] := by
  unfold resized
  rw [h, List.take_nil, ite_self]

/-- A session that goes on behind the prompt does not match all of it. -/
theorem length_resized_le (hdec : p.decoderStart = none ∨ p.session = [])
    (h : (p.fed E).length ≤ nMatching (p.resized E) (p.fed E)) :
    (p.resized E).length ≤ (p.fed E).length := by
  rcases hdec with hdec | hdec
  · rw [fed_of_none hdec] at h ⊢
    unfold resized at h ⊢
    split_ifs at h ⊢ with hlong
    · exact (List.length_take_le _ _).trans (Nat.sub_le _ _)
    · have hright : nMatching p.session E ≤ E.length := nMatching_le_right
      by_contra hlt
      exact hlong ⟨Nat.le_antisymm hright h, Nat.lt_of_not_le hlt⟩
  · rw [resized_of_nil hdec]
    exact Nat.zero_le _

theorem nMatching_le_length_fed (hdec : p.decoderStart = none ∨ p.session = []) :
    nMatching p.session E ≤ (p.fed E).length := by
  rcases hdec with hdec | hdec
  · rw [fed_of_none hdec]
    exact nMatching_le_right
  · rw [hdec, nMatching_nil_left]
    exact Nat.zero_le _

theorem resized_prefix : p.resized E <+: p.session := by
  unfold resized
  split_ifs
  · exact List.take_prefix _ _
  · exact List.prefix_refl _

theorem filled_restored : Filled (p.restored E) (nMatching p.session E) := by
  have hput : Filled (KvCache.put [] 0 p.session.length) p.session.length := by
    intro q
    rw [KvCache.mem_put]
    simp
  unfold restored
  dsimp only
  split_ifs with hnil
  · rw [hnil, nMatching_nil_left]
    simpa [hnil] using hput
  · intro q
    have hle : nMatching p.session E ≤ p.session.length := nMatching_le_left
    simp only [KvCache.seqRm, List.mem_filter, hput q, KvCache.inRange]
    simp
    omega

end Params

/-! ## The prompt is being fed -/

/-- The first `nConsumed` tokens of the prompt have been taken, and those that are not
pending have been fed.  The session is used up, or its next token is compared next. -/
structure Prompting (p : Params) (E : List Token) (n : ℕ) (st : State) : Prop where
  nPast : st.nPast = n
  input : ∃ extra, st.embdInp = p.fed E ++ extra ∧
    (extra ≠ [] → st.nConsumed = (p.fed E).length)
  nConsumed_le : st.nConsumed ≤ (p.fed E).length
  count : n + st.embd.length = st.nConsumed
  batch : st.embd.length ≤ p.nBatch
  pending : st.embd <+: (p.fed E).drop n
  session : st.Done ∨ st.sessionTokens = p.resized E ∧ st.nSessionConsumed = n ∧
    n ≤ nMatching (p.resized E) (p.fed E)
  cache : Filled st.cache (max (n : ℤ) (nMatching p.session E))
  nKeep : st.nKeep = p.kept E

theorem Params.prompting_start {p : Params} {E : List Token} {st : State}
    (hE : p.prompt = some E) (h : p.start = some st) : Prompting p E 0 st ∧ st.embd = [] := by
  unfold Params.start at h
  rw [hE] at h
  cases h
  exact ⟨⟨rfl, ⟨[], by simp, fun h => absurd rfl h⟩, Nat.zero_le _, rfl, Nat.zero_le _, List.nil_prefix,
    .inr ⟨rfl, rfl, Nat.zero_le _⟩, by simpa using Params.filled_restored, rfl⟩, rfl⟩

namespace Prompting

variable {p : Params} {E : List Token} {n : ℕ} {st : State} {inp : Input}

theorem length_le (h : Prompting p E n st) (hE : p.prompt = some E) :
    (n : ℤ) + st.embd.length ≤ p.nCtx - 4 := by
  have hlen := Params.length_fed_le hE
  have hcount := h.count
  have hle := h.nConsumed_le
  omega

/-- What matches of the pending tokens matches of the prompt. -/
theorem matched_le (h : Prompting p E n st) (hdone : ¬ st.Done) :
    n + st.matched ≤ nMatching (p.resized E) (p.fed E) := by
  obtain ⟨htokens, hconsumed, hn⟩ := h.session.resolve_left hdone
  obtain ⟨hleft, hright, htake⟩ := le_nMatching_iff.mp (le_refl st.matched)
  obtain ⟨hleft', hright', htake'⟩ := le_nMatching_iff.mp hn
  rw [htokens, hconsumed, List.length_drop] at hleft
  have hcount := h.count
  have hle := h.nConsumed_le
  refine le_nMatching_iff.mpr ⟨by omega, by omega, ?_⟩
  obtain ⟨rest, hrest⟩ := h.pending
  rw [List.take_add, List.take_add, htake', ← hrest, List.take_append_of_le_length hright, ← htake,
    htokens, hconsumed]

/-- What is left of the session matches what is left of the cache. -/
theorem nMatching_le (hE : p.decoderStart = none ∨ p.session = []) :
    nMatching (p.resized E) (p.fed E) ≤ nMatching p.session E := by
  obtain ⟨rest, hrest⟩ := Params.resized_prefix (p := p) (E := E)
  rcases hE with hE | hE
  · obtain ⟨hleft, hright, htake⟩ := le_nMatching_iff.mp (le_refl (nMatching (p.resized E) E))
    rw [Params.fed_of_none hE, ← hrest]
    refine le_nMatching_iff.mpr ⟨?_, hright, ?_⟩
    · rw [List.length_append]
      omega
    · rw [List.take_append_of_le_length hleft, htake]
  · rw [Params.resized_of_nil hE, nMatching_nil_left]
    exact Nat.zero_le _

theorem not_full (h : Prompting p E n st) (hE : p.prompt = some E) : ¬ st.Full p := by
  have hlen := h.length_le hE
  rw [State.Full, h.nPast]
  omega

theorem predict_eq (h : Prompting p E n st) (hE : p.prompt = some E) (hne : st.embd ≠ []) :
    st.predict p inp = st.feed p inp := by
  have hlen := h.length_le hE
  exact State.predict_of_not_full hne (by omega) (h.not_full hE)

/-- All pending tokens are tokens of the session. -/
theorem reused (h : Prompting p E n st)
    (hL : nMatching (p.resized E) (p.fed E) ≤ nMatching p.session E)
    (hne : st.embd ≠ []) (hall : st.matched = st.embd.length) :
    Prompting p E (n + st.embd.length) st.reused ∧ st.reused.embd = [] := by
  have hdone : ¬ st.Done := fun hdone => hne (by
    rw [State.matched_of_done hdone] at hall
    exact List.eq_nil_of_length_eq_zero hall.symm)
  have hnil : st.reused.embd = [] := by
    rw [State.reused]
    simp [hall]
  have hmatched := h.matched_le hdone
  obtain ⟨htokens, hconsumed, -⟩ := h.session.resolve_left hdone
  have hcount := h.count
  have hpast : st.reused.nPast = st.nPast + st.matched := rfl
  have hnPast := h.nPast
  refine ⟨⟨by omega, h.input, h.nConsumed_le, by rw [hnil]; exact hcount, by simp [hnil],
    by simp [hnil], .inr ⟨?_, ?_, by omega⟩, ?_, h.nKeep⟩, hnil⟩
  · show (if _ then _ else _) = _
    rw [if_neg (by omega), htokens]
  · show st.nSessionConsumed + st.matched = _
    rw [hconsumed, hall]
  · have hcache := h.cache
    rw [max_eq_right (by omega)] at hcache ⊢
    exact hcache

/-- Some of them are not, and are decoded. -/
theorem decoded (h : Prompting p E n st)
    (hL : nMatching (p.resized E) (p.fed E) ≤ nMatching p.session E)
    (hsome : st.matched < st.embd.length) :
    Prompting p E (n + st.embd.length) { st.decoded.record with embd := [] } := by
  have hnPast := h.nPast
  have hcount := h.count
  have hle : (n : ℤ) + st.matched ≤ max (n : ℤ) (nMatching p.session E) := by
    by_cases hdone : st.Done
    · rw [State.matched_of_done hdone]
      omega
    · have hmatched := h.matched_le hdone
      omega
  have hcache : Filled (st.cache.put (st.nPast + st.matched) (st.embd.length - st.matched))
      (max ((n + st.embd.length : ℕ) : ℤ) (nMatching p.session E)) := by
    intro q
    rw [KvCache.mem_put, h.cache q]
    omega
  obtain ⟨ts, m, hrecord, hdone⟩ := State.decoded_record hsome
  rw [hrecord]
  refine ⟨?_, h.input, h.nConsumed_le, hcount, Nat.zero_le _, List.nil_prefix, .inl hdone,
    hcache, h.nKeep⟩
  show st.nPast + st.embd.length = ((n + st.embd.length : ℕ) : ℤ)
  rw [hnPast, Nat.cast_add]

/-- What an iteration appends to the input is taken after the prompt. -/
theorem append (h : Prompting p E n st) : Prompting p E n (st.append inp) := by
  unfold State.append
  split_ifs with hused
  · obtain ⟨extra, hinput, hextra⟩ := h.input
    have hle := h.nConsumed_le
    have hnil : extra = [] := by
      by_contra hne
      have hpos := List.length_pos_iff.mpr hne
      have hall := hextra hne
      rw [hinput, List.length_append] at hused
      omega
    rw [hinput, hnil, List.append_nil] at hused
    refine ⟨h.nPast, ⟨inp.typed, ?_, fun _ => Nat.le_antisymm hle hused⟩, h.nConsumed_le, h.count, h.batch,
      h.pending, h.session, h.cache, h.nKeep⟩
    rw [hinput, hnil, List.append_nil]
  · exact h

/-- The next tokens of the prompt are taken. -/
theorem next (h : Prompting p E n { st with embd := [] }) (inp : Input)
    (hlt : st.nConsumed < (p.fed E).length) :
    Prompting p E n (st.next p inp) ∧ (st.next p inp).embd ≠ [] := by
  obtain ⟨extra, hinput, hextra⟩ := h.input
  have hnil : extra = [] := by
    by_contra hne
    exact hlt.ne (hextra hne)
  have hinp : st.embdInp = p.fed E := by
    rw [← List.append_nil (p.fed E), ← hnil]
    exact hinput
  have hcount : n = st.nConsumed := h.count
  have hpos := p.nBatch_pos
  rw [State.next, if_neg (by rw [hinp]; omega)]
  have hlen : ((st.embdInp.drop st.nConsumed).take p.nBatch).length =
      min p.nBatch ((p.fed E).length - st.nConsumed) := by
    rw [List.length_take, List.length_drop, hinp]
  refine ⟨⟨h.nPast, ⟨extra, hinput, fun hne => absurd hnil hne⟩, ?_, ?_, ?_, ?_, h.session, h.cache,
    h.nKeep⟩, List.ne_nil_of_length_pos ?_⟩
  · dsimp only
    omega
  · dsimp only
    omega
  · dsimp only
    omega
  · dsimp only
    rw [hinp, hcount]
    exact List.take_prefix _ _
  · dsimp only
    omega

end Prompting

end Lac
end IntegratedCLI
