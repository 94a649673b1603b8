import Mathlib.Data.Fintype.EquivFin
import IntegratedCLI.Lib.Run
import IntegratedCLI.Lac.Prompt

/-!
# Reusing the prefix of a session

The entries of the cache that a session leaves for the first tokens of the prompt are kept,
and the loop is to reuse these tokens and to decode the other ones.  `main` takes the last
token away from the session where the whole prompt is in the session and the session goes
on, so that this token is decoded and there is something to sample from.  The entry of this
token stays in the cache, and the token is decoded on top of it.

## Main results

* `Comparing.feed_ok` : while the tokens are those of the session, they are reused.
* `sessionRight_iff` : the prefix is reused rightly exactly if the tokens with an entry are
  the ones that are reused.
* `reusable_iff_of_none` : without an encoder this is so except where the session goes on
  behind the prompt.
-/

namespace IntegratedCLI
namespace Lac

open Run

/-! ## What is to hold -/

/-- A call reuses the token of the session at its position, or decodes tokens at positions
without an entry. -/
def Act.Right (p : Params) : Act → Prop
  | .shift _ _ => True
  | .reuse nPast token => 0 ≤ nPast ∧ p.session[nPast.toNat]? = some token
  | .decode nPast nEval cache => ∀ q ∈ cache, ¬ (nPast ≤ q ∧ q < nPast + nEval)

/-- Every call is at the position that is the number of tokens before it, counted from the
first number to the second one. -/
def Walk : ℤ → List Act → ℤ → Prop
  | n, [], m => n = m
  | n, .shift _ _ :: as, m => Walk n as m
  | n, .reuse nPast _ :: as, m => nPast = n ∧ Walk (n + 1) as m
  | n, .decode nPast nEval _ :: as, m => nPast = n ∧ Walk (n + nEval) as m

/-- `n_past` is the number of the tokens that were reused or decoded. -/
structure World.Right (p : Params) (w : World) : Prop where
  acts : ∀ a ∈ w.acts, a.Right p
  count : ∃ m, Walk 0 w.acts m ∧ ∀ st ∈ w.state, st.nPast = m

/-- The pending tokens do not fill the context. -/
def World.NotFull (p : Params) (w : World) : Prop :=
  ∀ st ∈ w.state, st.embd ≠ [] → ¬ (st.truncate p).Full p

instance (p : Params) (w : World) : Decidable (w.NotFull p) :=
  inferInstanceAs (Decidable (∀ st ∈ w.state, _ → ¬ _))

/-- In every run, as long as the context is not shifted, the session is reused rightly. -/
def Params.SessionRight (p : Params) (st : State) : Prop :=
  ∀ inputs, Along (World.step p) (fun w _ => w.NotFull p) ⟨some st, []⟩ inputs →
    Throughout (World.step p) (World.Right p) ⟨some st, []⟩ inputs

/-- The tokens with an entry are the first ones that are fed and that the session has. -/
def Params.Reusable (p : Params) (E : List Token) : Prop :=
  nMatching p.session E ≤ nMatching (p.resized E) (p.fed E)

instance (p : Params) (E : List Token) : Decidable (p.Reusable E) :=
  inferInstanceAs (Decidable (_ ≤ _))

/-- Without an encoder this is so except where the session goes on behind the prompt. -/
theorem reusable_iff_of_none {p : Params} {E : List Token} (hE : p.prompt = some E)
    (hdec : p.decoderStart = none) :
    p.Reusable E ↔ ¬ (nMatching p.session E = E.length ∧ E.length < p.session.length) := by
  unfold Params.Reusable Params.resized
  rw [Params.fed_of_none hdec]
  split_ifs with hlong
  · refine iff_of_false (fun hle => ?_) (not_not.mpr hlong)
    have hleft : nMatching (p.session.take (E.length - 1)) E ≤ (p.session.take (E.length - 1)).length :=
      nMatching_le_left
    have hlen := List.length_take_le (E.length - 1) p.session
    have hpos := List.length_pos_iff.mpr (Params.prompt_eq_some hE).1
    omega
  · exact iff_of_true le_rfl hlong

/-! ## Walks -/

section Walks

variable {n m k : ℤ} {as bs : List Act}

theorem Walk.append (h : Walk n as m) (h' : Walk m bs k) : Walk n (as ++ bs) k := by
  induction as generalizing n with
  | nil =>
    obtain rfl : n = m := h
    exact h'
  | cons a as ih =>
    cases a with
    | shift c d => exact ih h
    | reuse nPast t => exact ⟨h.1, ih h.2⟩
    | decode nPast nEval c => exact ⟨h.1, ih h.2⟩

theorem walk_reuses {ts : List Token} : Walk n (reuses n ts) (n + ts.length) := by
  induction ts generalizing n with
  | nil => exact (Int.add_zero n).symm
  | cons t ts ih =>
    refine ⟨rfl, ?_⟩
    have hlen : n + ((t :: ts).length : ℤ) = n + 1 + ts.length := by
      rw [List.length_cons]
      omega
    rw [hlen]
    exact ih

theorem walk_decode {nEval : ℕ} {c : KvCache} : Walk n [.decode n nEval c] (n + nEval) :=
  ⟨rfl, rfl⟩

end Walks

/-! ## The tokens of the session -/

theorem getElem?_of_prefix {xs ys : List Token} {i : ℕ} {t : Token} (h : xs <+: ys)
    (hi : xs[i]? = some t) : ys[i]? = some t := by
  obtain ⟨rest, rfl⟩ := h
  rw [List.getElem?_append_left (List.getElem?_eq_some_iff.mp hi).1, hi]

/-- All tokens so far were tokens of the session, and the next ones are those of the prompt
that are left. -/
structure Comparing (p : Params) (E : List Token) (n : ℕ) (st : State) : Prop where
  nPast : st.nPast = n
  sessionTokens : st.sessionTokens = p.resized E
  nSessionConsumed : st.nSessionConsumed = n
  stream : (p.fed E).drop n <+: st.embd ++ st.embdInp.drop st.nConsumed
  cache : ∀ q ∈ st.cache, q < max (n : ℤ) (nMatching p.session E)
  batch : st.embd.length ≤ p.nBatch

/-- The session is used up, and nothing is left of it in the cache behind the tokens so
far. -/
structure Decoding (p : Params) (st : State) : Prop where
  done : st.Done
  cache : ∀ q ∈ st.cache, q < st.nPast
  batch : st.embd.length ≤ p.nBatch

/-- What feeding the pending tokens leaves. -/
structure Fed (p : Params) (E : List Token) (st : State) (r : List Act × Option State) : Prop where
  acts : ∀ a ∈ r.1, a.Right p
  count : Walk st.nPast r.1 (st.nPast + st.embd.length)
  state : ∀ st' ∈ r.2, st'.nPast = st.nPast + st.embd.length ∧
    ((∃ n, Comparing p E n { st' with embd := [] }) ∨ Decoding p { st' with embd := [] })

namespace Comparing

variable {p : Params} {E : List Token} {n : ℕ} {st : State} {inp : Input}

/-- A pending token that is not the next one of the session is behind the entries. -/
theorem le_matched (h : Comparing p E n st) (hre : p.Reusable E)
    (hsome : st.matched < st.embd.length) : nMatching p.session E ≤ n + st.matched := by
  by_contra hlt
  have hL : n + st.matched + 1 ≤ nMatching (p.resized E) (p.fed E) :=
    (Nat.lt_of_not_le hlt).trans_le hre
  obtain ⟨hleft, hright, htake⟩ := le_nMatching_iff.mp hL
  obtain ⟨rest, hrest⟩ := h.stream
  have hmore : st.matched + 1 ≤ st.matched := by
    refine le_nMatching_iff.mpr ⟨?_, hsome, ?_⟩
    · rw [List.length_drop, h.sessionTokens, h.nSessionConsumed]
      omega
    · have hfed : ((p.fed E).drop n).take (st.matched + 1) = st.embd.take (st.matched + 1) := by
        have hlen : st.matched + 1 ≤ ((p.fed E).drop n).length := by
          rw [List.length_drop]
          omega
        have hsame := congrArg (List.take (st.matched + 1)) hrest
        rw [List.take_append_of_le_length hlen, List.take_append_of_le_length hsome] at hsame
        exact hsame
      rw [h.sessionTokens, h.nSessionConsumed, List.take_drop, ← Nat.add_assoc, htake, ← hfed,
        List.take_drop, ← Nat.add_assoc]
  omega

/-- The tokens that are reused are those of the session at their positions. -/
theorem reuses_right (h : Comparing p E n st) :
    ∀ a ∈ reuses st.nPast (st.embd.take st.matched), a.Right p := by
  intro a ha
  obtain ⟨i, t, hi, rfl⟩ := mem_reuses ha
  have htake : st.embd.take st.matched =
      ((p.resized E).drop n).take st.matched := by
    rw [← h.sessionTokens, ← h.nSessionConsumed]
    exact take_nMatching.symm
  rw [htake] at hi
  have hget : (p.resized E)[n + i]? = some t := by
    rw [← List.getElem?_drop]
    exact getElem?_of_prefix (List.take_prefix _ _) hi
  have hpast : st.nPast + (i : ℤ) = ((n + i : ℕ) : ℤ) := by
    rw [h.nPast, Nat.cast_add]
  rw [hpast]
  exact ⟨Int.natCast_nonneg _, getElem?_of_prefix Params.resized_prefix hget⟩

theorem feed_ok (h : Comparing p E n st) (hre : p.Reusable E) :
    Fed p E st (st.feed p inp) := by
  rcases State.matched_le.lt_or_eq with hsome | hall
  · have hle := h.le_matched hre hsome
    have hnPast := h.nPast
    rw [State.feed_of_some hsome h.batch]
    refine ⟨fun a ha => ?_, ?_, fun st' hst' => ?_⟩
    · rcases List.mem_append.mp ha with ha | ha
      · exact h.reuses_right a ha
      · rw [List.mem_singleton.mp ha]
        intro q hq hin
        have hlt := h.cache q hq
        omega
    · have htake : (st.embd.take st.matched).length = st.matched := by
        rw [List.length_take]
        omega
      have hwalk := @walk_reuses st.nPast (st.embd.take st.matched)
      rw [htake] at hwalk
      have hend : st.nPast + st.matched + ((st.embd.length - st.matched : ℕ) : ℤ) =
          st.nPast + st.embd.length := by omega
      rw [← hend]
      exact hwalk.append walk_decode
    · obtain ⟨_, hst'⟩ := Option.mem_ite_none_left.mp hst'
      cases hst'
      obtain ⟨ts, m, hrecord, hdone⟩ := State.decoded_record hsome
      rw [hrecord]
      refine ⟨rfl, .inr ⟨hdone, fun q hq => ?_, Nat.zero_le _⟩⟩
      show q < st.nPast + st.embd.length
      rcases KvCache.mem_put.mp hq with hq | hq
      · have hlt := h.cache q hq
        omega
      · omega
  · rw [State.feed_of_all hall]
    refine ⟨?_, walk_reuses, fun st' hst' => ?_⟩
    · have hright := h.reuses_right
      rw [hall, List.take_length] at hright
      exact hright
    · cases hst'
      have hpast : st.reused.nPast = st.nPast + st.embd.length := by rw [State.reused, hall]
      have hnPast := h.nPast
      refine ⟨hpast, .inl ⟨n + st.embd.length, ?_, ?_, ?_, ?_, fun q hq => ?_, Nat.zero_le _⟩⟩
      · dsimp only
        rw [hpast, hnPast, Nat.cast_add]
      · show (if _ then _ else _) = _
        rw [if_neg (by omega), h.sessionTokens]
      · show st.nSessionConsumed + st.matched = _
        rw [h.nSessionConsumed, hall]
      · have hdrop := h.stream.drop st.embd.length
        rw [List.drop_drop, List.drop_left] at hdrop
        exact hdrop
      · have hlt := h.cache q hq
        omega

theorem truncate (h : Comparing p E n st) (hE : p.prompt = some E) :
    Comparing p E n (st.truncate p) := by
  refine ⟨h.nPast, h.sessionTokens, h.nSessionConsumed, ?_, h.cache,
    (List.length_take_le' _ _).trans h.batch⟩
  have hlen := Params.length_fed_le hE
  obtain ⟨rest, hrest⟩ := h.stream
  show (p.fed E).drop n <+: st.embd.take (p.nCtx - 4).toNat ++ st.embdInp.drop st.nConsumed
  rcases Nat.lt_or_ge (p.nCtx - 4).toNat st.embd.length with hcut | hall
  · have hshort : ((p.fed E).drop n).length ≤ (p.nCtx - 4).toNat := by
      rw [List.length_drop]
      omega
    refine List.IsPrefix.trans ?_ (List.prefix_append _ _)
    have htake := (List.prefix_append ((p.fed E).drop n) rest).take (p.nCtx - 4).toNat
    rw [hrest, List.take_of_length_le hshort, List.take_append_of_le_length hcut.le] at htake
    exact htake
  · rw [List.take_of_length_le hall]
    exact h.stream

end Comparing

namespace Decoding

variable {p : Params} {E : List Token} {st : State} {inp : Input}

theorem feed_ok (h : Decoding p st) (hne : st.embd ≠ []) : Fed p E st (st.feed p inp) := by
  have hlen := List.length_pos_iff.mpr hne
  rw [State.feed_of_done h.done hne h.batch]
  refine ⟨fun a ha => ?_, walk_decode, fun st' hst' => ?_⟩
  · rw [List.mem_singleton.mp ha]
    intro q hq hin
    have hlt := h.cache q hq
    omega
  · obtain ⟨_, hst'⟩ := Option.mem_ite_none_left.mp hst'
    cases hst'
    have hsome : st.matched < st.embd.length := by rw [State.matched_of_done h.done]; exact hlen
    obtain ⟨ts, m, hrecord, hdone⟩ := State.decoded_record hsome
    rw [hrecord]
    refine ⟨rfl, .inr ⟨hdone, fun q hq => ?_, Nat.zero_le _⟩⟩
    show q < st.nPast + st.embd.length
    rcases KvCache.mem_put.mp hq with hq | hq
    · have hlt := h.cache q hq
      omega
    · omega

theorem truncate (h : Decoding p st) : Decoding p (st.truncate p) :=
  ⟨h.done, h.cache, (List.length_take_le' _ _).trans h.batch⟩

end Decoding

/-! ## Runs -/

section Runs

variable {p : Params} {E : List Token} {n : ℕ} {st : State} {w : World} {inp : Input}

/-- The session is compared with what comes next, or used up. -/
def Reading (p : Params) (E : List Token) (st : State) : Prop :=
  (∃ n, Comparing p E n st) ∨ Decoding p st

/-- What the next tokens are does not matter once the prompt has been taken. -/
theorem Comparing.next (h : Comparing p E n { st with embd := [] }) :
    Comparing p E n ((st.next p inp).append inp) := by
  have hstream : (p.fed E).drop n <+: st.embdInp.drop st.nConsumed := h.stream
  have hnext : Comparing p E n (st.next p inp) := by
    unfold State.next
    split_ifs with hused
    · refine ⟨h.nPast, h.sessionTokens, h.nSessionConsumed, ?_, h.cache, p.nBatch_pos⟩
      rw [List.drop_eq_nil_of_le hused.1, List.prefix_nil] at hstream
      rw [hstream]
      exact List.nil_prefix
    · refine ⟨h.nPast, h.sessionTokens, h.nSessionConsumed, ?_, h.cache, List.length_take_le _ _⟩
      obtain ⟨rest, hrest⟩ := List.take_prefix p.nBatch (st.embdInp.drop st.nConsumed)
      have hdrop := congrArg
        (List.drop ((st.embdInp.drop st.nConsumed).take p.nBatch).length) hrest
      rw [List.drop_left] at hdrop
      dsimp only
      rw [← List.drop_drop, ← hdrop, hrest]
      exact hstream
  unfold State.append
  split_ifs
  · refine ⟨hnext.nPast, hnext.sessionTokens, hnext.nSessionConsumed, ?_, hnext.cache, hnext.batch⟩
    refine hnext.stream.trans ((List.prefix_append_right_inj _).mpr ?_)
    exact (List.prefix_append _ _).drop _
  · exact hnext

theorem Decoding.next (h : Decoding p { st with embd := [] }) :
    Decoding p ((st.next p inp).append inp) := by
  obtain ⟨embd, n, embdInp, hnext, hbatch⟩ := @State.next_eq p inp st
  rw [hnext]
  exact ⟨h.done, h.cache, hbatch⟩

/-- What holds of a run in which the context is not shifted. -/
structure Steady (p : Params) (E : List Token) (w : World) : Prop where
  acts : ∀ a ∈ w.acts, a.Right p
  count : ∃ m, Walk 0 w.acts m ∧ ∀ st ∈ w.state, st.nPast = m
  state : ∀ st ∈ w.state, Reading p E st

theorem Reading.predict_ok (h : Reading p E st) (inp : Input) (hE : p.prompt = some E) (hre : p.Reusable E)
    (hfull : st.embd ≠ [] → ¬ (st.truncate p).Full p) :
    (∀ a ∈ (st.predict p inp).1, a.Right p) ∧
      ∃ m, Walk st.nPast (st.predict p inp).1 m ∧
        ∀ st' ∈ (st.predict p inp).2, st'.nPast = m ∧ Reading p E { st' with embd := [] } := by
  by_cases hnil : st.embd = []
  · rw [State.predict_nil hnil]
    refine ⟨by simp, st.nPast, rfl, fun st' hst' => ?_⟩
    cases hst'
    obtain ⟨nPast, embd, embdInp⟩ := st
    cases hnil
    exact ⟨rfl, h⟩
  have hfed : Fed p E (st.truncate p) ((st.truncate p).feed p inp) := by
    rcases h with ⟨n, h⟩ | h
    · exact (h.truncate hE).feed_ok hre
    · exact h.truncate.feed_ok (State.truncate_ne_nil (Params.five_le_nCtx hE) hnil)
  have hpredict : st.predict p inp = (st.truncate p).feed p inp := by
    rw [State.predict, if_neg hnil]
    dsimp only
    rw [if_neg (hfull hnil)]
  rw [hpredict]
  exact ⟨hfed.acts, _, hfed.count, hfed.state⟩

theorem Steady.step (hE : p.prompt = some E) (hre : p.Reusable E) (h : Steady p E w)
    (hfull : w.NotFull p) : Steady p E (w.step p inp) := by
  obtain ⟨state, acts⟩ := w
  cases state with
  | none => exact h
  | some st =>
    obtain ⟨hacts, m, hwalk, hstate⟩ :=
      (h.state st rfl).predict_ok inp hE hre (hfull st rfl)
    obtain ⟨m₀, hwalk₀, hpast⟩ := h.count
    have hpast' : st.nPast = m₀ := hpast st rfl
    rw [hpast'] at hwalk
    refine ⟨fun a ha => ?_, ⟨m, hwalk₀.append hwalk, fun st'' hst'' => ?_⟩, fun st'' hst'' => ?_⟩
    · rcases List.mem_append.mp ha with ha | ha
      · exact h.acts a ha
      · exact hacts a ha
    · obtain ⟨st', hst', rfl⟩ := Option.map_eq_some_iff.mp hst''
      obtain ⟨embd, n, embdInp, hnext, -⟩ := @State.next_eq p inp st'
      rw [hnext]
      exact (hstate st' hst').1
    · obtain ⟨st', hst', rfl⟩ := Option.map_eq_some_iff.mp hst''
      rcases (hstate st' hst').2 with ⟨n, hcomp⟩ | hdec
      · exact .inl ⟨n, hcomp.next⟩
      · exact .inr hdec.next

theorem Steady.right (h : Steady p E w) : w.Right p := ⟨h.acts, h.count⟩

/-! ## A token that is decoded on top of an entry -/

/-- The session is compared with the prompt, of which nothing has been decoded. -/
structure Unread (p : Params) (E : List Token) (n : ℕ) (st : State) : Prop
    extends Prompting p E n st where
  sessionTokens : st.sessionTokens = p.resized E
  nSessionConsumed : st.nSessionConsumed = n
  embdInp : st.embdInp = p.fed E
  le : n ≤ nMatching (p.resized E) (p.fed E)

/-- A run in which the context is not shifted, and at the end of which a call was wrong. -/
def GoesWrong (p : Params) (w : World) : Prop :=
  ∃ inputs, Along (World.step p) (fun w _ => w.NotFull p) w inputs ∧
    ¬ (inputs.foldl (World.step p) w).Right p

/-- A token that is not the next one of the session is decoded, and there is an entry for
its position. -/
theorem goesWrong_of_decode {acts : List Act} (hne : st.embd ≠ [])
    (hle : (st.embd.length : ℤ) ≤ p.nCtx - 4) (hfull : ¬ st.Full p)
    (hbatch : st.embd.length ≤ p.nBatch) (hsome : st.matched < st.embd.length)
    (hmem : st.nPast + st.matched ∈ st.cache) : GoesWrong p ⟨some st, acts⟩ := by
  refine ⟨[turn []], ⟨fun st' hst' _ => ?_, trivial⟩, fun hright => ?_⟩
  · cases hst'
    rw [State.truncate_eq hle]
    exact hfull
  · have hin : Act.decode (st.nPast + st.matched) (st.embd.length - st.matched) st.cache ∈
        (st.predict p (turn [])).1 := by
      rw [State.predict_of_not_full hne hle hfull, State.feed_of_some hsome hbatch]
      simp
    have hbad := hright.acts _ (List.mem_append.mpr (.inr hin)) _ hmem
    omega

theorem goesWrong_of_step (inp : Input) (hfull : w.NotFull p) (h : GoesWrong p (w.step p inp)) :
    GoesWrong p w := by
  obtain ⟨inputs, halong, hright⟩ := h
  exact ⟨inp :: inputs, ⟨hfull, halong⟩, hright⟩

/-- A token the session does not have does not match. -/
theorem nMatching_of_notMem {ss : List Token} {c : Token} (h : c ∉ ss) : nMatching ss [c] = 0 := by
  cases ss with
  | nil => rfl
  | cons s ss =>
    have hne : s ≠ c := fun heq => h (heq ▸ List.mem_cons_self)
    rw [nMatching, if_neg hne]

namespace Unread

/-- There is an entry for the next token. -/
theorem mem_cache (h : Unread p E n st)
    (hre : nMatching (p.resized E) (p.fed E) < nMatching p.session E) {k : ℕ}
    (hk : n + k ≤ nMatching (p.resized E) (p.fed E)) : st.nPast + k ∈ st.cache := by
  have hnPast := h.nPast
  exact (h.cache _).mpr (by omega)

/-- Where nothing is pending, the next tokens of the prompt are, or a token is sampled. -/
theorem after (hE : p.prompt = some E)
    (hre : nMatching (p.resized E) (p.fed E) < nMatching p.session E) (h : Unread p E n st)
    (hnil : st.embd = []) {c : Token} (hc : c ∉ p.resized E) (acts : List Act) :
    (Unread p E n ((st.next p (sample c)).append (sample c)) ∧
      ((st.next p (sample c)).append (sample c)).embd ≠ [] ∧
      st.nConsumed < ((st.next p (sample c)).append (sample c)).nConsumed) ∨
    GoesWrong p ⟨some ((st.next p (sample c)).append (sample c)), acts⟩ := by
  have hprompt : Prompting p E n { st with embd := [] } := by
    rw [← hnil]
    exact h.toPrompting
  have hcount : n = st.nConsumed := hprompt.count
  rcases Nat.lt_or_ge st.nConsumed (p.fed E).length with hlt | hall
  · left
    obtain ⟨hnext, hne⟩ := hprompt.next (sample c) hlt
    have hpos := List.length_pos_iff.mpr hne
    have hinput : (st.next p (sample c)).embdInp = p.fed E := by
      rw [State.next, h.embdInp, if_neg (by omega)]
    have hsession : (st.next p (sample c)).sessionTokens = p.resized E ∧
        (st.next p (sample c)).nSessionConsumed = n := by
      unfold State.next
      split_ifs
      · exact ⟨h.sessionTokens, h.nSessionConsumed⟩
      · exact ⟨h.sessionTokens, h.nSessionConsumed⟩
    have happend : (st.next p (sample c)).append (sample c) = st.next p (sample c) := by
      unfold State.append
      split_ifs
      · simp [sample]
      · rfl
    have hnextCount := hnext.count
    rw [happend]
    exact ⟨⟨hnext, hsession.1, hsession.2, hinput, h.le⟩, hne, by omega⟩
  · right
    have hnext : (st.next p (sample c)).append (sample c) =
        { st with embd := [c] } := by
      have hsample : st.next p (sample c) = { st with embd := [c] } := by
        rw [State.next, h.embdInp, if_pos ⟨hall, rfl⟩, sample]
      rw [hsample]
      unfold State.append
      split_ifs
      · simp [sample]
      · rfl
    have hctx := Params.five_le_nCtx hE
    have hlen := Params.length_fed_le hE
    have hle := h.nConsumed_le
    have hnPast := h.nPast
    have hzero : { st with embd := [c] }.matched = 0 := by
      refine nMatching_of_notMem fun hin => hc ?_
      rw [← h.sessionTokens]
      exact List.mem_of_mem_drop hin
    rw [hnext]
    refine goesWrong_of_decode (List.cons_ne_nil c []) ?_ ?_ p.nBatch_pos ?_ ?_
    · show ((1 : ℕ) : ℤ) ≤ p.nCtx - 4
      omega
    · show ¬ p.nCtx ≤ st.nPast + ((1 : ℕ) : ℤ)
      omega
    · rw [hzero]
      exact Nat.one_pos
    · rw [hzero]
      exact h.mem_cache hre (k := 0) h.le

/-- Where all pending tokens are those of the session, they are reused. -/
theorem reused (hre : nMatching (p.resized E) (p.fed E) < nMatching p.session E)
    (h : Unread p E n st) (hne : st.embd ≠ []) (hall : st.matched = st.embd.length) :
    Unread p E (n + st.embd.length) st.reused ∧ st.reused.embd = [] := by
  obtain ⟨hprompt, hnil⟩ := h.toPrompting.reused hre.le hne hall
  have hdone : ¬ st.Done := fun hdone => hne (by
    rw [State.matched_of_done hdone] at hall
    exact List.eq_nil_of_length_eq_zero hall.symm)
  have hle := h.matched_le hdone
  rw [hall] at hle
  refine ⟨⟨hprompt, ?_, ?_, h.embdInp, hle⟩, hnil⟩
  · show (if _ then _ else _) = _
    rw [if_neg (by omega), h.sessionTokens]
  · show st.nSessionConsumed + st.matched = _
    rw [h.nSessionConsumed, hall]

end Unread

/-- Tokens with an entry that are not reused are decoded some time. -/
theorem Unread.goesWrong (hE : p.prompt = some E)
    (hre : nMatching (p.resized E) (p.fed E) < nMatching p.session E) {c : Token}
    (hc : c ∉ p.resized E) (h : Unread p E n st) (hne : st.embd ≠ []) (acts : List Act) :
    GoesWrong p ⟨some st, acts⟩ := by
  generalize hd : (p.fed E).length - st.nConsumed = d
  induction d using Nat.strong_induction_on generalizing n st acts with
  | _ d ih =>
    have hlen := h.length_le hE
    rcases State.matched_le.lt_or_eq with hsome | hall
    · refine goesWrong_of_decode hne (by omega) (h.not_full hE) h.batch hsome (h.mem_cache hre ?_)
      by_cases hdone : st.Done
      · rw [State.matched_of_done hdone]
        exact h.le
      · exact h.matched_le hdone
    · obtain ⟨hreused, hnil⟩ := h.reused hre hne hall
      have hstep : World.step p ⟨some st, acts⟩ (sample c) =
          ⟨some ((st.reused.next p (sample c)).append (sample c)),
            acts ++ reuses st.nPast st.embd⟩ := by
        unfold World.step State.iterate
        simp only [h.predict_eq hE hne, State.feed_of_all hall, Option.map_some]
      refine goesWrong_of_step (sample c) (fun st' hst' _ => ?_) ?_
      · cases hst'
        rw [State.truncate_eq (by omega)]
        exact h.not_full hE
      · rw [hstep]
        rcases hreused.after hE hre hnil hc (acts ++ reuses st.nPast st.embd) with
          ⟨hnext, hne', hmore⟩ | hwrong
        · have hle := hnext.nConsumed_le
          have hsame : st.reused.nConsumed = st.nConsumed := rfl
          exact ih _ (by omega) hnext hne' _ rfl
        · exact hwrong

/-- **The prefix of a session is reused rightly** exactly if the tokens with an entry are the
first ones that are fed and that the session has. -/
theorem sessionRight_iff (hE : p.prompt = some E) (h : p.start = some st) :
    p.SessionRight st ↔ p.Reusable E := by
  obtain ⟨hprompt, hnil⟩ := Params.prompting_start hE h
  have hst := h
  unfold Params.start at hst
  rw [hE, Option.map_some, Option.some.injEq] at hst
  constructor
  · intro hright
    by_contra hre
    have hre' := Nat.lt_of_not_le hre
    obtain ⟨c, hc⟩ := Infinite.exists_notMem_finset (p.resized E).toFinset
    rw [List.mem_toFinset] at hc
    have hunread : Unread p E 0 st := by
      refine ⟨hprompt, ?_, ?_, ?_, Nat.zero_le _⟩
      · rw [← hst]
      · rw [← hst]
      · rw [← hst]
    have hwrong : GoesWrong p ⟨some st, []⟩ := by
      refine goesWrong_of_step (sample c) (fun st' hst' hne => ?_) ?_
      · cases hst'
        exact absurd hnil hne
      · have hstep : World.step p ⟨some st, []⟩ (sample c) =
            ⟨some ((st.next p (sample c)).append (sample c)), []⟩ := by
          unfold World.step State.iterate
          simp only [State.predict_nil hnil, Option.map_some, List.append_nil]
        rw [hstep]
        rcases hunread.after hE hre' hnil hc [] with ⟨hnext, hne, -⟩ | hwrong
        · exact hnext.goesWrong hE hre' hc hne []
        · exact hwrong
    obtain ⟨inputs, halong, hbad⟩ := hwrong
    exact hbad (hright inputs halong).last
  · intro hre inputs halong
    have hstart : Steady p E ⟨some st, []⟩ := by
      refine ⟨by simp, ⟨0, rfl, ?_⟩, ?_⟩
      · rintro st' hst'
        cases hst'
        exact hprompt.nPast
      · rintro st' hst'
        cases hst'
        refine .inl ⟨0, hprompt.nPast, ?_, ?_, ?_, fun q hq => ((hprompt.cache q).mp hq).2,
          hprompt.batch⟩
        · rw [← hst]
        · rw [← hst]
        · rw [← hst]
          exact List.prefix_refl _
    exact (throughout_of_along (fun w _ hw hfull => hw.step hE hre hfull) hstart halong).mono
      fun w hw => hw.right

end Runs

theorem batch_pos : 0 < 2048 := by decide

/-- A prompt of three tokens, and a session. -/
def withSession (session : List Token) : Params :=
  { nCtx := 4096, nBatch := 2048, nKeep := 0, nPredict := -1, ctxShift := true, addBos := false
    bos := 1, tokens := [1, 2, 3], session := session, promptCache := true, decoderStart := none
    nBatch_pos := batch_pos }

/-- The third token of the session is another one. -/
theorem sessionRight_otherToken : (withSession [1, 2, 5, 6]).SessionRight
    ⟨0, [], [1, 2, 3], 0, [1, 2, 5, 6], 0, true, 0, [0, 1]⟩ :=
  (sessionRight_iff (show (withSession [1, 2, 5, 6]).prompt = some [1, 2, 3] by decide)
    (by decide)).mpr (by decide)

/-- The session goes on behind the prompt.  The last token of the prompt is decoded at its
position, and the entry for this position is still there. -/
theorem decoded_twice :
    (withSession [1, 2, 3, 4]).start =
        some ⟨0, [], [1, 2, 3], 0, [1, 2], 0, true, 0, [0, 1, 2]⟩ ∧
      ([turn [], turn []].foldl (World.step (withSession [1, 2, 3, 4]))
        ⟨(withSession [1, 2, 3, 4]).start, []⟩).acts =
        [.reuse 0 1, .reuse 1 2, .decode 2 1 [0, 1, 2]] ∧
      ¬ (withSession [1, 2, 3, 4]).SessionRight
        ⟨0, [], [1, 2, 3], 0, [1, 2], 0, true, 0, [0, 1, 2]⟩ := by
  have hstart : (withSession [1, 2, 3, 4]).start =
      some ⟨0, [], [1, 2, 3], 0, [1, 2], 0, true, 0, [0, 1, 2]⟩ := by decide
  have hacts : ([turn [], turn []].foldl (World.step (withSession [1, 2, 3, 4]))
      ⟨(withSession [1, 2, 3, 4]).start, []⟩).acts =
      [.reuse 0 1, .reuse 1 2, .decode 2 1 [0, 1, 2]] := by decide
  refine ⟨hstart, hacts, fun h => ?_⟩
  rw [hstart] at hacts
  have hright := (h [turn [], turn []] (by decide)).last.acts (.decode 2 1 [0, 1, 2])
    (by rw [hacts]; decide) 2 (by decide)
  exact hright ⟨le_rfl, by decide⟩

end Lac
end IntegratedCLI
