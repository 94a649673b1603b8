import Mathlib.Data.List.Infix
import Mathlib.Tactic.Linarith

/-!
# The generation loop

The loop of `lac.cpp` that feeds the tokens of the prompt, of the user and of the sampler
to the model, with what `main` prepares for it.  The model keeps an entry for each token
fed to it, at the position of the token, in its KV cache.

* A session file has the tokens of an earlier run, and with them the entries of the cache.
  The entries of the first tokens of the prompt that the session has as well are kept, and
  these tokens are not fed again.
* Where the context is full, half of the entries behind the first `n_keep` ones are
  removed, and the ones behind these are moved down.

## What is modelled how

* A cache is the list of the positions with an entry.  `llama_kv_cache_seq_rm` and
  `llama_kv_cache_seq_add` do what is documented.
* `grp_attn_n` is one, so that there is no self-extend.
* What the loop gets from outside is an input for each iteration: whether the user has the
  turn, the token that is sampled, the tokens that are appended to the input, and which
  call of `llama_decode` fails.
* The loop may end after every iteration.
* Each iteration also gives the calls it makes.
-/

namespace IntegratedCLI
namespace Lac

abbrev Token := ℤ

/-! ## The KV cache -/

/-- The positions with an entry. -/
abbrev KvCache := List ℤ

namespace KvCache

/-- The position is in the range from `p0` to `p1`, which has no end if `p1` is negative. -/
def inRange (p0 p1 p : ℤ) : Bool := max p0 0 ≤ p && (p1 < 0 || p < p1)

/-- `llama_kv_cache_seq_rm` : remove the entries of a range. -/
def seqRm (c : KvCache) (p0 p1 : ℤ) : KvCache := List.filter (fun p => !inRange p0 p1 p) c

/-- `llama_kv_cache_seq_add` : move the entries of a range.  One that gets a negative
position is removed. -/
def seqAdd (c : KvCache) (p0 p1 delta : ℤ) : KvCache :=
  (List.map (fun p => if inRange p0 p1 p then p + delta else p) c).filter fun p => 0 ≤ p

/-- `llama_decode` makes an entry for each token of a batch. -/
def put (c : KvCache) (pos : ℤ) (n : ℕ) : KvCache :=
  c ++ (List.range n).map fun i : ℕ => pos + (i : ℤ)

theorem mem_put {c : KvCache} {pos q : ℤ} {n : ℕ} :
    q ∈ c.put pos n ↔ q ∈ c ∨ pos ≤ q ∧ q < pos + n := by
  unfold put
  simp only [List.mem_append, List.mem_map, List.mem_range]
  refine or_congr_right ⟨?_, fun h => ⟨(q - pos).toNat, by omega, by omega⟩⟩
  rintro ⟨i, hi, rfl⟩
  omega

end KvCache

/-! ## What the loop begins with -/

/-- What the run is given: the sizes and options, the tokens of the prompt, the token the
model begins a text with, the tokens of the session file and whether there is one, and the
token the decoder starts with if the model has an encoder. -/
structure Params where
  nCtx : ℤ
  nBatch : ℕ
  nKeep : ℤ
  nPredict : ℤ
  ctxShift : Bool
  addBos : Bool
  bos : Token
  tokens : List Token
  session : List Token
  promptCache : Bool
  decoderStart : Option Token
  nBatch_pos : 0 < nBatch

structure State where
  nPast : ℤ
  embd : List Token
  embdInp : List Token
  nConsumed : ℕ
  sessionTokens : List Token
  nSessionConsumed : ℕ
  pathSession : Bool
  nKeep : ℤ
  cache : KvCache
  deriving DecidableEq, Repr

/-- How many first tokens two lists have in common. -/
def nMatching : List Token → List Token → ℕ
  | s :: ss, t :: ts => if s = t then nMatching ss ts + 1 else 0
  | _, _ => 0

namespace Params

variable (p : Params)

/-- The tokens of the prompt, if there are some and not too many. -/
def prompt : Option (List Token) :=
  let embdInp := if p.tokens = [] ∧ p.addBos then [p.bos] else p.tokens
  if embdInp = [] ∨ p.nCtx - 4 < embdInp.length then none else some embdInp

/-- The session tokens, without the last one if the prompt ends there and the session goes
on. -/
def resized (embdInp : List Token) : List Token :=
  if nMatching p.session embdInp = embdInp.length ∧ embdInp.length < p.session.length then
    p.session.take (embdInp.length - 1)
  else p.session

/-- How many tokens of the prompt are kept when the context is shifted. -/
def kept (embdInp : List Token) : ℤ :=
  if p.nKeep < 0 ∨ (embdInp.length : ℤ) < p.nKeep then embdInp.length
  else p.nKeep + p.addBos.toNat

/-- The entries of the session that are left. -/
def restored (embdInp : List Token) : KvCache :=
  let c : KvCache := KvCache.put [] 0 p.session.length
  if p.session = [] then c else c.seqRm (nMatching p.session embdInp) (-1)

/-- The tokens to feed.  An encoder takes the prompt, and the decoder starts with a token
of its own. -/
def fed (embdInp : List Token) : List Token :=
  match p.decoderStart with
  | none => embdInp
  | some t => [t]

/-- The state before the first iteration. -/
def start : Option State := p.prompt.map fun embdInp =>
  { nPast := 0
    embd := []
    embdInp := p.fed embdInp
    nConsumed := 0
    sessionTokens := p.resized embdInp
    nSessionConsumed := 0
    pathSession := p.promptCache
    nKeep := p.kept embdInp
    cache := p.restored embdInp }

end Params

/-! ## An iteration -/

/-- The calls of an iteration: a shift, with the position and the cache after it, a token
that is reused at a position, and a batch that is decoded from a position on, with the
cache before it. -/
inductive Act where
  | shift (nPast : ℤ) (cache : KvCache)
  | reuse (nPast : ℤ) (token : Token)
  | decode (nPast : ℤ) (nEval : ℕ) (cache : KvCache)
  deriving DecidableEq, Repr

/-- What an iteration gets from outside. -/
structure Input where
  interacting : Bool
  sampled : Token
  typed : List Token
  fails : ℕ → Bool

/-- It is the user's turn, and the user has typed something. -/
def turn (typed : List Token) : Input := ⟨true, 0, typed, fun _ => false⟩

/-- A token is sampled. -/
def sample (token : Token) : Input := ⟨false, token, [], fun _ => false⟩

/-- Compare the pending tokens with those of the session. -/
def reuseLoop : List Token → State → List Act × State
  | [], st => ([], { st with embd := [] })
  | t :: ts, st =>
    match st.sessionTokens[st.nSessionConsumed]? with
    | none => ([], { st with embd := t :: ts })
    | some s =>
      if t ≠ s then
        ([], { st with
          embd := t :: ts
          sessionTokens := st.sessionTokens.take st.nSessionConsumed })
      else
        let next := { st with
          nPast := st.nPast + 1
          nSessionConsumed := st.nSessionConsumed + 1 }
        if next.sessionTokens.length ≤ next.nSessionConsumed then
          ([.reuse st.nPast t], { next with embd := ts })
        else
          let r := reuseLoop ts next
          (.reuse st.nPast t :: r.1, r.2)

/-- Decode the pending tokens from number `i` on, in batches.  There is no state after a
call that fails. -/
def decodeLoop (nBatch : ℕ) (fails : ℕ → Bool) (size : ℕ) :
    ℕ → ℕ → ℤ → KvCache → List Act × Option (ℤ × KvCache)
  | 0, _, nPast, c => ([], some (nPast, c))
  | fuel + 1, i, nPast, c =>
    if i < size then
      let nEval := min nBatch (size - i)
      if fails i then ([.decode nPast nEval c], none)
      else
        let r := decodeLoop nBatch fails size fuel (i + nBatch) (nPast + nEval) (c.put nPast nEval)
        (.decode nPast nEval c :: r.1, r.2)
    else ([], some (nPast, c))

namespace State

variable (p : Params) (inp : Input) (st : State)

/-- A pending input that does not fit is cut. -/
def truncate : State := { st with embd := st.embd.take (p.nCtx - 4).toNat }

/-- The pending tokens fill the context. -/
def Full : Prop := p.nCtx ≤ st.nPast + st.embd.length

instance : Decidable (st.Full p) := inferInstanceAs (Decidable (_ ≤ _))

/-- Half of what is not kept is discarded.  Where less is there than is kept, the number is
negative. -/
def nDiscard : ℤ := (st.nPast - st.nKeep).tdiv 2

def shift : State :=
  { st with
    cache := (st.cache.seqRm st.nKeep (st.nKeep + st.nDiscard)).seqAdd
      (st.nKeep + st.nDiscard) st.nPast (-st.nDiscard)
    nPast := st.nPast - st.nDiscard
    pathSession := false }

def reusePrefix : List Act × State :=
  if st.nSessionConsumed < st.sessionTokens.length then reuseLoop st.embd st else ([], st)

def eval : List Act × Option State :=
  let r := decodeLoop p.nBatch inp.fails st.embd.length st.embd.length 0 st.nPast st.cache
  (r.1, r.2.map fun s => { st with nPast := s.1, cache := s.2 })

/-- The tokens that were decoded are added to those of the session. -/
def record : State :=
  if st.embd ≠ [] ∧ st.pathSession then
    { st with
      sessionTokens := st.sessionTokens ++ st.embd
      nSessionConsumed := (st.sessionTokens ++ st.embd).length }
  else st

def feed : List Act × Option State :=
  let r := st.reusePrefix
  let r' := r.2.eval p inp
  (r.1 ++ r'.1, r'.2.map record)

/-- The first half of an iteration feeds the pending tokens. -/
def predict : List Act × Option State :=
  if st.embd = [] then ([], some st)
  else
    let st := st.truncate p
    if st.Full p then
      if p.ctxShift = false then ([], none)
      else if p.nPredict = -2 then ([], none)
      else
        let st := st.shift
        let r := st.feed p inp
        (.shift st.nPast st.cache :: r.1, r.2)
    else st.feed p inp

/-- Sample a token if the input is used up and it is not the user's turn, and else take the
next tokens of the input. -/
def next : State :=
  if st.embdInp.length ≤ st.nConsumed ∧ inp.interacting = false then
    { st with embd := [inp.sampled] }
  else
    let embd := (st.embdInp.drop st.nConsumed).take p.nBatch
    { st with embd := embd, nConsumed := st.nConsumed + embd.length }

/-- Tokens are appended to an input that is used up. -/
def append : State :=
  if st.embdInp.length ≤ st.nConsumed then { st with embdInp := st.embdInp ++ inp.typed } else st

def iterate : List Act × Option State :=
  let r := st.predict p inp
  (r.1, r.2.map fun st => (st.next p inp).append inp)

end State

/-! ## Runs -/

/-- The state of the loop, if it has not ended, and the calls so far. -/
structure World where
  state : Option State
  acts : List Act
  deriving DecidableEq, Repr

def World.step (p : Params) (w : World) (inp : Input) : World :=
  match w.state with
  | none => w
  | some st => ⟨(st.iterate p inp).2, w.acts ++ (st.iterate p inp).1⟩

/-! ## Common tokens -/

section Matching

variable {ss ts : List Token} {n : ℕ}

theorem nMatching_nil_left : nMatching [] ts = 0 := by cases ts <;> rfl

theorem nMatching_nil_right : nMatching ss [] = 0 := by cases ss <;> rfl

theorem nMatching_le_left : nMatching ss ts ≤ ss.length := by
  induction ss generalizing ts with
  | nil => exact nMatching_nil_left.le
  | cons s ss ih =>
    cases ts with
    | nil => exact Nat.zero_le _
    | cons t ts =>
      rw [nMatching]
      split_ifs
      · exact Nat.succ_le_succ ih
      · exact Nat.zero_le _

theorem nMatching_comm : nMatching ss ts = nMatching ts ss := by
  induction ss generalizing ts with
  | nil => rw [nMatching_nil_left, nMatching_nil_right]
  | cons s ss ih =>
    cases ts with
    | nil => rfl
    | cons t ts => simp only [nMatching, ih, eq_comm]

theorem nMatching_le_right : nMatching ss ts ≤ ts.length := by
  rw [nMatching_comm]
  exact nMatching_le_left

/-- Lists match up to a number exactly if they agree before it. -/
theorem le_nMatching_iff :
    n ≤ nMatching ss ts ↔ n ≤ ss.length ∧ n ≤ ts.length ∧ ss.take n = ts.take n := by
  induction n generalizing ss ts with
  | zero => simp
  | succ n ih =>
    cases ss with
    | nil => simp [nMatching_nil_left]
    | cons s ss =>
      cases ts with
      | nil => simp [nMatching_nil_right]
      | cons t ts =>
        rw [nMatching]
        split_ifs with heq
        · simp [ih, heq]
        · simp [heq]

theorem take_nMatching : ss.take (nMatching ss ts) = ts.take (nMatching ss ts) :=
  (le_nMatching_iff.mp le_rfl).2.2

end Matching

/-! ## What the pending tokens become -/

/-- The calls that reuse tokens from a position on. -/
def reuses : ℤ → List Token → List Act
  | _, [] => []
  | nPast, t :: ts => .reuse nPast t :: reuses (nPast + 1) ts

theorem mem_reuses {nPast : ℤ} {ts : List Token} {a : Act} (h : a ∈ reuses nPast ts) :
    ∃ (i : ℕ) (t : Token), ts[i]? = some t ∧ a = .reuse (nPast + i) t := by
  induction ts generalizing nPast with
  | nil => cases h
  | cons t ts ih =>
    rcases List.mem_cons.mp h with rfl | h
    · exact ⟨0, t, rfl, by simp⟩
    · obtain ⟨i, t', hi, rfl⟩ := ih h
      exact ⟨i + 1, t', hi, by simp [add_assoc, add_comm (1 : ℤ)]⟩

namespace State

variable {p : Params} {inp : Input} (st : State)

/-- The session is used up. -/
def Done : Prop := st.sessionTokens.length ≤ st.nSessionConsumed

/-- How many pending tokens are the next ones of the session. -/
def matched : ℕ := nMatching (st.sessionTokens.drop st.nSessionConsumed) st.embd

/-- The state when these have been reused. -/
def reused : State :=
  { st with
    nPast := st.nPast + st.matched
    embd := st.embd.drop st.matched
    nSessionConsumed := st.nSessionConsumed + st.matched
    sessionTokens :=
      if st.matched < st.embd.length then
        st.sessionTokens.take (st.nSessionConsumed + st.matched)
      else st.sessionTokens }

/-- The state when the other ones have been decoded. -/
def decoded : State :=
  { st.reused with
    nPast := st.nPast + st.embd.length
    cache := st.cache.put (st.nPast + st.matched) (st.embd.length - st.matched) }

variable {st}

theorem matched_le : st.matched ≤ st.embd.length := nMatching_le_right

theorem matched_of_done (h : st.Done) : st.matched = 0 := by
  rw [matched, List.drop_eq_nil_of_le h, nMatching_nil_left]

theorem reused_of_done (h : st.Done) : st.reused = st := by
  have hall : (if st.matched < st.embd.length then
      st.sessionTokens.take (st.nSessionConsumed + st.matched) else st.sessionTokens) =
      st.sessionTokens := by
    rw [matched_of_done h, Nat.add_zero, List.take_of_length_le h, ite_self]
  rw [reused, hall, matched_of_done h]
  simp

/-- If a pending token is left, the session is used up. -/
theorem done_reused (h : st.matched < st.embd.length) : st.reused.Done := by
  rw [Done, reused]
  simp [h]

theorem done_decoded (h : st.matched < st.embd.length) : st.decoded.Done := done_reused h

theorem reuseLoop_eq {ts : List Token} (h : st.nSessionConsumed < st.sessionTokens.length) :
    reuseLoop ts st =
      (reuses st.nPast (ts.take { st with embd := ts }.matched), { st with embd := ts }.reused) := by
  induction ts generalizing st with
  | nil => simp [reuseLoop, reuses, reused, matched, nMatching_nil_right]
  | cons t ts ih =>
    have hget : st.sessionTokens[st.nSessionConsumed]? =
        some st.sessionTokens[st.nSessionConsumed] := List.getElem?_eq_getElem h
    have hmatched : nMatching (st.sessionTokens.drop st.nSessionConsumed) (t :: ts) =
        if st.sessionTokens[st.nSessionConsumed] = t then
          nMatching (st.sessionTokens.drop (st.nSessionConsumed + 1)) ts + 1 else 0 := by
      rw [List.drop_eq_getElem_cons h, nMatching]
    rw [reuseLoop, hget]
    dsimp only
    split_ifs with hne hend
    · rw [if_neg (Ne.symm hne)] at hmatched
      simp [reused, matched, hmatched, reuses]
    · rw [if_pos (Eq.symm (not_not.mp hne)), List.drop_eq_nil_of_le hend, nMatching_nil_left]
        at hmatched
      simp [reused, matched, hmatched, reuses, List.take_of_length_le hend]
    · rw [if_pos (Eq.symm (not_not.mp hne))] at hmatched
      rw [ih (Nat.lt_of_not_le hend)]
      simp [reused, matched, hmatched, reuses, add_assoc, Nat.add_comm 1, add_comm (1 : ℤ)]

theorem reusePrefix_eq : st.reusePrefix = (reuses st.nPast (st.embd.take st.matched), st.reused) := by
  unfold reusePrefix
  split_ifs with h
  · exact reuseLoop_eq h
  · have hdone : st.Done := Nat.le_of_not_lt h
    rw [reused_of_done hdone, matched_of_done hdone]
    rfl

/-- What is pending fits into one batch. -/
theorem eval_eq (hne : st.embd ≠ []) (hle : st.embd.length ≤ p.nBatch) :
    st.eval p inp = ([.decode st.nPast st.embd.length st.cache],
      if inp.fails 0 then none
      else some { st with
        nPast := st.nPast + st.embd.length
        cache := st.cache.put st.nPast st.embd.length }) := by
  obtain ⟨n, hn⟩ := Nat.exists_eq_succ_of_ne_zero (List.length_pos_iff.mpr hne).ne'
  have hend : ∀ nPast c, decodeLoop p.nBatch inp.fails (n + 1) n (0 + p.nBatch) nPast c =
      ([], some (nPast, c)) := by
    intro nPast c
    cases n with
    | zero => rfl
    | succ n => rw [decodeLoop, if_neg (by omega)]
  have hmin : min p.nBatch (n + 1 - 0) = n + 1 := by omega
  rw [eval, hn, Nat.succ_eq_add_one, decodeLoop, if_pos (Nat.succ_pos n)]
  simp only [hmin, hend]
  split_ifs <;> rfl

theorem eval_nil (h : st.embd = []) : st.eval p inp = ([], some st) := by
  obtain ⟨nPast, embd, embdInp, nConsumed, sessionTokens, nSessionConsumed⟩ := st
  cases h
  rfl

/-- All pending tokens are the next ones of the session. -/
theorem feed_of_all (h : st.matched = st.embd.length) :
    st.feed p inp = (reuses st.nPast st.embd, some st.reused) := by
  have hnil : st.reused.embd = [] := by
    rw [reused]
    simp [h]
  have hrecord : st.reused.record = st.reused := by
    rw [record, if_neg (by simp [hnil])]
  rw [feed, reusePrefix_eq]
  simp [eval_nil hnil, hrecord, h]

/-- Some are not, and are decoded in one batch. -/
theorem feed_of_some (h : st.matched < st.embd.length) (hle : st.embd.length ≤ p.nBatch) :
    st.feed p inp =
      (reuses st.nPast (st.embd.take st.matched) ++
        [.decode (st.nPast + st.matched) (st.embd.length - st.matched) st.cache],
      if inp.fails 0 then none
      else some st.decoded.record) := by
  have hembd : st.reused.embd = st.embd.drop st.matched := rfl
  have hlen : st.reused.embd.length = st.embd.length - st.matched := by rw [hembd, List.length_drop]
  have hne : st.reused.embd ≠ [] := List.ne_nil_of_length_pos (by omega)
  have hpast : st.reused.nPast + ((st.embd.length - st.matched : ℕ) : ℤ) =
      st.nPast + st.embd.length := by
    have hreused : st.reused.nPast = st.nPast + st.matched := rfl
    omega
  rw [feed, reusePrefix_eq]
  dsimp only
  rw [eval_eq hne (by omega), hlen, hpast]
  split_ifs <;> rfl

/-- Where the session is used up, all of them are. -/
theorem feed_of_done (h : st.Done) (hne : st.embd ≠ []) (hle : st.embd.length ≤ p.nBatch) :
    st.feed p inp = ([.decode st.nPast st.embd.length st.cache],
      if inp.fails 0 then none else some st.decoded.record) := by
  have hzero := matched_of_done h
  rw [feed_of_some (by rw [hzero]; exact List.length_pos_iff.mpr hne) hle, hzero]
  simp [reuses]

/-- Recording what was decoded changes what is known of the session only, which is then
used up. -/
theorem decoded_record (h : st.matched < st.embd.length) : ∃ ts n,
    st.decoded.record = { st.decoded with sessionTokens := ts, nSessionConsumed := n } ∧
      Done { st.decoded with sessionTokens := ts, nSessionConsumed := n } := by
  have hdone := done_decoded h
  unfold record
  split_ifs
  · exact ⟨_, _, rfl, le_rfl⟩
  · exact ⟨_, _, rfl, hdone⟩

/-- What is pending next is one batch, and nothing is known of the session or the cache. -/
theorem next_eq : ∃ embd n embdInp, (st.next p inp).append inp =
    { st with embd := embd, nConsumed := n, embdInp := embdInp } ∧ embd.length ≤ p.nBatch := by
  have hnext : ∃ embd n, st.next p inp = { st with embd := embd, nConsumed := n } ∧
      embd.length ≤ p.nBatch := by
    unfold next
    split_ifs
    · exact ⟨_, _, rfl, p.nBatch_pos⟩
    · exact ⟨_, _, rfl, List.length_take_le _ _⟩
  obtain ⟨embd, n, heq, hle⟩ := hnext
  rw [heq]
  unfold append
  split_ifs
  · exact ⟨embd, n, _, rfl, hle⟩
  · exact ⟨embd, n, _, rfl, hle⟩

theorem predict_nil (h : st.embd = []) : st.predict p inp = ([], some st) := if_pos h

theorem truncate_eq (h : (st.embd.length : ℤ) ≤ p.nCtx - 4) : st.truncate p = st := by
  rw [truncate, List.take_of_length_le (by omega)]

theorem truncate_ne_nil (hctx : 5 ≤ p.nCtx) (hne : st.embd ≠ []) : (st.truncate p).embd ≠ [] := by
  have hlen := List.length_pos_iff.mpr hne
  refine List.ne_nil_of_length_pos ?_
  rw [truncate]
  dsimp only
  rw [List.length_take]
  omega

/-- Where there is room, the pending tokens are fed. -/
theorem predict_of_not_full (hne : st.embd ≠ []) (hle : (st.embd.length : ℤ) ≤ p.nCtx - 4)
    (hfull : ¬ st.Full p) : st.predict p inp = st.feed p inp := by
  rw [predict, if_neg hne, truncate_eq hle, if_neg hfull]

end State

end Lac
end IntegratedCLI
