import IntegratedCLI.Lib.Occurrences

/-!
# Regular expressions that backtrack

An expression matches a text in several ways, and the order that they are tried in is part of what
it means: `ways r s` are these ways in that order, and a search takes the first one at the first
place where there is any.  A lazy repetition tries to end before it goes on.

The result is about what stands between two delimiters, `between l r`: with a lazy repetition this
is found by two plain searches, `search_between`.  So the matches that follow each other cut a text
into pieces, `Fenced`, in exactly one way: `fenced_iff`.  What goes on in some characters up to a
place where another delimiter is ahead, `upTo`, is not found where there is no such piece of text.
-/

variable {α : Type*}

/-- The constructors are those of a literal character class, of juxtaposition, of `*?`, of a
lookahead and of a group that is captured. -/
inductive Regex (α : Type*) where
  | empty
  | char (p : α → Bool)
  | seq (r t : Regex α)
  | lazyStar (r : Regex α)
  | ahead (r : Regex α)
  | group (r : Regex α)

namespace Regex

open Occurrences

/-- What is matched, what the group has captured, and what follows. -/
structure Match (α : Type*) where
  text : List α
  captured : Option (List α)
  rest : List α

/-- One match behind the other. -/
def Match.next (m m' : Match α) : Match α :=
  ⟨m.text ++ m'.text, m'.captured <|> m.captured, m'.rest⟩

/-- To end comes before a further match, which must not be empty. -/
def lazyLoop (f : List α → List (Match α)) : ℕ → List α → List (Match α)
  | 0, s => [⟨[], none, s⟩]
  | n + 1, s => ⟨[], none, s⟩ :: (f s).flatMap fun m =>
      if m.text.isEmpty then [] else (lazyLoop f n m.rest).map m.next

/-- The ways to match the start of a text. -/
def ways : Regex α → List α → List (Match α)
  | empty, s => [⟨[], none, s⟩]
  | char _, [] => []
  | char p, x :: s => if p x then [⟨[x], none, s⟩] else []
  | seq r t, s => (r.ways s).flatMap fun m => (t.ways m.rest).map m.next
  | lazyStar r, s => lazyLoop r.ways s.length s
  | ahead r, s => if (r.ways s).isEmpty then [] else [⟨[], none, s⟩]
  | group r, s => (r.ways s).map fun m => { m with captured := some m.text }

/-- The first match. -/
def search (r : Regex α) : List α → Option (Match α)
  | [] => (r.ways []).head?
  | x :: s => (r.ways (x :: s)).head? <|> search r s

def searchLoop (r : Regex α) : ℕ → List α → List (Match α)
  | 0, _ => []
  | n + 1, s =>
    match search r s with
    | none => []
    | some m => m :: searchLoop r n m.rest

/-- The matches one after the other, of an expression that does not match the empty text. -/
def searchAll (r : Regex α) (s : List α) : List (Match α) := searchLoop r s.length s

def lit [DecidableEq α] (d : List α) : Regex α := d.foldr (fun c => seq (char (· = c))) empty

/-- Anything between two delimiters, as little as there can be. -/
def between [DecidableEq α] (l r : List α) : Regex α :=
  seq (lit l) (seq (group (lazyStar (char fun _ => true))) (lit r))

/-- A delimiter and what follows it, as little as there can be, up to another one. -/
def upTo [DecidableEq α] (l : List α) (p : α → Bool) (r : List α) : Regex α :=
  seq (lit l) (seq (lazyStar (char p)) (ahead (lit r)))

/-! ## Literals and repetitions -/

theorem lazyLoop_char (p : α → Bool) {n : ℕ} (s : List α) (hn : s.length ≤ n) :
    lazyLoop (char p).ways n s =
      (List.range ((s.takeWhile p).length + 1)).map fun i => ⟨s.take i, none, s.drop i⟩ := by
  induction s generalizing n with
  | nil => cases n <;> rfl
  | cons x s ih =>
    obtain ⟨n, rfl⟩ := Nat.exists_eq_succ_of_ne_zero (Nat.ne_zero_of_lt hn)
    rw [lazyLoop, ways, List.range_succ_eq_map, List.map_cons, List.map_map]
    by_cases hx : p x = true
    · rw [if_pos hx, List.flatMap_singleton, List.takeWhile_cons_of_pos hx, List.length_cons,
        ih (Nat.le_of_succ_le_succ hn)]
      show _ :: List.map (Match.next _) _ = _
      rw [List.map_map]
      rfl
    · rw [if_neg hx, List.takeWhile_cons_of_neg hx]
      rfl

/-- **A lazy repetition** ends at every place that it can reach, the first one first. -/
theorem ways_lazyStar_char (p : α → Bool) (s : List α) : (lazyStar (char p)).ways s =
    (List.range ((s.takeWhile p).length + 1)).map fun i => ⟨s.take i, none, s.drop i⟩ :=
  lazyLoop_char p s (Nat.le_refl _)

theorem head?_flatMap_ite {β γ : Type*} {P : β → Prop} [DecidablePred P] (f : β → γ)
    (xs : List β) :
    (xs.flatMap fun i => if P i then [f i] else []).head? = (xs.find? (P ·)).map f := by
  induction xs with
  | nil => rfl
  | cons x xs ih =>
    rw [List.flatMap_cons, List.find?_cons]
    by_cases hx : P x
    · rw [if_pos hx, decide_eq_true hx]
      rfl
    · rw [if_neg hx, decide_eq_false hx, List.nil_append]
      exact ih

section Ways

variable [DecidableEq α] {l r : List α}

theorem ways_lit (d s : List α) :
    (lit d).ways s = if d <+: s then [⟨d, none, s.drop d.length⟩] else [] := by
  induction d generalizing s with
  | nil =>
    rw [if_pos s.nil_prefix]
    rfl
  | cons c d ih =>
    show (seq (char (· = c)) (lit d)).ways s = _
    cases s with
    | nil =>
      rw [if_neg fun h => List.cons_ne_nil c d (List.prefix_nil.mp h)]
      rfl
    | cons x s =>
      rw [ways, ways]
      by_cases hx : x = c
      · rw [if_pos (decide_eq_true hx), List.flatMap_singleton, ih, hx, List.length_cons,
          List.drop_succ_cons]
        by_cases hd : d <+: s
        · rw [if_pos hd, if_pos ((List.prefix_cons_inj c).mpr hd)]
          rfl
        · rw [if_neg hd, if_neg (mt (List.prefix_cons_inj c).mp hd)]
          rfl
      · rw [if_neg (by simpa using hx), if_neg fun h => hx (List.cons_prefix_cons.mp h).1.symm]
        rfl

/-! ## Searches -/

/-- To match at the start, and then to find the other delimiter. -/
theorem head?_ways_between (s : List α) : ((between l r).ways s).head? =
    if l <+: s then (find r (s.drop l.length)).map fun q =>
      ⟨l ++ ((s.drop l.length).take q ++ r), some ((s.drop l.length).take q),
        s.drop (l.length + (q + r.length))⟩
    else none := by
  rw [between, ways, ways_lit]
  by_cases hl : l <+: s
  · rw [if_pos hl, if_pos hl, List.flatMap_singleton, List.head?_map, ways, ways,
      ways_lazyStar_char, List.map_map, List.flatMap_map]
    have htake : ((s.drop l.length).takeWhile fun _ => true) = s.drop l.length := by simp
    rw [htake]
    have hinner : ∀ i, ((lit r).ways ((s.drop l.length).drop i)).map
        (Match.next ⟨(s.drop l.length).take i, some ((s.drop l.length).take i),
          (s.drop l.length).drop i⟩) =
        if r <+: (s.drop l.length).drop i then [⟨(s.drop l.length).take i ++ r,
          some ((s.drop l.length).take i), ((s.drop l.length).drop i).drop r.length⟩] else [] := by
      intro i
      rw [ways_lit]
      split
      · rfl
      · rfl
    simp only [Function.comp_def, hinner]
    rw [head?_flatMap_ite, ← find_eq_find?, Option.map_map]
    refine congrArg (Option.map · _) (funext fun q => ?_)
    simp only [Function.comp_def, Match.next, List.drop_drop, Nat.add_assoc]
    rfl
  · rw [if_neg hl, if_neg hl]
    rfl

/-- **Two plain searches** find what stands between the delimiters. -/
theorem search_between (s : List α) : search (between l r) s =
    (find l s).bind fun p => (find r (s.drop (p + l.length))).map fun q =>
      ⟨l ++ ((s.drop (p + l.length)).take q ++ r), some ((s.drop (p + l.length)).take q),
        s.drop (p + (l.length + (q + r.length)))⟩ := by
  induction s with
  | nil =>
    rw [search, head?_ways_between, find]
    by_cases hl : l = []
    · simp [hl]
    · rw [if_neg (mt List.prefix_nil.mp hl), if_neg hl]
      rfl
  | cons x s ih =>
    rw [search, head?_ways_between, find]
    by_cases hl : l <+: x :: s
    · rw [if_pos hl, if_pos hl, Option.bind_some]
      simp only [Nat.zero_add]
      cases hr : find r ((x :: s).drop l.length) with
      | some q => rfl
      | none =>
        -- Without the other delimiter here there is none behind a later place either.
        have hnone : ∀ p, find r (s.drop (p + l.length)) = none := by
          intro p
          have hsuffix : s.drop (p + l.length) <:+ (x :: s).drop l.length := by
            have hdrop : s.drop (p + l.length) = ((x :: s).drop l.length).drop (p + 1) := by
              rw [List.drop_drop, Nat.add_comm p, ← Nat.add_assoc, List.drop_succ_cons]
            rw [hdrop]
            exact List.drop_suffix _ _
          exact find_eq_none_iff.mpr fun h => find_eq_none_iff.mp hr (h.trans hsuffix.isInfix)
        rw [ih]
        simp [hnone]
    · rw [if_neg hl, if_neg hl]
      show search (between l r) s = _
      rw [ih]
      cases find l s with
      | none => rfl
      | some p =>
        have hdrop : ∀ n, (x :: s).drop (p + 1 + n) = s.drop (p + n) := fun n => by
          rw [Nat.add_right_comm, List.drop_succ_cons]
        simp only [Option.map_some, Option.bind_some, hdrop]

/-! ## What is ahead -/

omit [DecidableEq α] in
/-- Nothing is found if there is no match at any place. -/
theorem search_eq_none_iff {t : Regex α} {s : List α} :
    search t s = none ↔ ∀ before after, s = before ++ after → t.ways after = [] := by
  induction s with
  | nil =>
    rw [search, List.head?_eq_none_iff]
    constructor
    · rintro h before after hs
      rw [(List.append_eq_nil_iff.mp hs.symm).2, h]
    · exact fun h => h [] [] rfl
  | cons x s ih =>
    rw [search, Option.orElse_eq_orElse, Option.orElse_eq_or, Option.or_eq_none_iff,
      List.head?_eq_none_iff, ih]
    constructor
    · rintro ⟨hhere, hlater⟩ before after hs
      cases before with
      | nil =>
        rw [List.nil_append] at hs
        exact hs ▸ hhere
      | cons y before => exact hlater before after (List.cons_eq_cons.mp hs).2
    · refine fun h => ⟨h [] _ rfl, fun before after hs => h (x :: before) after ?_⟩
      rw [hs, List.cons_append]

theorem ways_ahead_eq_nil_iff {p : α → Bool} {s : List α} :
    (seq (lazyStar (char p)) (ahead (lit r))).ways s = [] ↔
      ∀ line after, s = line ++ (r ++ after) → ∃ c ∈ line, p c = false := by
  rw [ways, ways_lazyStar_char, List.flatMap_map, List.flatMap_eq_nil_iff]
  simp only [List.mem_range, List.map_eq_nil_iff, ways, ways_lit]
  constructor
  · rintro h line after rfl
    by_contra! hline
    have hall : ∀ c ∈ line, p c = true := fun c hc => by simpa using hline c hc
    have hat := h line.length (by
      rw [List.takeWhile_append_of_pos hall, List.length_append]
      omega)
    rw [List.drop_left, if_pos (List.prefix_append r after)] at hat
    exact List.cons_ne_nil _ _ hat
  · intro h i hi
    by_cases hr : r <+: s.drop i
    · obtain ⟨after, hafter⟩ := hr
      obtain ⟨c, hc, hp⟩ := h (s.take i) after (by rw [hafter, List.take_append_drop])
      have hle := List.take_prefix_take_left (l := s) (Nat.le_of_lt_succ hi)
      rw [← List.prefix_iff_eq_take.mp (List.takeWhile_prefix p)] at hle
      have hpos := List.mem_takeWhile_imp (hle.subset hc)
      exact absurd (hp.symm.trans hpos) Bool.false_ne_true
    · rw [if_neg hr]
      rfl

theorem search_upTo_eq_none_iff {p : α → Bool} {s : List α} : search (upTo l p r) s = none ↔
    ∀ before line after, s = before ++ (l ++ (line ++ (r ++ after))) → ∃ c ∈ line, p c = false := by
  rw [search_eq_none_iff]
  constructor
  · rintro h before line after rfl
    have hat := h before _ rfl
    rw [upTo, ways, ways_lit, if_pos (List.prefix_append l _), List.flatMap_singleton,
      List.map_eq_nil_iff, List.drop_left, ways_ahead_eq_nil_iff] at hat
    exact hat line after rfl
  · rintro h before after rfl
    rw [upTo, ways, ways_lit]
    by_cases hl : l <+: after
    · obtain ⟨after, rfl⟩ := hl
      rw [if_pos (List.prefix_append l _), List.flatMap_singleton, List.map_eq_nil_iff,
        List.drop_left, ways_ahead_eq_nil_iff]
      rintro line after rfl
      exact h before line after rfl
    · rw [if_neg hl]
      rfl

end Ways

/-! ## The pieces of a text -/

section Fenced

variable [DecidableEq α] {l r s : List α} {bodies : List (List α)}

/-- The text is cut into what stands outside the delimiters, up to the first of them, and the
bodies between a delimiter and the first other one behind it. -/
inductive Fenced (l r : List α) : List α → List (List α) → Prop
  | plain {s : List α} (h : ∀ before body after, s ≠ before ++ (l ++ (body ++ (r ++ after)))) :
    Fenced l r s []
  | block {before body s : List α} {bodies : List (List α)}
    (hbefore : find l (before ++ l) = some before.length)
    (hbody : find r (body ++ r) = some body.length) (h : Fenced l r s bodies) :
    Fenced l r (before ++ (l ++ (body ++ (r ++ s)))) (body :: bodies)

/-- What the groups of the matches have captured. -/
def bodiesOf (l r s : List α) : List (List α) :=
  (searchAll (between l r) s).map fun m => m.captured.getD []

theorem search_between_eq_none_iff : search (between l r) s = none ↔
    ∀ before body after, s ≠ before ++ (l ++ (body ++ (r ++ after))) := by
  rw [search_between]
  constructor
  · rintro h before body after rfl
    have hat : l <+: (before ++ (l ++ (body ++ (r ++ after)))).drop before.length := by
      rw [List.drop_left]
      exact List.prefix_append l _
    obtain ⟨p, hp, hle⟩ := find_le_of_prefix_drop hat
    rw [hp, Option.bind_some, Option.map_eq_none_iff, find_eq_none_iff] at h
    refine h (List.IsInfix.trans ⟨body, after, rfl⟩ (List.IsSuffix.isInfix ?_))
    -- The first delimiter is not behind this one.
    have hdrop : body ++ r ++ after = ((before ++ (l ++ (body ++ (r ++ after)))).drop
        (p + l.length)).drop (before.length - p) := by
      rw [List.drop_drop, Nat.add_right_comm, Nat.add_sub_cancel' hle, ← List.drop_drop,
        List.drop_left, List.drop_left, List.append_assoc]
    rw [hdrop]
    exact List.drop_suffix _ _
  · intro h
    cases hp : find l s with
    | none => rfl
    | some p =>
      rw [Option.bind_some, Option.map_eq_none_iff]
      cases hq : find r (s.drop (p + l.length)) with
      | none => rfl
      | some q =>
        have hs := split_of_find hp
        rw [split_of_find hq] at hs
        exact absurd hs (h _ _ _)

theorem search_block {before body : List α} (hbefore : find l (before ++ l) = some before.length)
    (hbody : find r (body ++ r) = some body.length) (s : List α) :
    search (between l r) (before ++ (l ++ (body ++ (r ++ s)))) =
      some ⟨l ++ (body ++ r), some body, s⟩ := by
  have hl := find_append hbefore (body ++ (r ++ s))
  have hr := find_append hbody s
  rw [List.append_assoc] at hl hr
  have hbehind : (before ++ (l ++ (body ++ (r ++ s)))).drop (before.length + l.length) =
      body ++ (r ++ s) := by
    rw [← List.drop_drop, List.drop_left, List.drop_left]
  have hrest : (before ++ (l ++ (body ++ (r ++ s)))).drop
      (before.length + (l.length + (body.length + r.length))) = s := by
    rw [← Nat.add_assoc, ← List.drop_drop, hbehind, ← List.drop_drop, List.drop_left,
      List.drop_left]
  rw [search_between, hl, Option.bind_some, hbehind, hr, Option.map_some, hrest, List.take_left]

/-- Each match leaves less of the text. -/
theorem Fenced.searchLoop_eq (hl : l ≠ []) (h : Fenced l r s bodies) {n : ℕ}
    (hn : s.length ≤ n) :
    (searchLoop (between l r) n s).map (fun m => m.captured.getD []) = bodies := by
  induction h generalizing n with
  | plain h =>
    cases n with
    | zero => rfl
    | succ n => rw [searchLoop, search_between_eq_none_iff.mpr h, List.map_nil]
  | @block before body s bodies hbefore hbody _ ih =>
    have hpos : 0 < l.length := List.length_pos_iff.mpr hl
    simp only [List.length_append] at hn
    obtain ⟨n, rfl⟩ := Nat.exists_eq_succ_of_ne_zero (show n ≠ 0 by omega)
    rw [searchLoop, search_block hbefore hbody, List.map_cons, ih (by omega)]
    rfl

theorem exists_fenced (hl : l ≠ []) (s : List α) : ∃ bodies, Fenced l r s bodies := by
  have hpos : 0 < l.length := List.length_pos_iff.mpr hl
  induction hn : s.length using Nat.strong_induction_on generalizing s with
  | _ n ih =>
    subst hn
    cases hs : search (between l r) s with
    | none => exact ⟨[], .plain (search_between_eq_none_iff.mp hs)⟩
    | some m =>
      rw [search_between] at hs
      obtain ⟨p, hp, hs⟩ := Option.bind_eq_some_iff.mp hs
      obtain ⟨q, hq, -⟩ := Option.map_eq_some_iff.mp hs
      have hple := find_le hp
      have hqle := find_le hq
      rw [List.length_drop] at hqle
      have hsplit := split_of_find hp
      have hsplit' := split_of_find hq
      obtain ⟨bodies, hrest⟩ := ih ((s.drop (p + l.length)).drop (q + r.length)).length
        (by simp only [List.length_drop]; omega) _ rfl
      have hbefore : find l (s.take p ++ l) = some (s.take p).length := by
        rw [hsplit, ← List.append_assoc] at hp
        rw [List.length_take, Nat.min_eq_left (by omega)]
        refine find_of_append hp ?_
        rw [List.length_append, List.length_take]
        omega
      have hbody : find r ((s.drop (p + l.length)).take q ++ r) =
          some ((s.drop (p + l.length)).take q).length := by
        have hlen : ((s.drop (p + l.length)).take q).length = q := by
          rw [List.length_take, List.length_drop]
          omega
        rw [hsplit', ← List.append_assoc] at hq
        rw [hlen]
        exact find_of_append hq (by rw [List.length_append, hlen])
      rw [hsplit, hsplit']
      exact ⟨_, .block hbefore hbody hrest⟩

/-- **The matches are what cuts the text into pieces**, and every text is cut so in one way. -/
theorem fenced_iff (hl : l ≠ []) : Fenced l r s bodies ↔ bodiesOf l r s = bodies := by
  constructor
  · exact fun h => h.searchLoop_eq hl (Nat.le_refl _)
  · rintro rfl
    obtain ⟨bodies, h⟩ := exists_fenced (r := r) hl s
    have hbodies := h.searchLoop_eq hl (Nat.le_refl _)
    rw [bodiesOf, searchAll, hbodies]
    exact h

/-- There is no delimiter within what stands in front of the first one. -/
theorem not_infix_of_find {body : List α} (hr : r ≠ [])
    (h : find r (body ++ r) = some body.length) : ¬ r <:+: body := by
  rintro ⟨before, after, rfl⟩
  have hpos : 0 < r.length := List.length_pos_iff.mpr hr
  have hat : r <+: (before ++ r ++ after ++ r).drop before.length := by
    rw [List.append_assoc, List.append_assoc, List.drop_left]
    exact List.prefix_append r _
  obtain ⟨p, hp, hle⟩ := find_le_of_prefix_drop hat
  rw [h, Option.some_inj] at hp
  simp only [List.length_append] at hp
  omega

theorem Fenced.not_infix_of_mem {body : List α} (hr : r ≠ []) (h : Fenced l r s bodies)
    (hbody : body ∈ bodies) : ¬ r <:+: body := by
  induction h with
  | plain => cases hbody
  | block _ hfind _ ih =>
    rcases List.mem_cons.mp hbody with rfl | hbody
    · exact not_infix_of_find hr hfind
    · exact ih hbody

end Fenced

end Regex
