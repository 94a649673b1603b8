import Mathlib.Data.Finset.Interval
import Mathlib.Data.List.TakeWhile
import Mathlib.Order.Interval.Finset.Nat

/-!
# Lists of CPUs

`parseCpusRange` and `parseCpusList` of `System.cpp`, which read a text as `0-3,8` into a set
of CPUs.  A text is a list of characters.  The streams that the text is read from are the text
that is left of them.

The grammar is the one that the code is documented with (`CpuRange`, `CpuList`).  The parser
reads what the grammar has (`CpuList.parse`).  It also reads what the grammar does not have,
since a conversion takes the number at the front of a piece and leaves the rest, since the ids
that do not fit are dropped, and since a piece may be empty.  A text that is not in the grammar
is refused just if one of its pieces is (`parseCpusList_iff`).

The loop over a range counts in 64 bits.  It takes fuel, and never ends where the last CPU of
the range is the last number there is.
-/

namespace IntegratedCLI
namespace Common

/-! ## Sets of CPUs -/

/-- The number of bits of a `cpu_set_t`. -/
def CPU_SETSIZE : ℕ := 1024

structure CpuSetT where
  cpus : Finset ℕ
  lt : ∀ c ∈ cpus, c < CPU_SETSIZE

namespace CpuSetT

/-- `CPU_ZERO`. -/
def zero : CpuSetT := ⟨∅, fun _ h => nomatch h⟩

/-- `CPU_SET`, which does nothing for a CPU that there is no bit for. -/
def set (c : ℕ) (s : CpuSetT) : CpuSetT :=
  if h : c < CPU_SETSIZE then
    ⟨insert c s.cpus, fun d hd => (Finset.mem_insert.mp hd).elim (fun hdc => hdc ▸ h) (s.lt d)⟩
  else s

/-- `CPU_OR`. -/
def or (s t : CpuSetT) : CpuSetT :=
  ⟨s.cpus ∪ t.cpus, fun c hc => (Finset.mem_union.mp hc).elim (s.lt c) (t.lt c)⟩

def isset (c : ℕ) (s : CpuSetT) : Bool := decide (c ∈ s.cpus)

theorem ext {s t : CpuSetT} (h : s.cpus = t.cpus) : s = t := by
  cases s
  cases t
  cases h
  rfl

theorem zero_or (s : CpuSetT) : zero.or s = s := ext (Finset.empty_union s.cpus)

theorem or_assoc (s t u : CpuSetT) : (s.or t).or u = s.or (t.or u) :=
  ext (Finset.union_assoc s.cpus t.cpus u.cpus)

theorem mem_set {c d : ℕ} {s : CpuSetT} :
    d ∈ (s.set c).cpus ↔ d ∈ s.cpus ∨ d = c ∧ d < CPU_SETSIZE := by
  unfold set
  split
  · rename_i hlt
    have hiff : d = c ↔ d = c ∧ d < CPU_SETSIZE := ⟨fun hdc => ⟨hdc, hdc ▸ hlt⟩, And.left⟩
    rw [Finset.mem_insert, or_comm, ← hiff]
  · rename_i hge
    have hnot : ¬ (d = c ∧ d < CPU_SETSIZE) := fun hdc => hge (hdc.1 ▸ hdc.2)
    exact (or_iff_left hnot).symm

/-- The CPUs from `a` to `b` that there are bits for. -/
def range (a b : ℕ) : CpuSetT :=
  ⟨(Finset.Icc a b).filter (· < CPU_SETSIZE), fun _ hc => (Finset.mem_filter.mp hc).2⟩

theorem mem_range {a b d : ℕ} : d ∈ (range a b).cpus ↔ (a ≤ d ∧ d ≤ b) ∧ d < CPU_SETSIZE := by
  rw [range, Finset.mem_filter, Finset.mem_Icc]

end CpuSetT

/-! ## Texts -/

/-- What the parser throws, and that it has not ended yet. -/
inductive ParseError where
  /-- There is no number at the front of a text. -/
  | invalidArgument
  | outOfRange
  | illFormedRange (str : List Char)
  | outOfFuel
  deriving DecidableEq, Repr

def isspace (c : Char) : Bool := c == ' ' || decide (9 ≤ c.toNat ∧ c.toNat ≤ 13)

def removeBlanks (s : List Char) : List Char := s.filter fun c => !isspace c

/-- What `getline` reads off a stream, and what it leaves of it. -/
structure Line where
  text : List Char
  rest : List Char
  eof : Bool

def getline (delim : Char) (s : List Char) : Line :=
  match s.dropWhile (· != delim) with
  | [] => ⟨s, [], true⟩
  | _ :: rest => ⟨s.takeWhile (· != delim), rest, false⟩

/-- An `unsigned long` has 64 bits. -/
def ULONG_MAX : ℕ := 2 ^ 64 - 1

/-- The number of some digits.  A negative number is counted down from zero. -/
def ofDigits (negative : Bool) (digits : List Char) : Except ParseError ℕ :=
  if digits = [] then .error .invalidArgument
  else if ULONG_MAX < Nat.ofDigitChars 10 digits 0 then .error .outOfRange
  else if negative then .ok ((2 ^ 64 - Nat.ofDigitChars 10 digits 0) % 2 ^ 64)
  else .ok (Nat.ofDigitChars 10 digits 0)

/-- The number at the front of a text, which may have a sign. -/
def stoul (s : List Char) : Except ParseError ℕ :=
  let s := s.dropWhile isspace
  if s.head? = some '-' then ofDigits true (s.tail.takeWhile Char.isDigit)
  else if s.head? = some '+' then ofDigits false (s.tail.takeWhile Char.isDigit)
  else ofDigits false (s.takeWhile Char.isDigit)

/-! ## The parser -/

/-- The loop of a range. -/
def setCpus (cpuEnd : ℕ) : ℕ → ℕ → CpuSetT → Except ParseError CpuSetT
  | 0, _, _ => .error .outOfFuel
  | fuel + 1, c, cpus =>
    if c ≤ cpuEnd then setCpus cpuEnd fuel ((c + 1) % 2 ^ 64) (cpus.set c) else .ok cpus

def parseCpusRange (fuel : ℕ) (cpuRangeStr : List Char) : Except ParseError CpuSetT :=
  let cpuRangeStr := removeBlanks cpuRangeStr
  if cpuRangeStr = [] then .ok CpuSetT.zero
  else
    let line := getline '-' cpuRangeStr
    match stoul line.text with
    | .error e => .error e
    | .ok cpuStart =>
      if line.eof then .ok (CpuSetT.zero.set cpuStart)
      else
        match stoul (getline '\n' line.rest).text with
        | .error e => .error e
        | .ok cpuEnd =>
          if cpuEnd ≤ cpuStart then .error (.illFormedRange cpuRangeStr)
          else setCpus cpuEnd fuel cpuStart CpuSetT.zero

theorem getline_of_notMem {delim : Char} {s : List Char} (h : delim ∉ s) :
    getline delim s = ⟨s, [], true⟩ := by
  have hall : s.dropWhile (· != delim) = [] := by
    rw [List.dropWhile_eq_nil_iff]
    rintro c hc
    refine bne_iff_ne.mpr ?_
    rintro rfl
    exact h hc
  rw [getline, hall]

theorem getline_append {delim : Char} {text : List Char} (rest : List Char) (h : delim ∉ text) :
    getline delim (text ++ delim :: rest) = ⟨text, rest, false⟩ := by
  have hall : ∀ c ∈ text, (c != delim) = true := by
    intro c hc
    refine bne_iff_ne.mpr ?_
    rintro rfl
    exact h hc
  have hstop : (delim != delim) = false := bne_self_eq_false delim
  have hdrop : (text ++ delim :: rest).dropWhile (· != delim) = delim :: rest := by
    rw [List.dropWhile_append_of_pos hall, List.dropWhile_cons, hstop, if_neg Bool.false_ne_true]
  have htake : (text ++ delim :: rest).takeWhile (· != delim) = text := by
    rw [List.takeWhile_append_of_pos hall, List.takeWhile_cons, hstop, if_neg Bool.false_ne_true,
      List.append_nil]
  rw [getline, hdrop, htake]

/-- A text has the delimiter, and is cut at the first one, or it does not have it. -/
theorem notMem_or_eq_append (delim : Char) (s : List Char) :
    delim ∉ s ∨ ∃ text rest, delim ∉ text ∧ s = text ++ delim :: rest := by
  by_cases h : delim ∈ s
  · obtain ⟨text, rest, hs, hnot⟩ := List.eq_append_cons_of_mem h
    exact Or.inr ⟨text, rest, hnot, hs⟩
  · exact Or.inl h

theorem length_rest_lt {delim : Char} {s : List Char} (h : (getline delim s).eof = false) :
    (getline delim s).rest.length < s.length := by
  rcases notMem_or_eq_append delim s with hnot | ⟨text, rest, hnot, rfl⟩
  · rw [getline_of_notMem hnot] at h
    cases h
  · rw [getline_append rest hnot, List.length_append, List.length_cons]
    dsimp only
    omega

/-- The loop over the pieces of a list, from the stream that is left. -/
def parsePieces (fuel : ℕ) (cpus : CpuSetT) (cpusStream : List Char) :
    Except ParseError CpuSetT :=
  match parseCpusRange fuel (getline ',' cpusStream).text with
  | .error e => .error e
  | .ok newCpus =>
    if _h : (getline ',' cpusStream).eof = false then
      parsePieces fuel (cpus.or newCpus) (getline ',' cpusStream).rest
    else .ok (cpus.or newCpus)
termination_by cpusStream.length
decreasing_by exact length_rest_lt _h

def parseCpusList (fuel : ℕ) (cpusStr : List Char) : Except ParseError CpuSetT :=
  parsePieces fuel CpuSetT.zero (removeBlanks cpusStr)

/-! ## The grammar -/

structure Unsigned (s : List Char) (value : ℕ) : Prop where
  ne_nil : s ≠ []
  digits : ∀ c ∈ s, c.isDigit = true
  value_eq : Nat.ofDigitChars 10 s 0 = value

/-- `CPU_RANGE := <unsigned> | <unsigned>-<unsigned>`, and its CPUs. -/
inductive CpuRange : List Char → Finset ℕ → Prop
  | single {s : List Char} {cpu : ℕ} (h : Unsigned s cpu) (hlt : cpu < CPU_SETSIZE) :
      CpuRange s {cpu}
  | range {s t : List Char} {first last : ℕ} (hfirst : Unsigned s first) (hlast : Unsigned t last)
      (hlt : first < last) (hsize : last < CPU_SETSIZE) :
      CpuRange (s ++ '-' :: t) (Finset.Icc first last)

/-- A list of ranges with commas between them. -/
inductive CpuList : List Char → Finset ℕ → Prop
  | last {s : List Char} {cpus : Finset ℕ} (h : CpuRange s cpus) : CpuList s cpus
  | cons {s t : List Char} {cpus rest : Finset ℕ} (h : CpuRange s cpus) (ht : CpuList t rest) :
      CpuList (s ++ ',' :: t) (cpus ∪ rest)

variable {s t : List Char} {value fuel a b c : ℕ} {cpus : Finset ℕ} {e : ParseError}

theorem not_isspace_of_isDigit {c : Char} (h : c.isDigit = true) : isspace c = false := by
  have hlow : 48 ≤ c.toNat := by
    rw [Char.isDigit, Bool.and_eq_true, decide_eq_true_iff] at h
    exact UInt32.le_iff_toNat_le.mp h.1
  rw [isspace, Bool.or_eq_false_iff, beq_eq_false_iff_ne, decide_eq_false_iff_not]
  refine ⟨?_, by omega⟩
  rintro rfl
  exact absurd hlow (by decide)

theorem Unsigned.notMem (h : Unsigned s value) {d : Char} (hd : d.isDigit = false) : d ∉ s := by
  intro hmem
  rw [h.digits d hmem] at hd
  cases hd

theorem Unsigned.not_isspace (h : Unsigned s value) : ∀ d ∈ s, isspace d = false :=
  fun d hd => not_isspace_of_isDigit (h.digits d hd)

/-- **A number is read** with nothing left of it. -/
theorem Unsigned.stoul (h : Unsigned s value) (hmax : value ≤ ULONG_MAX) :
    stoul s = .ok value := by
  obtain ⟨d, s', rfl⟩ := List.exists_cons_of_ne_nil h.ne_nil
  have hd := h.digits d List.mem_cons_self
  have hblank : (d :: s').dropWhile isspace = d :: s' := by
    rw [List.dropWhile_cons, h.not_isspace d List.mem_cons_self, if_neg Bool.false_ne_true]
  have hsign : ∀ c : Char, c.isDigit = false → ¬ (d :: s').head? = some c := by
    rintro c hc heq
    rw [List.head?_cons, Option.some_inj] at heq
    rw [← heq, hd] at hc
    cases hc
  have hminus := hsign '-' (by decide)
  have hplus := hsign '+' (by decide)
  have hall : (d :: s').takeWhile Char.isDigit = d :: s' := List.takeWhile_eq_self_iff.mpr h.digits
  unfold Common.stoul
  simp only [hblank, hminus, hplus, if_false, hall]
  rw [ofDigits, if_neg (List.cons_ne_nil d s'), h.value_eq, if_neg (Nat.not_lt.mpr hmax),
    if_neg Bool.false_ne_true]

theorem ofDigits_cases (negative : Bool) (digits : List Char) :
    (∃ value, ofDigits negative digits = .ok value ∧ value ≤ ULONG_MAX) ∨
      ∃ e, ofDigits negative digits = .error e ∧ e ≠ .outOfFuel := by
  unfold ofDigits
  split
  · exact Or.inr ⟨.invalidArgument, rfl, fun h => nomatch h⟩
  split
  · exact Or.inr ⟨.outOfRange, rfl, fun h => nomatch h⟩
  rename_i hle
  split
  · refine Or.inl ⟨_, rfl, ?_⟩
    rw [ULONG_MAX]
    omega
  · exact Or.inl ⟨_, rfl, Nat.le_of_not_lt hle⟩

/-- A conversion gives a number of 64 bits, or throws. -/
theorem stoul_cases (s : List Char) : (∃ value, stoul s = .ok value ∧ value ≤ ULONG_MAX) ∨
    ∃ e, stoul s = .error e ∧ e ≠ .outOfFuel := by
  unfold stoul
  dsimp only
  split
  · exact ofDigits_cases true _
  split
  · exact ofDigits_cases false _
  · exact ofDigits_cases false _

example : stoul ['-', '5', 'x'] = .ok (2 ^ 64 - 5) := by decide

/-! ## Ranges -/

/-- The loop ends after the last CPU of the range. -/
theorem setCpus_eq (hb : b < ULONG_MAX) (fuel c : ℕ) (cpus : CpuSetT) (hc : c ≤ b + 1)
    (hfuel : b + 2 ≤ fuel + c) :
    setCpus b fuel c cpus = .ok (cpus.or (CpuSetT.range c b)) := by
  induction fuel generalizing c cpus with
  | zero => omega
  | succ fuel ih =>
    rw [setCpus]
    split
    · rename_i hle
      have hmod : (c + 1) % 2 ^ 64 = c + 1 := by
        rw [ULONG_MAX] at hb
        exact Nat.mod_eq_of_lt (by omega)
      rw [hmod, ih (c + 1) (cpus.set c) (by omega) (by omega)]
      refine congrArg Except.ok (CpuSetT.ext (Finset.ext fun d => ?_))
      simp only [CpuSetT.or, Finset.mem_union, CpuSetT.mem_set, CpuSetT.mem_range]
      constructor
      · rintro ((hd | ⟨rfl, hlt⟩) | ⟨hd, hlt⟩)
        · exact Or.inl hd
        · exact Or.inr ⟨⟨Nat.le_refl d, hle⟩, hlt⟩
        · exact Or.inr ⟨⟨by omega, hd.2⟩, hlt⟩
      · rintro (hd | ⟨hd, hlt⟩)
        · exact Or.inl (Or.inl hd)
        · rcases Nat.eq_or_lt_of_le hd.1 with heq | hgt
          · exact Or.inl (Or.inr ⟨heq.symm, hlt⟩)
          · exact Or.inr ⟨⟨hgt, hd.2⟩, hlt⟩
    · rename_i hgt
      refine congrArg Except.ok (CpuSetT.ext (Finset.ext fun d => ?_))
      simp only [CpuSetT.or, Finset.mem_union, CpuSetT.mem_range]
      refine ⟨Or.inl, fun hd => hd.elim id fun hd => ?_⟩
      omega

/-- No number is above the last one that there is. -/
theorem setCpus_endless (fuel c : ℕ) (cpus : CpuSetT) (hc : c ≤ ULONG_MAX) :
    setCpus ULONG_MAX fuel c cpus = .error .outOfFuel := by
  induction fuel generalizing c cpus with
  | zero => rfl
  | succ fuel ih =>
    rw [setCpus, if_pos hc]
    refine ih _ _ ?_
    have hlt : (c + 1) % 2 ^ 64 < 2 ^ 64 := Nat.mod_lt _ (by decide)
    rw [ULONG_MAX]
    omega

/-! ## Pieces -/

/-- A text without blanks. -/
def Solid (s : List Char) : Prop := ∀ d ∈ s, isspace d = false

instance (s : List Char) : Decidable (Solid s) :=
  List.decidableBAll (fun d => isspace d = false) s

theorem removeBlanks_eq (h : Solid s) : removeBlanks s = s := by
  refine List.filter_eq_self.mpr fun d hd => ?_
  rw [h d hd]
  rfl

theorem solid_removeBlanks (s : List Char) : Solid (removeBlanks s) := fun d hd => by
  rw [removeBlanks, List.mem_filter, Bool.not_eq_true'] at hd
  exact hd.2

theorem parseCpusRange_single (hs : Solid s) (hne : s ≠ []) (hdash : '-' ∉ s) (fuel : ℕ) :
    parseCpusRange fuel s =
      match stoul s with
      | .error e => .error e
      | .ok cpuStart => .ok (CpuSetT.zero.set cpuStart) := by
  unfold parseCpusRange
  simp only [removeBlanks_eq hs, if_neg hne, getline_of_notMem hdash, if_true]

theorem parseCpusRange_range (hs : Solid (s ++ '-' :: t)) (hdash : '-' ∉ s) (fuel : ℕ) :
    parseCpusRange fuel (s ++ '-' :: t) =
      match stoul s with
      | .error e => .error e
      | .ok cpuStart =>
        match stoul t with
        | .error e => .error e
        | .ok cpuEnd =>
          if cpuEnd ≤ cpuStart then .error (.illFormedRange (s ++ '-' :: t))
          else setCpus cpuEnd fuel cpuStart CpuSetT.zero := by
  have hne : s ++ '-' :: t ≠ [] := List.append_ne_nil_of_right_ne_nil s (List.cons_ne_nil _ t)
  have hnewline : '\n' ∉ t := by
    intro hmem
    have hblank := hs '\n' (List.mem_append_right s (List.mem_cons_of_mem _ hmem))
    exact absurd hblank (by decide)
  unfold parseCpusRange
  simp only [removeBlanks_eq hs, if_neg hne, getline_append t hdash, getline_of_notMem hnewline,
    Bool.false_eq_true, if_false]

/-- A piece that is refused: there is no number where one is read, or one that does not fit,
or the last CPU is not after the first. -/
inductive Refused : List Char → Prop
  | single {s : List Char} {e : ParseError} (hne : s ≠ []) (hdash : '-' ∉ s)
      (h : stoul s = .error e) : Refused s
  | start {s t : List Char} {e : ParseError} (hdash : '-' ∉ s) (h : stoul s = .error e) :
      Refused (s ++ '-' :: t)
  | stop {s t : List Char} {a : ℕ} {e : ParseError} (hdash : '-' ∉ s) (hs : stoul s = .ok a)
      (h : stoul t = .error e) : Refused (s ++ '-' :: t)
  | order {s t : List Char} {a b : ℕ} (hdash : '-' ∉ s) (hs : stoul s = .ok a)
      (ht : stoul t = .ok b) (hle : b ≤ a) : Refused (s ++ '-' :: t)

/-- A range up to the last number that there is. -/
inductive Endless : List Char → Prop
  | range {s t : List Char} {a : ℕ} (hdash : '-' ∉ s) (hs : stoul s = .ok a)
      (ht : stoul t = .ok ULONG_MAX) (hlt : a < ULONG_MAX) : Endless (s ++ '-' :: t)

variable {piece : List Char}

theorem Refused.parse (h : Refused piece) (hsolid : Solid piece) :
    ∃ e, e ≠ .outOfFuel ∧ ∀ fuel, parseCpusRange fuel piece = .error e := by
  have hthrown : ∀ {s : List Char} {e : ParseError}, stoul s = .error e → e ≠ .outOfFuel := by
    intro s e hs
    rcases stoul_cases s with ⟨value, hv, _⟩ | ⟨e', he', hne⟩
    · rw [hs] at hv
      cases hv
    · rw [hs] at he'
      exact Except.error.inj he' ▸ hne
  cases h with
  | single hne hdash h =>
    refine ⟨_, hthrown h, fun fuel => ?_⟩
    rw [parseCpusRange_single hsolid hne hdash, h]
  | start hdash h =>
    refine ⟨_, hthrown h, fun fuel => ?_⟩
    rw [parseCpusRange_range hsolid hdash, h]
  | stop hdash hs h =>
    refine ⟨_, hthrown h, fun fuel => ?_⟩
    rw [parseCpusRange_range hsolid hdash, hs]
    dsimp only
    rw [h]
  | @order s t a b hdash hs ht hle =>
    refine ⟨.illFormedRange (s ++ '-' :: t), fun h => (nomatch h), fun fuel => ?_⟩
    rw [parseCpusRange_range hsolid hdash, hs]
    dsimp only
    rw [ht]
    exact if_pos hle

theorem Endless.parse (h : Endless piece) (hsolid : Solid piece) (fuel : ℕ) :
    parseCpusRange fuel piece = .error .outOfFuel := by
  obtain ⟨hdash, hs, ht, hlt⟩ := h
  rw [parseCpusRange_range hsolid hdash, hs]
  dsimp only
  rw [ht]
  dsimp only
  rw [if_neg (Nat.not_le.mpr hlt), setCpus_endless fuel _ _ (Nat.le_of_lt hlt)]

/-- Any other piece is read. -/
theorem parseCpusRange_ok (hsolid : Solid piece) (hrefused : ¬ Refused piece)
    (hendless : ¬ Endless piece) :
    ∃ cpus, ∀ fuel, 2 ^ 64 ≤ fuel → parseCpusRange fuel piece = .ok cpus := by
  rcases notMem_or_eq_append '-' piece with hdash | ⟨s, t, hdash, rfl⟩
  · by_cases hne : piece = []
    · rw [hne]
      exact ⟨CpuSetT.zero, fun _ _ => rfl⟩
    · rcases stoul_cases piece with ⟨a, ha, _⟩ | ⟨e, he, _⟩
      · refine ⟨CpuSetT.zero.set a, fun fuel _ => ?_⟩
        rw [parseCpusRange_single hsolid hne hdash, ha]
      · exact absurd (Refused.single hne hdash he) hrefused
  · rcases stoul_cases s with ⟨a, ha, hamax⟩ | ⟨e, he, _⟩
    · rcases stoul_cases t with ⟨b, hb, hbmax⟩ | ⟨e, he, _⟩
      · by_cases hle : b ≤ a
        · exact absurd (Refused.order hdash ha hb hle) hrefused
        · have hlt : b < ULONG_MAX := by
            refine Nat.lt_of_le_of_ne hbmax fun heq => ?_
            rw [heq] at hb hle
            exact hendless (.range hdash ha hb (Nat.lt_of_not_le hle))
          refine ⟨CpuSetT.zero.or (CpuSetT.range a b), fun fuel hfuel => ?_⟩
          have hmax : b + 2 ≤ fuel + a := by
            rw [ULONG_MAX] at hlt
            omega
          rw [parseCpusRange_range hsolid hdash, ha]
          dsimp only
          rw [hb]
          dsimp only
          rw [if_neg hle, setCpus_eq hlt fuel a CpuSetT.zero (by omega) hmax]
      · exact absurd (Refused.stop hdash ha he) hrefused
    · exact absurd (Refused.start hdash he) hrefused

/-- A piece of the grammar is free of blanks and commas. -/
theorem CpuRange.chars (h : CpuRange s cpus) : Solid s ∧ ',' ∉ s := by
  cases h with
  | single h _ => exact ⟨h.not_isspace, h.notMem (by decide)⟩
  | range hfirst hlast _ _ =>
    constructor
    · intro d hd
      rcases List.mem_append.mp hd with hd | hd
      · exact hfirst.not_isspace d hd
      · rcases List.mem_cons.mp hd with rfl | hd
        · decide
        · exact hlast.not_isspace d hd
    · intro hmem
      rcases List.mem_append.mp hmem with hmem | hmem
      · exact hfirst.notMem (by decide) hmem
      · rcases List.mem_cons.mp hmem with heq | hmem
        · exact absurd heq (by decide)
        · exact hlast.notMem (by decide) hmem

/-- **A range is read.** -/
theorem CpuRange.parse (h : CpuRange s cpus) :
    ∃ r : CpuSetT, r.cpus = cpus ∧ ∀ fuel, 2 ^ 64 ≤ fuel → parseCpusRange fuel s = .ok r := by
  have hsolid := h.chars.1
  have hfits : CPU_SETSIZE < ULONG_MAX := by decide
  cases h with
  | @single s cpu h hlt =>
    refine ⟨CpuSetT.zero.set cpu, ?_, fun fuel _ => ?_⟩
    · rw [CpuSetT.set, dif_pos hlt]
      rfl
    · rw [parseCpusRange_single hsolid h.ne_nil (h.notMem (by decide)), h.stoul (by omega)]
  | @range s t first last hfirst hlast hlt hsize =>
    refine ⟨CpuSetT.zero.or (CpuSetT.range first last), ?_, fun fuel hfuel => ?_⟩
    · rw [CpuSetT.zero_or, CpuSetT.range, Finset.filter_eq_self]
      exact fun d hd => Nat.lt_of_le_of_lt (Finset.mem_Icc.mp hd).2 hsize
    · have hmax : last + 2 ≤ fuel + first := by
        rw [ULONG_MAX] at hfits
        omega
      rw [parseCpusRange_range hsolid (hfirst.notMem (by decide)), hfirst.stoul (by omega)]
      dsimp only
      rw [hlast.stoul (by omega)]
      dsimp only
      rw [if_neg (Nat.not_le.mpr hlt), setCpus_eq (by omega) fuel first _ (by omega) hmax]

/-! ## Lists of pieces -/

variable {before after : List (List Char)}

theorem parsePieces_last (h : ',' ∉ s) (fuel : ℕ) (cpus : CpuSetT) :
    parsePieces fuel cpus s =
      match parseCpusRange fuel s with
      | .error e => .error e
      | .ok newCpus => .ok (cpus.or newCpus) := by
  rw [parsePieces]
  simp only [getline_of_notMem h, Bool.true_eq_false, dif_neg, not_false_eq_true]

theorem parsePieces_append (h : ',' ∉ s) (t : List Char) (fuel : ℕ) (cpus : CpuSetT) :
    parsePieces fuel cpus (s ++ ',' :: t) =
      match parseCpusRange fuel s with
      | .error e => .error e
      | .ok newCpus => parsePieces fuel (cpus.or newCpus) t := by
  rw [parsePieces]
  simp only [getline_append t h, dif_pos]

/-- **A list of the grammar is read.** -/
theorem CpuList.parse (h : CpuList s cpus) :
    ∃ r : CpuSetT, r.cpus = cpus ∧
      ∀ fuel, 2 ^ 64 ≤ fuel → ∀ old, parsePieces fuel old s = .ok (old.or r) := by
  induction h with
  | last h =>
    obtain ⟨r, hr, hparse⟩ := h.parse
    refine ⟨r, hr, fun fuel hfuel old => ?_⟩
    rw [parsePieces_last h.chars.2, hparse fuel hfuel]
  | cons h _ ih =>
    obtain ⟨r, hr, hparse⟩ := h.parse
    obtain ⟨r', hr', hrest⟩ := ih
    refine ⟨r.or r', ?_, fun fuel hfuel old => ?_⟩
    · rw [← hr, ← hr']
      rfl
    · rw [parsePieces_append h.chars.2, hparse fuel hfuel]
      exact (hrest fuel hfuel (old.or r)).trans (congrArg Except.ok (old.or_assoc r r'))

/-- The first piece of a text, and the others. -/
theorem splitOn_comma (s : List Char) :
    (',' ∉ s ∧ s.splitOn ',' = [s]) ∨ ∃ text rest, ',' ∉ text ∧ s = text ++ ',' :: rest ∧
      s.splitOn ',' = text :: rest.splitOn ',' := by
  rcases notMem_or_eq_append ',' s with hnot | ⟨text, rest, hnot, rfl⟩
  · exact Or.inl ⟨hnot, List.splitOn_eq_singleton hnot⟩
  · exact Or.inr ⟨text, rest, hnot, rfl, List.splitOn_append_cons_self_of_not_mem hnot rest⟩

/-- A piece that is refused ends the loop, if the loop gets there. -/
theorem parsePieces_refused (hsolid : Solid s) (hsplit : s.splitOn ',' = before ++ piece :: after)
    (hrefused : Refused piece) (hends : ∀ p ∈ before, ¬ Endless p) (old : CpuSetT) :
    ∃ e, e ≠ .outOfFuel ∧ ∀ fuel, 2 ^ 64 ≤ fuel → parsePieces fuel old s = .error e := by
  -- the first piece either ends the loop, or is one of those before
  have hstep : ∀ {text rest : List Char} {old : CpuSetT}, Solid (text ++ ',' :: rest) → ',' ∉ text →
      (Refused text ∨ ¬ Endless text ∧ ∀ old : CpuSetT, ∃ e, e ≠ .outOfFuel ∧
        ∀ fuel, 2 ^ 64 ≤ fuel → parsePieces fuel old rest = .error e) →
      ∃ e, e ≠ .outOfFuel ∧
        ∀ fuel, 2 ^ 64 ≤ fuel → parsePieces fuel old (text ++ ',' :: rest) = .error e := by
    intro text rest old hsolid hnot h
    have htext : Solid text := fun d hd => hsolid d (List.mem_append_left _ hd)
    by_cases hr : Refused text
    · obtain ⟨e, hne, hparse⟩ := hr.parse htext
      refine ⟨e, hne, fun fuel _ => ?_⟩
      rw [parsePieces_append hnot, hparse fuel]
    · obtain ⟨hendless, hrest⟩ := h.resolve_left hr
      obtain ⟨new, hnew⟩ := parseCpusRange_ok htext hr hendless
      obtain ⟨e, hne, hparse⟩ := hrest (old.or new)
      refine ⟨e, hne, fun fuel hfuel => ?_⟩
      rw [parsePieces_append hnot, hnew fuel hfuel]
      exact hparse fuel hfuel
  induction before generalizing s old with
  | nil =>
    rcases splitOn_comma s with ⟨hnot, heq⟩ | ⟨text, rest, hnot, rfl, heq⟩
    · obtain ⟨rfl, -⟩ := List.cons.inj (hsplit.symm.trans heq)
      obtain ⟨e, hne, hparse⟩ := hrefused.parse hsolid
      refine ⟨e, hne, fun fuel _ => ?_⟩
      rw [parsePieces_last hnot, hparse fuel]
    · obtain ⟨rfl, -⟩ := List.cons.inj (hsplit.symm.trans heq)
      exact hstep hsolid hnot (Or.inl hrefused)
  | cons p before ih =>
    rcases splitOn_comma s with ⟨hnot, heq⟩ | ⟨text, rest, hnot, rfl, heq⟩
    · have hnil := (List.cons.inj (hsplit.symm.trans heq)).2
      exact absurd hnil (List.append_ne_nil_of_right_ne_nil before (List.cons_ne_nil piece after))
    · obtain ⟨rfl, hrest⟩ := List.cons.inj (hsplit.symm.trans heq)
      have hsolid' : Solid rest := fun d hd =>
        hsolid d (List.mem_append_right _ (List.mem_cons_of_mem ',' hd))
      refine hstep hsolid hnot (Or.inr ⟨hends p List.mem_cons_self, fun old => ?_⟩)
      exact ih hsolid' hrest.symm (fun q hq => hends q (List.mem_cons_of_mem p hq)) old

/-- The loop only throws at a piece that is refused. -/
theorem refused_of_error (hsolid : Solid s) (hfuel : 2 ^ 64 ≤ fuel) {old : CpuSetT}
    (h : parsePieces fuel old s = .error e) (he : e ≠ .outOfFuel) :
    ∃ before piece after, s.splitOn ',' = before ++ piece :: after ∧ Refused piece ∧
      ∀ p ∈ before, ¬ Endless p := by
  have hpiece : ∀ {piece : List Char} {e : ParseError}, Solid piece → e ≠ .outOfFuel →
      parseCpusRange fuel piece = .error e → Refused piece := by
    intro piece e hsolid he h
    by_contra hno
    by_cases hendless : Endless piece
    · rw [hendless.parse hsolid fuel] at h
      exact he (Except.error.inj h).symm
    · obtain ⟨cpus, hparse⟩ := parseCpusRange_ok hsolid hno hendless
      rw [hparse fuel hfuel] at h
      cases h
  induction hn : s.length using Nat.strong_induction_on generalizing s old with
  | _ n ih =>
    rcases splitOn_comma s with ⟨hnot, heq⟩ | ⟨text, rest, hnot, rfl, heq⟩
    · rw [parsePieces_last hnot] at h
      cases hparse : parseCpusRange fuel s with
      | error e' =>
        rw [hparse] at h
        obtain rfl := Except.error.inj h
        exact ⟨[], s, [], heq, hpiece hsolid he hparse, List.forall_mem_nil _⟩
      | ok cpus =>
        rw [hparse] at h
        cases h
    · have htext : Solid text := fun d hd => hsolid d (List.mem_append_left _ hd)
      have hrest : Solid rest := fun d hd =>
        hsolid d (List.mem_append_right _ (List.mem_cons_of_mem ',' hd))
      rw [parsePieces_append hnot] at h
      cases hparse : parseCpusRange fuel text with
      | error e' =>
        rw [hparse] at h
        obtain rfl := Except.error.inj h
        exact ⟨[], text, rest.splitOn ',', heq, hpiece htext he hparse, List.forall_mem_nil _⟩
      | ok cpus =>
        rw [hparse] at h
        have hlt : rest.length < n := by
          rw [← hn, List.length_append, List.length_cons]
          omega
        obtain ⟨before, piece, after, hsplit, hrefused, hends⟩ := ih _ hlt hrest h rfl
        refine ⟨text :: before, piece, after, ?_, hrefused, List.forall_mem_cons.mpr ⟨?_, hends⟩⟩
        · rw [heq, hsplit]
          rfl
        · intro hendless
          rw [hendless.parse htext fuel] at hparse
          cases hparse

/-! ## What the parser accepts -/

/-- The parser ends.  It returns the CPUs of a list of the grammar, and it throws for any
other text that is not empty, when its blanks are removed. -/
structure ParsesGrammar (s : List Char) : Prop where
  ends : ∃ n, ∀ fuel, n ≤ fuel → parseCpusList fuel s ≠ .error .outOfFuel
  returns : ∀ cpus, CpuList (removeBlanks s) cpus →
    ∃ r : CpuSetT, r.cpus = cpus ∧ ∃ n, ∀ fuel, n ≤ fuel → parseCpusList fuel s = .ok r
  throws : removeBlanks s ≠ [] → (∀ cpus, ¬ CpuList (removeBlanks s) cpus) →
    ∃ e, e ≠ .outOfFuel ∧ ∃ n, ∀ fuel, n ≤ fuel → parseCpusList fuel s = .error e

theorem CpuList.parseCpusList (h : CpuList (removeBlanks s) cpus) :
    ∃ r : CpuSetT, r.cpus = cpus ∧ ∀ fuel, 2 ^ 64 ≤ fuel → parseCpusList fuel s = .ok r := by
  obtain ⟨r, hr, hparse⟩ := h.parse
  refine ⟨r, hr, fun fuel hfuel => ?_⟩
  rw [Common.parseCpusList, hparse fuel hfuel, CpuSetT.zero_or]

/-- **The parser is right** about the grammar, and about a text with a piece that is refused
before there is one that never ends. -/
theorem parseCpusList_iff (s : List Char) :
    ParsesGrammar s ↔ removeBlanks s = [] ∨ (∃ cpus, CpuList (removeBlanks s) cpus) ∨
      ∃ before piece after, (removeBlanks s).splitOn ',' = before ++ piece :: after ∧
        Refused piece ∧ ∀ p ∈ before, ¬ Endless p := by
  have hsolid := solid_removeBlanks s
  have hreturns : ∀ cpus, CpuList (removeBlanks s) cpus →
      ∃ r : CpuSetT, r.cpus = cpus ∧ ∃ n, ∀ fuel, n ≤ fuel → parseCpusList fuel s = .ok r := by
    intro cpus h
    obtain ⟨r, hr, hparse⟩ := h.parseCpusList
    exact ⟨r, hr, 2 ^ 64, hparse⟩
  constructor
  · intro h
    by_cases hnil : removeBlanks s = []
    · exact Or.inl hnil
    by_cases hlist : ∃ cpus, CpuList (removeBlanks s) cpus
    · exact Or.inr (Or.inl hlist)
    obtain ⟨e, he, n, hparse⟩ := h.throws hnil (not_exists.mp hlist)
    exact Or.inr (Or.inr (refused_of_error hsolid (Nat.le_max_right n (2 ^ 64))
      (hparse _ (Nat.le_max_left n (2 ^ 64))) he))
  · rintro (hnil | ⟨cpus, h⟩ | ⟨before, piece, after, hsplit, hrefused, hends⟩)
    · refine ⟨⟨0, fun fuel _ hfuel => ?_⟩, hreturns, fun hne => absurd hnil hne⟩
      rw [parseCpusList, hnil, parsePieces_last List.not_mem_nil] at hfuel
      cases hfuel
    · obtain ⟨r, -, hparse⟩ := h.parseCpusList
      refine ⟨⟨2 ^ 64, fun fuel hfuel hout => ?_⟩, hreturns, fun _ hno => absurd h (hno cpus)⟩
      rw [hparse fuel hfuel] at hout
      cases hout
    · obtain ⟨e, he, hparse⟩ := parsePieces_refused hsolid hsplit hrefused hends CpuSetT.zero
      refine ⟨⟨2 ^ 64, fun fuel hfuel hout => ?_⟩, hreturns, fun _ _ => ⟨e, he, 2 ^ 64, hparse⟩⟩
      rw [parseCpusList, hparse fuel hfuel] at hout
      exact he (Except.error.inj hout)

/-- A number with a sign is no list of the grammar, and is read as CPU 1.  A range up to a
number below zero never ends. -/
theorem not_parsesGrammar_sign :
    ¬ ParsesGrammar ['+', '1'] ∧
      ∀ fuel, parseCpusList fuel ['1', '-', '-', '1'] = .error .outOfFuel := by
  constructor
  · intro h
    have hno : ∀ cpus, ¬ CpuList ['+', '1'] cpus := by
      intro cpus hlist
      generalize hs : ['+', '1'] = s at hlist
      have hmem : ∀ d ∈ s, d = '+' ∨ d = '1' := by
        intro d hd
        rw [← hs] at hd
        simpa using hd
      cases hlist with
      | last h =>
        cases h with
        | single h _ => exact absurd (h.digits '+' (hs ▸ List.mem_cons_self)) (by decide)
        | range =>
          have hdash := hmem '-' (List.mem_append_right _ List.mem_cons_self)
          exact absurd hdash (by decide)
      | cons =>
        have hcomma := hmem ',' (List.mem_append_right _ List.mem_cons_self)
        exact absurd hcomma (by decide)
    obtain ⟨e, -, n, hparse⟩ := h.throws (by decide) hno
    have hread : parseCpusList n ['+', '1'] = .ok (CpuSetT.zero.or (CpuSetT.zero.set 1)) := by
      rw [parseCpusList, show removeBlanks ['+', '1'] = ['+', '1'] by decide,
        parsePieces_last (by decide), parseCpusRange_single (by decide) (by decide) (by decide),
        show stoul ['+', '1'] = .ok 1 by decide]
    rw [hparse n (Nat.le_refl n)] at hread
    cases hread
  · intro fuel
    have hendless : Endless ['1', '-', '-', '1'] :=
      .range (s := ['1']) (t := ['-', '1']) (a := 1) (by decide) (by decide) (by decide) (by decide)
    rw [parseCpusList, show removeBlanks ['1', '-', '-', '1'] = ['1', '-', '-', '1'] by decide,
      parsePieces_last (by decide), hendless.parse (by decide)]

end Common
end IntegratedCLI
