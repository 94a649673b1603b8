import IntegratedCLI.Lib.Occurrences

/-!
# Stopping early

`check_early_stop` looks for the conditions on which the generation stops, and returns the
place of the one it finds: the output is cut there.  The conditions are tested in a fixed
order, and each is that a delimiter is found a certain number of times.

`check_early_stop_eq` says that the function is a search through `conditions`, where the
stop of a condition is the place of the last occurrence that it needs.  What is kept of the
output meets the conditions whose stops end before the cut, `Condition.stop_take`.  So the
cut is the first stop exactly if the conditions behind the one that was found do not stop
before it: `check_early_stop_cutsFirst_iff`.
-/

namespace IntegratedCLI
namespace Lac

open Occurrences

/-- A delimiter that is empty would be found at one place for ever. -/
structure Delimiter where
  text : List UInt8
  ne_nil : text ≠ []
  deriving DecidableEq, Repr

/-! ## The program -/

/-- `input.find(delimiter, pos)`, where `npos` is `none`. -/
def findFrom (input : List UInt8) (delimiter : Delimiter) (pos : ℕ) : Option ℕ :=
  (find delimiter.text (input.drop pos)).map (pos + ·)

theorem findFrom_le {input : List UInt8} {delimiter : Delimiter} {pos p : ℕ}
    (h : findFrom input delimiter pos = some p) :
    pos ≤ p ∧ 0 < delimiter.text.length ∧ p + delimiter.text.length ≤ input.length := by
  obtain ⟨q, hq, rfl⟩ := Option.map_eq_some_iff.mp h
  have hlength : 0 < delimiter.text.length := List.length_pos_iff.mpr delimiter.ne_nil
  have hle := find_le hq
  rw [List.length_drop] at hle
  omega

/-- The loop of `get_num_delimiters`. -/
def numLoop (input : List UInt8) (delimiter : Delimiter) (pos n_delimiters : ℕ) : ℕ :=
  match h : findFrom input delimiter pos with
  | none => n_delimiters
  | some p =>
    have := findFrom_le h
    numLoop input delimiter (p + delimiter.text.length) (n_delimiters + 1)
termination_by input.length - pos

def get_num_delimiters (input : List UInt8) (delimiter : Delimiter) : ℕ :=
  numLoop input delimiter 0 0

/-- The loop of `get_nth_delimiters`. -/
def nthLoop (input : List UInt8) (delimiter : Delimiter) (n n_delimiters pos : ℕ) : Option ℕ :=
  match h : findFrom input delimiter pos with
  | none => none
  | some p =>
    have := findFrom_le h
    if n_delimiters + 1 = n then some p
    else nthLoop input delimiter n (n_delimiters + 1) (p + delimiter.text.length)
termination_by input.length - pos

def get_nth_delimiters (input : List UInt8) (delimiter : Delimiter) (n : ℕ) : Option ℕ :=
  nthLoop input delimiter n 0 0

def bytes (s : String) : List UInt8 := s.toList.map fun c => .ofNat c.toNat

def hashes : Delimiter := ⟨bytes "###", by decide⟩

def instructionHeading : Delimiter := ⟨bytes "### Instruction", by decide⟩

def exampleHeading : Delimiter := ⟨bytes "### Example", by decide⟩

def referencesHeading : Delimiter := ⟨bytes "### References", by decide⟩

def fourHashes : Delimiter := ⟨bytes "####", by decide⟩

def asterisks : Delimiter := ⟨bytes "**", by decide⟩

/-- Where the output is to be cut; `-1` is `none`. -/
def check_early_stop (output_buffer : List UInt8) : Option ℕ :=
  if 6 ≤ get_num_delimiters output_buffer hashes then
    get_nth_delimiters output_buffer hashes 6
  else if 2 ≤ get_num_delimiters output_buffer instructionHeading then
    get_nth_delimiters output_buffer instructionHeading 2
  else if 2 ≤ get_num_delimiters output_buffer exampleHeading then
    get_nth_delimiters output_buffer exampleHeading 2
  else if findFrom output_buffer referencesHeading 0 ≠ none then
    findFrom output_buffer referencesHeading 0
  else if findFrom output_buffer fourHashes 0 ≠ none then
    findFrom output_buffer fourHashes 0
  else if 7 ≤ get_num_delimiters output_buffer asterisks then
    get_nth_delimiters output_buffer asterisks 7
  else none

/-- What `main` keeps of the output. -/
def kept (output_buffer : List UInt8) : List UInt8 :=
  match check_early_stop output_buffer with
  | none => output_buffer
  | some early_stop_pos => output_buffer.take early_stop_pos

/-! ## The loops -/

variable {input : List UInt8} {delimiter : Delimiter} {pos n : ℕ}

/-- The places that the loops find from a position on. -/
theorem scan_findFrom (input : List UInt8) (delimiter : Delimiter) (pos : ℕ) :
    scan delimiter.text 0 (input.drop pos) pos
      = match findFrom input delimiter pos with
        | none => []
        | some p => p :: scan delimiter.text 0 (input.drop (p + delimiter.text.length))
            (p + delimiter.text.length) := by
  rw [scan_eq_find delimiter.ne_nil, findFrom]
  cases find delimiter.text (input.drop pos) with
  | none => rfl
  | some p =>
    have hdrop : (input.drop pos).drop (p + delimiter.text.length)
        = input.drop (pos + p + delimiter.text.length) := by
      rw [List.drop_drop, Nat.add_assoc]
    simp only [hdrop, Option.map_some]

theorem numLoop_none {count : ℕ} (h : findFrom input delimiter pos = none) :
    numLoop input delimiter pos count = count := by
  rw [numLoop]
  split
  · rfl
  · cases h.symm.trans ‹_›

theorem numLoop_some {count p : ℕ} (h : findFrom input delimiter pos = some p) :
    numLoop input delimiter pos count
      = numLoop input delimiter (p + delimiter.text.length) (count + 1) := by
  rw [numLoop]
  split
  · cases h.symm.trans ‹_›
  · rename_i heq
    cases h.symm.trans heq
    rfl

theorem nthLoop_none {count : ℕ} (h : findFrom input delimiter pos = none) :
    nthLoop input delimiter n count pos = none := by
  rw [nthLoop]
  split
  · rfl
  · cases h.symm.trans ‹_›

theorem nthLoop_some {count p : ℕ} (h : findFrom input delimiter pos = some p) :
    nthLoop input delimiter n count pos = if count + 1 = n then some p
      else nthLoop input delimiter n (count + 1) (p + delimiter.text.length) := by
  rw [nthLoop]
  split
  · cases h.symm.trans ‹_›
  · rename_i heq
    cases h.symm.trans heq
    rfl

theorem numLoop_eq (input : List UInt8) (delimiter : Delimiter) (pos count : ℕ) :
    numLoop input delimiter pos count
      = count + (scan delimiter.text 0 (input.drop pos) pos).length := by
  induction pos, count using numLoop.induct input delimiter with
  | case1 pos count h =>
    simp only [numLoop_none h, scan_findFrom input delimiter pos, h, List.length_nil, Nat.add_zero]
  | case2 pos count p h _ ih =>
    simp only [numLoop_some h, scan_findFrom input delimiter pos, h, ih, List.length_cons]
    omega

theorem nthLoop_eq (input : List UInt8) (delimiter : Delimiter) {n count : ℕ} (hn : count < n)
    (pos : ℕ) : nthLoop input delimiter n count pos
      = (scan delimiter.text 0 (input.drop pos) pos)[n - count - 1]? := by
  induction count, pos using nthLoop.induct input delimiter n with
  | case1 count pos h =>
    simp only [nthLoop_none h, scan_findFrom input delimiter pos, h, List.getElem?_nil]
  | case2 count pos p h _ heq =>
    have hzero : n - count - 1 = 0 := by omega
    simp only [nthLoop_some h, scan_findFrom input delimiter pos, h, if_pos heq, hzero,
      List.getElem?_cons_zero]
  | case3 count pos p h _ hne ih =>
    have hsucc : n - count - 1 = n - (count + 1) - 1 + 1 := by omega
    simp only [nthLoop_some h, scan_findFrom input delimiter pos, h, if_neg hne, ih (by omega),
      hsucc, List.getElem?_cons_succ]

theorem get_num_delimiters_eq (input : List UInt8) (delimiter : Delimiter) :
    get_num_delimiters input delimiter = (positions delimiter.text input).length := by
  rw [get_num_delimiters, numLoop_eq, Nat.zero_add, List.drop_zero]
  rfl

theorem get_nth_delimiters_eq (input : List UInt8) (delimiter : Delimiter) (hn : 0 < n) :
    get_nth_delimiters input delimiter n = (positions delimiter.text input)[n - 1]? := by
  rw [get_nth_delimiters, nthLoop_eq input delimiter hn, List.drop_zero, Nat.sub_zero]
  rfl

theorem findFrom_eq (input : List UInt8) (delimiter : Delimiter) :
    findFrom input delimiter 0 = (positions delimiter.text input)[0]? := by
  have hscan := scan_findFrom input delimiter 0
  rw [List.drop_zero] at hscan
  rw [positions, hscan]
  cases findFrom input delimiter 0 <;> rfl

/-! ## The conditions -/

/-- The delimiter is found `count` times. -/
structure Condition where
  delimiter : Delimiter
  count : ℕ
  pos : 0 < count
  deriving DecidableEq, Repr

namespace Condition

/-- The place of the last occurrence that the condition needs. -/
def stop (c : Condition) (s : List UInt8) : Option ℕ :=
  (positions c.delimiter.text s)[c.count - 1]?

variable {c : Condition} {s : List UInt8} {p q : ℕ}

theorem length_pos (c : Condition) : 0 < c.delimiter.text.length :=
  List.length_pos_iff.mpr c.delimiter.ne_nil

theorem stop_lt (h : c.stop s = some p) : p + c.delimiter.text.length ≤ s.length :=
  positions_end c.delimiter.ne_nil (List.mem_of_getElem? h)

/-- **What is kept meets the conditions that stop before its end.** -/
theorem stop_take (c : Condition) (s : List UInt8) (p : ℕ) :
    c.stop (s.take p) = (c.stop s).filter fun q => q + c.delimiter.text.length ≤ p :=
  getElem?_positions_take c.delimiter.ne_nil

theorem stop_take_eq_none_iff :
    c.stop (s.take p) = none ↔ ∀ q, c.stop s = some q → p < q + c.delimiter.text.length := by
  rw [stop_take]
  cases c.stop s with
  | none => exact iff_of_true rfl fun q hq => nomatch hq
  | some q =>
    rw [Option.filter_some_eq_none, decide_eq_true_eq, not_le]
    exact ⟨fun h q' hq' => by cases hq'; exact h, fun h => h q rfl⟩

/-- The code tests a condition by counting, and then looks for its stop. -/
theorem stop_or (c : Condition) (s : List UInt8) (rest : Option ℕ) :
    (if c.count ≤ get_num_delimiters s c.delimiter then get_nth_delimiters s c.delimiter c.count
      else rest) = (c.stop s).or rest := by
  rw [get_num_delimiters_eq, get_nth_delimiters_eq s c.delimiter c.pos, stop]
  have hpos := c.pos
  split
  · rw [List.getElem?_eq_getElem (by omega), Option.some_or]
  · rw [List.getElem?_eq_none (by omega), Option.none_or]

end Condition

/-- The conditions, in the order in which they are tested. -/
def conditions : List Condition :=
  [⟨hashes, 6, by decide⟩, ⟨instructionHeading, 2, by decide⟩, ⟨exampleHeading, 2, by decide⟩,
    ⟨referencesHeading, 1, by decide⟩, ⟨fourHashes, 1, by decide⟩, ⟨asterisks, 7, by decide⟩]

theorem findFrom_or (s : List UInt8) (delimiter : Delimiter) (rest : Option ℕ) :
    (if findFrom s delimiter 0 ≠ none then findFrom s delimiter 0 else rest)
      = (Condition.stop ⟨delimiter, 1, Nat.one_pos⟩ s).or rest := by
  have hstop : findFrom s delimiter 0 = Condition.stop ⟨delimiter, 1, Nat.one_pos⟩ s :=
    findFrom_eq s delimiter
  rw [hstop]
  rcases Condition.stop ⟨delimiter, 1, Nat.one_pos⟩ s with - | p
  · exact if_neg (not_not.mpr rfl)
  · exact if_pos (Option.some_ne_none p)

/-- **The first condition that the text meets decides.** -/
theorem check_early_stop_eq (s : List UInt8) :
    check_early_stop s = conditions.findSome? fun c => c.stop s := by
  have hcount := fun d n (hn : 0 < n) rest => Condition.stop_or ⟨d, n, hn⟩ s rest
  have hor : ∀ (c : Condition) (cs : List Condition), (c :: cs).findSome? (fun c => c.stop s)
      = (c.stop s).or (cs.findSome? fun c => c.stop s) := fun c cs => by
    rw [List.findSome?_cons]
    cases c.stop s <;> rfl
  rw [check_early_stop, findFrom_or, findFrom_or]
  simp only at hcount
  rw [hcount hashes 6 (by decide), hcount instructionHeading 2 (by decide),
    hcount exampleHeading 2 (by decide), hcount asterisks 7 (by decide)]
  simp only [conditions, hor, List.findSome?_nil]

/-! ## What is to hold -/

/-- The cut is in the output, and what is kept meets no condition. -/
def CutsFirst (s : List UInt8) : Prop :=
  ∀ p, check_early_stop s = some p → p < s.length ∧ check_early_stop (s.take p) = none

/-- Of the conditions that the text meets, none that is tested later stops before the one that
is tested first. -/
def InOrder (s : List UInt8) : Prop :=
  ∀ before c after, conditions = before ++ c :: after → (∀ c' ∈ before, c'.stop s = none) →
    ∀ p, c.stop s = some p →
      ∀ c' ∈ after, ∀ q, c'.stop s = some q → p < q + c'.delimiter.text.length

theorem check_early_stop_eq_some_iff {s : List UInt8} {p : ℕ} :
    check_early_stop s = some p ↔ ∃ before c after, conditions = before ++ c :: after
      ∧ c.stop s = some p ∧ ∀ c' ∈ before, c'.stop s = none := by
  rw [check_early_stop_eq, List.findSome?_eq_some_iff]

theorem check_early_stop_take_eq_none_iff {s : List UInt8} {p : ℕ} :
    check_early_stop (s.take p) = none
      ↔ ∀ c ∈ conditions, ∀ q, c.stop s = some q → p < q + c.delimiter.text.length := by
  rw [check_early_stop_eq, List.findSome?_eq_none_iff]
  exact forall₂_congr fun c _ => Condition.stop_take_eq_none_iff

/-- **The output is cut at its first stop exactly if the conditions stop in order.** -/
theorem check_early_stop_cutsFirst_iff (s : List UInt8) : CutsFirst s ↔ InOrder s := by
  refine ⟨fun hcuts before c after hconditions hbefore p hp c' hc' => ?_, fun horder p hp => ?_⟩
  · have hcut := (hcuts p (check_early_stop_eq_some_iff.mpr
      ⟨before, c, after, hconditions, hp, hbefore⟩)).2
    refine check_early_stop_take_eq_none_iff.mp hcut c' ?_
    rw [hconditions]
    exact List.mem_append_right _ (List.mem_cons_of_mem _ hc')
  · obtain ⟨before, c, after, hconditions, hstop, hbefore⟩ := check_early_stop_eq_some_iff.mp hp
    have hlength := c.length_pos
    refine ⟨by have := Condition.stop_lt hstop; omega, ?_⟩
    refine check_early_stop_take_eq_none_iff.mpr fun c' hc' q hq => ?_
    rw [hconditions] at hc'
    rcases List.mem_append.mp hc' with hc' | hc'
    · -- the conditions tested before are not met
      rw [hbefore c' hc'] at hq
      cases hq
    · rcases List.mem_cons.mp hc' with rfl | hc'
      · cases hstop.symm.trans hq
        omega
      · exact horder before c after hconditions hbefore p hstop c' hc' q hq

/-- Four hashes come first, but the second heading of an instruction is what stops. -/
theorem check_early_stop_fourHashes :
    check_early_stop (bytes "#### a ### Instruction ### Instruction") = some 23
      ∧ check_early_stop (kept (bytes "#### a ### Instruction ### Instruction")) = some 0
      ∧ ¬ CutsFirst (bytes "#### a ### Instruction ### Instruction") := by
  have hstop : check_early_stop (bytes "#### a ### Instruction ### Instruction") = some 23 := by
    rw [check_early_stop_eq]
    decide
  have hkept : check_early_stop ((bytes "#### a ### Instruction ### Instruction").take 23)
      = some 0 := by
    rw [check_early_stop_eq]
    decide
  refine ⟨hstop, ?_, fun h => ?_⟩
  · rw [kept, hstop]
    exact hkept
  · cases hkept.symm.trans (h 23 hstop).2

end Lac
end IntegratedCLI
