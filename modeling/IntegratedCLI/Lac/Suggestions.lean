import Mathlib.Data.List.DropRight
import IntegratedCLI.Lac.MultilineEditor
import IntegratedCLI.Lac.EarlyStop
import IntegratedCLI.Lib.Regex

/-!
# The commands that a reply suggests

`extract_suggestions` looks for the blocks of code in what the model has written, with regular
expressions: what is to be run stands between a fence with the name of a shell and a bare one.

A pattern for the text of an example goes on up to the next heading, but its dot does not match the
end of a line.  Where the headings stand on lines of their own it finds nothing, and so the blocks
are those in front of the first heading: `extract_suggestions_eq_iff`, where the blocks are what
the fences cut the text into, `Regex.Fenced`.

## Main results

* `trim_eq` : the text without the blanks at both of its ends.
* `pushLoop_eq` : of equal commands the first is kept.
* `extract_suggestions_eq_iff` : what is suggested, for every reply.
* `Suggestion.of_mem` : what every suggestion is like.
-/

namespace IntegratedCLI
namespace Lac

open Occurrences Regex

/-! ## The program -/

/-- A character of `" \t\n\r\f\v"`. -/
def blank (c : UInt8) : Bool := c = 32 || c = 9 || c = 10 || c = 13 || c = 12 || c = 11

/-- `str.find_first_not_of`, where `npos` is `none`. -/
def find_first_not_of (str : Text) : Option ℕ := str.findIdx? (! blank ·)

def find_last_not_of (str : Text) : ℕ := str.length - 1 - str.reverse.findIdx (! blank ·)

def trim (str : Text) : Text :=
  match find_first_not_of str with
  | none => []
  | some start => (str.drop start).take (find_last_not_of str - start + 1)

/-- The groups that are too long are left out. -/
def extract_strs (input : Text) (regex : Regex UInt8) : List Text :=
  ((searchAll regex input).map fun m => m.captured.getD []).filter (·.length ≤ 10000)

def extract_str (input : Text) (regex : Regex UInt8) : Text :=
  match search regex input with
  | none => []
  | some m => m.text

/-- What a dot does not match. -/
def lineEnd (c : UInt8) : Bool := c = 10 || c = 13

/-- `### Example.*?(?=### )`, and the same of another heading. -/
def headingRegex (heading : Delimiter) : Regex UInt8 :=
  Regex.upTo heading.text (! lineEnd ·) (bytes "### ")

def fence : Text := bytes "```"

/-- What stands behind the fence that opens a block. -/
inductive Shell where
  | bash
  | shell
  | sh
  deriving DecidableEq, Repr

def Shell.opening : Shell → Text
  | .bash => bytes "```bash"
  | .shell => bytes "```shell"
  | .sh => bytes "```sh"

def blockRegex (s : Shell) : Regex UInt8 := between s.opening fence

/-- The text before `### Instruction`, or else before `### Example`. -/
def first_output (input : Text) : Text :=
  match find instructionHeading.text input with
  | some pos_instruction => input.take pos_instruction
  | none =>
    match find exampleHeading.text input with
    | some pos_example => input.take pos_example
    | none => []

def potential_suggestion (input : Text) : Text :=
  let potential_suggestion := first_output input
    ++ extract_str input (headingRegex exampleHeading)
    ++ extract_str input (headingRegex instructionHeading)
  if potential_suggestion = [] then input else potential_suggestion

/-- The loop over the blocks. -/
def pushLoop : List Text → List Text → List Text
  | [], suggestions => suggestions
  | block :: blocks, suggestions =>
    let clean_bash_command := trim block
    if clean_bash_command ≠ [] ∧ clean_bash_command ∉ suggestions then
      pushLoop blocks (suggestions ++ [clean_bash_command])
    else pushLoop blocks suggestions

def extract_suggestions (input : Text) : List Text :=
  let potential_suggestion := potential_suggestion input
  let blocks := extract_strs potential_suggestion (blockRegex .bash)
  let blocks := if blocks.length = 0 then
    extract_strs potential_suggestion (blockRegex .shell) else blocks
  let blocks := if blocks.length = 0 then
    extract_strs potential_suggestion (blockRegex .sh) else blocks
  pushLoop blocks []

/-! ## Blanks -/

theorem rdropWhile_blank (str : Text) : str.rdropWhile blank
    = str.take (str.length - str.reverse.findIdx (! blank ·)) := by
  rw [List.rdropWhile, List.dropWhile_eq_drop_findIdx_not, List.reverse_drop, List.reverse_reverse,
    List.length_reverse]

/-- **What is left has a blank at neither end.** -/
theorem trim_eq (str : Text) : trim str = (str.rdropWhile blank).dropWhile blank := by
  rw [trim, find_first_not_of]
  cases hstart : str.findIdx? (! blank ·) with
  | none =>
    have hall : ∀ c ∈ str, blank c := by simpa using hstart
    rw [List.rdropWhile_eq_nil_iff.mpr hall]
    rfl
  | some start =>
    obtain ⟨hlt, hfirst⟩ := List.findIdx?_eq_some_iff_findIdx_eq.mp hstart
    have hnot : (! blank str[start]) = true := ((List.findIdx_eq hlt).mp hfirst).1
    -- The first character that stays is not behind the last one.
    have hlast : start < str.length - str.reverse.findIdx (! blank ·) := by
      by_contra! hle
      have hbehind : str.length - 1 - start < str.reverse.findIdx (! blank ·) := by omega
      have hblank := List.not_of_lt_findIdx hbehind
      rw [List.getElem_reverse] at hblank
      have hat : str.length - 1 - (str.length - 1 - start) = start := by omega
      simp only [hat, hnot] at hblank
      exact absurd hblank Bool.noConfusion
    have hcount : find_last_not_of str - start + 1
        = str.length - str.reverse.findIdx (! blank ·) - start := by
      rw [find_last_not_of]
      omega
    show (str.drop start).take _ = _
    rw [hcount, ← List.drop_take, rdropWhile_blank, List.dropWhile_eq_drop_findIdx_not,
      List.findIdx_take, hfirst, Nat.min_eq_right (Nat.le_of_lt hlast)]

/-! ## The loop over the blocks -/

/-- The commands of some blocks, of which the first of equal ones is kept. -/
def commands (blocks : List Text) : List Text :=
  ((blocks.map trim).filter (· ≠ [])).eraseDups

theorem filter_notMem_concat (found suggestions : List Text) (command : Text) :
    found.filter (· ∉ suggestions ++ [command])
      = (found.filter (· ∉ suggestions)).filter (! · == command) := by
  rw [List.filter_filter]
  refine List.filter_congr fun c _ => ?_
  simp [Bool.and_comm, beq_eq_decide]

/-- **What was suggested before is not suggested again.** -/
theorem pushLoop_eq (blocks suggestions : List Text) : pushLoop blocks suggestions
    = suggestions ++ (((blocks.map trim).filter (· ≠ [])).filter (· ∉ suggestions)).eraseDups := by
  induction blocks generalizing suggestions with
  | nil => simp [pushLoop]
  | cons block blocks ih =>
    rw [pushLoop, List.map_cons]
    by_cases hempty : trim block = []
    · rw [if_neg fun h => h.1 hempty, ih, List.filter_cons_of_neg (by simp [hempty])]
    rw [List.filter_cons_of_pos (by simp [hempty])]
    by_cases hmem : trim block ∈ suggestions
    · rw [if_neg fun h => h.2 hmem, ih, List.filter_cons_of_neg (by simp [hmem])]
    rw [if_pos ⟨hempty, hmem⟩, ih, List.filter_cons_of_pos (by simp [hmem]), List.eraseDups_cons,
      List.append_assoc, List.singleton_append, filter_notMem_concat]

theorem pushLoop_nil (blocks : List Text) : pushLoop blocks [] = commands blocks := by
  rw [pushLoop_eq, List.nil_append, commands, List.filter_eq_self.mpr (by simp)]

/-! ## What the suggestions are read from -/

/-- From a heading to another one there is the end of a line. -/
def HeadingsApart (input : Text) : Prop :=
  ∀ heading ∈ [exampleHeading, instructionHeading], ∀ before line after,
    input = before ++ (heading.text ++ (line ++ (bytes "### " ++ after))) →
      ∃ c ∈ line, lineEnd c = true

/-- The text in front of the first instruction, or else of the first example, and all of the
text where that is none. -/
def scope (input : Text) : Text :=
  match find instructionHeading.text input <|> find exampleHeading.text input with
  | some (p + 1) => input.take (p + 1)
  | _ => input

variable {input : Text}

/-- **The dot does not match the end of a line**, and so no text of an example is found. -/
theorem headingsApart_iff : HeadingsApart input ↔ search (headingRegex exampleHeading) input = none
    ∧ search (headingRegex instructionHeading) input = none := by
  rw [headingRegex, headingRegex, search_upTo_eq_none_iff, search_upTo_eq_none_iff, HeadingsApart]
  simp

instance : DecidablePred HeadingsApart := fun _ => decidable_of_iff _ headingsApart_iff.symm

/-- The front of a text that has something in it. -/
theorem front_eq {d : Text} {p : ℕ} (h : find d input = some p) :
    (if input.take p = [] then input else input.take p) =
      match some p with
      | some (p + 1) => input.take (p + 1)
      | _ => input := by
  cases p with
  | zero => rfl
  | succ p =>
    have hle := find_le h
    rw [if_neg fun hnil => ?_]
    rw [List.take_eq_nil_iff] at hnil
    rcases hnil with hnil | rfl
    · exact absurd hnil (Nat.succ_ne_zero p)
    · rw [List.length_nil] at hle
      omega

theorem potential_suggestion_eq (h : HeadingsApart input) :
    potential_suggestion input = scope input := by
  obtain ⟨hexample, hinstruction⟩ := headingsApart_iff.mp h
  rw [potential_suggestion, extract_str, extract_str, hexample, hinstruction]
  show (if first_output input ++ [] ++ [] = [] then input else first_output input ++ [] ++ []) = _
  rw [List.append_nil, List.append_nil, first_output, scope]
  cases hpos : find instructionHeading.text input with
  | some p => exact front_eq hpos
  | none =>
    cases hpos : find exampleHeading.text input with
    | some p => exact front_eq hpos
    | none => rfl

/-! ## The blocks -/

/-- The blocks that are not too long. -/
def reasonable (blocks : List Text) : List Text := blocks.filter (·.length ≤ 10000)

/-- Those of `bash`, or else those of `shell`, or else those of `sh`. -/
def preferred (bodies : Shell → List Text) : List Text :=
  if reasonable (bodies .bash) ≠ [] then reasonable (bodies .bash)
  else if reasonable (bodies .shell) ≠ [] then reasonable (bodies .shell)
  else reasonable (bodies .sh)

theorem Shell.opening_ne_nil (s : Shell) : s.opening ≠ [] := by
  cases s <;> decide

theorem extract_suggestions_eq (input : Text) : extract_suggestions input
    = commands (preferred fun s => bodiesOf s.opening fence (potential_suggestion input)) := by
  have hstrs : ∀ s, extract_strs (potential_suggestion input) (blockRegex s)
      = reasonable (bodiesOf s.opening fence (potential_suggestion input)) := fun s => rfl
  simp only [extract_suggestions, hstrs, pushLoop_nil, preferred, List.length_eq_zero_iff]
  split_ifs <;> first | rfl | contradiction

/-- **What is suggested** are the commands between the fences that cut the front of the reply
into pieces. -/
theorem extract_suggestions_eq_iff {suggestions : List Text} (h : HeadingsApart input) :
    extract_suggestions input = suggestions ↔ ∃ bodies : Shell → List Text,
      (∀ s, Fenced s.opening fence (scope input) (bodies s)) ∧
        suggestions = commands (preferred bodies) := by
  have hbodies : ∀ bodies : Shell → List Text,
      (∀ s, Fenced s.opening fence (scope input) (bodies s)) ↔
        bodies = fun s => bodiesOf s.opening fence (scope input) := fun bodies => by
    rw [funext_iff]
    exact forall_congr' fun s => (fenced_iff s.opening_ne_nil).trans eq_comm
  rw [extract_suggestions_eq, potential_suggestion_eq h]
  constructor
  · rintro rfl
    exact ⟨_, (hbodies _).mpr rfl, rfl⟩
  · rintro ⟨bodies, hfenced, rfl⟩
    rw [(hbodies bodies).mp hfenced]

/-- The block of the example is not read. -/
theorem suggests_firstOutput : ∃ bodies : Shell → List Text,
    (∀ s, Fenced s.opening fence
      (scope (bytes "```bash\nls\n```\n### Example\n```bash\ncd\n```")) (bodies s)) ∧
      [bytes "ls"] = commands (preferred bodies) :=
  (extract_suggestions_eq_iff (by decide +kernel)).mp (by decide +kernel)

/-! ## The suggestions -/

/-- What a command is like that the user can choose. -/
structure Suggestion (command : Text) : Prop where
  nonempty : command ≠ []
  trimmed : trim command = command
  short : command.length ≤ 10000
  unfenced : ¬ fence <:+: command

theorem trim_isInfix (str : Text) : trim str <:+: str := by
  rw [trim_eq]
  exact (List.dropWhile_suffix _).isInfix.trans (List.rdropWhile_prefix _ _).isInfix

theorem trim_trim (str : Text) : trim (trim str) = trim str := by
  -- The last character is that in front of the blanks at the end.
  have hend : (trim str).rdropWhile blank = trim str := by
    refine List.rdropWhile_eq_self_iff.mpr fun hne => ?_
    have hsuffix : trim str <:+ str.rdropWhile blank := trim_eq str ▸ List.dropWhile_suffix _
    rw [hsuffix.getLast hne]
    exact List.rdropWhile_last_not _ _ _
  rw [trim_eq (trim str), hend, trim_eq, List.dropWhile_idempotent]

/-- A block of one of the shells. -/
theorem mem_preferred {bodies : Shell → List Text} {block : Text} (h : block ∈ preferred bodies) :
    block.length ≤ 10000 ∧ ∃ s, block ∈ bodies s := by
  have hreasonable : ∀ s, block ∈ reasonable (bodies s) →
      block.length ≤ 10000 ∧ ∃ s, block ∈ bodies s := fun s hs => by
    obtain ⟨hmem, hlength⟩ := List.mem_filter.mp hs
    exact ⟨of_decide_eq_true hlength, s, hmem⟩
  rw [preferred] at h
  split_ifs at h
  · exact hreasonable _ h
  · exact hreasonable _ h
  · exact hreasonable _ h

/-- **Every suggestion** is a command that stands between fences, without the blanks. -/
theorem Suggestion.of_mem {command : Text} (h : command ∈ extract_suggestions input) :
    Suggestion command := by
  rw [extract_suggestions_eq, commands, List.mem_eraseDups, List.mem_filter, List.mem_map] at h
  obtain ⟨⟨block, hblock, rfl⟩, hnonempty⟩ := h
  obtain ⟨hlength, s, hbody⟩ := mem_preferred hblock
  have hfenced := (fenced_iff (r := fence) s.opening_ne_nil).mpr
    (rfl : _ = bodiesOf s.opening fence (potential_suggestion input))
  exact {
    nonempty := of_decide_eq_true hnonempty
    trimmed := trim_trim block
    short := (trim_isInfix block).length_le.trans hlength
    unfenced := fun hfence => hfenced.not_infix_of_mem (by decide) hbody
      (hfence.trans (trim_isInfix block)) }

end Lac
end IntegratedCLI
