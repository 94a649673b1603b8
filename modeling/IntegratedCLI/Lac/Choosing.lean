import IntegratedCLI.Lac.Suggestions
import IntegratedCLI.Lac.EditedText
import IntegratedCLI.Lib.Widths

/-!
# Choosing what is executed

At its end the program shows the commands that were suggested.  The arrow keys go from one to the
other, Enter executes the one that is chosen, `e` lets the user edit it first, and `q` is to quit.
In the mode `loop` this goes on as long as there are suggestions, and none of them is ever taken
away.

The functions are read here without what they print.  A key is a character of the input, and what a
function does not read is there for the next one.  The input does not end by itself: where a
character is read that is not there, the program waits, `Stop.noInput`.

## Main results

* `chooseLoop_ok` : the choice is one of the values, whatever is typed.
* `readLoop_afterEnter` : what an edit reads of the input.
* `executed_confirmed` : what is executed, in every run.
* `chooseAll_not_ok` : in the mode `loop` no input makes the program quit.
-/

namespace IntegratedCLI
namespace Lac

open Widths

/-! ## The program -/

/-- The `switch` over the arrow keys. -/
def arrowChoice (size choice : ℕ) (key : ℤ) : ℕ :=
  if key = 65 then
    if 0 < choice then choice - 1 else choice
  else if key = 66 then
    if choice < unsigned 64 (size - 1) then choice + 1 else choice
  else choice

/-- The loop of the functions that let the user choose, which end at different keys.  The result
is the choice, the key and the input behind it. -/
def chooseLoop (ends : ℤ → Bool) (size choice : ℕ) :
    List ℤ → Except Stop (ℕ × ℤ × List ℤ)
  | [] => .error .noInput
  | key :: input =>
    if key = 27 then
      match input with
      | _ :: arrow :: input => chooseLoop ends size (arrowChoice size choice arrow) input
      | _ => .error .noInput
    else if ends key then .ok (choice, key, input)
    else chooseLoop ends size choice input

def choose_from_vector (to_choose : List Text) (input : List ℤ) :
    Except Stop (ℕ × ℤ × List ℤ) :=
  chooseLoop (· = 10) to_choose.length 0 input

/-- The keys are Enter, `e` and `q`. -/
def choose_from_vector_with_eq (to_choose : List Text) (input : List ℤ) :
    Except Stop (ℕ × ℤ × List ℤ) :=
  chooseLoop (fun key => key = 10 || key = 101 || key = 113) to_choose.length 0 input

/-- The input that is left behind the Enter that ends an edit. -/
def afterEnter (input : List ℤ) : Except Stop (List ℤ) :=
  match input with
  | [] => .error .noInput
  | ch :: input =>
    if ch = 10 then .ok input
    else if ch = 27 then
      match h : handle_escape_sequence input with
      | .error stop => .error stop
      | .ok (_, rest) =>
        have := handle_escape_sequence_length h
        afterEnter rest
    else afterEnter input
termination_by input.length

/-- The command that is executed, if there is one, and the input that is left. -/
def choose_edit_exec (output_lines : List Text) (input : List ℤ) :
    Except Stop (Option Text × List ℤ) := do
  let (choice, key, input) ← choose_from_vector_with_eq output_lines input
  if key = 10 then
    let output_line ← lineAt output_lines choice
    let cmd ← edit_exec output_line false input
    return (some cmd, input)
  else if key = 101 then
    let output_line ← lineAt output_lines choice
    let cmd ← edit_exec output_line true input
    let input ← afterEnter input
    return (some cmd, input)
  else return (none, input)

/-! ## What is read -/

variable {ends : ℤ → Bool} {size choice choice' : ℕ} {key : ℤ} {input rest : List ℤ}

theorem arrowChoice_lt (h : choice < size) : arrowChoice size choice key < size := by
  have hlast : unsigned 64 (size - 1) = (size - 1) % 2 ^ 64 := by
    rw [unsigned]
    omega
  have hle := Nat.mod_le (size - 1) (2 ^ 64)
  rw [arrowChoice, hlast]
  split_ifs <;> omega

/-- **Whatever is typed**, the choice is one of the values, and the key is one of those that end
the loop. -/
theorem chooseLoop_ok (h : chooseLoop ends size choice input = .ok (choice', key, rest))
    (hchoice : choice < size) : choice' < size ∧ ends key = true ∧ key :: rest <:+ input := by
  fun_induction chooseLoop ends size choice input with
  | case1 => cases h
  | case2 choice bracket arrow input ih =>
    obtain ⟨hlt, hends, hrest⟩ := ih h (arrowChoice_lt hchoice)
    exact ⟨hlt, hends, hrest.trans ⟨[27, bracket, arrow], rfl⟩⟩
  | case3 => cases h
  | case4 =>
    cases h
    exact ⟨hchoice, ‹_›, List.suffix_rfl⟩
  | case5 choice key input _ _ ih =>
    obtain ⟨hlt, hends, hrest⟩ := ih h hchoice
    exact ⟨hlt, hends, hrest.trans (List.suffix_cons key input)⟩

theorem chooseLoop_error {stop : Stop} (h : chooseLoop ends size choice input = .error stop) :
    stop = .noInput := by
  fun_induction chooseLoop ends size choice input with
  | case1 => exact (Except.error.inj h).symm
  | case2 _ _ _ _ ih => exact ih h
  | case3 => exact (Except.error.inj h).symm
  | case4 => cases h
  | case5 _ _ _ _ _ ih => exact ih h

theorem choose_from_vector_lt {to_choose : List Text} (hne : to_choose ≠ [])
    (h : choose_from_vector to_choose input = .ok (choice, key, rest)) :
    choice < to_choose.length ∧ key = 10 := by
  obtain ⟨hlt, hends, -⟩ := chooseLoop_ok h (List.length_pos_iff.mpr hne)
  exact ⟨hlt, of_decide_eq_true hends⟩

theorem handle_escape_sequence_suffix {key : EscapeKey}
    (h : handle_escape_sequence input = .ok (key, rest)) : rest <:+ input := by
  rcases input with - | ⟨ch, - | ⟨direction, input⟩⟩ <;> rw [handle_escape_sequence] at h
  · cases h
  · split_ifs at h <;> cases h <;> exact List.nil_suffix
  · split_ifs at h <;> cases h
    · exact ⟨[ch, direction], rfl⟩
    all_goals exact List.suffix_cons _ _

theorem afterEnter_ok (h : afterEnter input = .ok rest) : 10 :: rest <:+ input := by
  fun_induction afterEnter input with
  | case1 => cases h
  | case2 =>
    cases h
    exact List.suffix_rfl
  | case3 => cases h
  | case4 input _ _ hescape _ _ ih =>
    exact ((ih h).trans (handle_escape_sequence_suffix hescape)).trans (List.suffix_cons 27 input)
  | case5 ch input _ _ ih => exact (ih h).trans (List.suffix_cons ch input)

theorem afterEnter_enter : afterEnter (10 :: input) = .ok input := by
  rw [afterEnter, if_pos rfl]

theorem afterEnter_char {ch : ℤ} (henter : ch ≠ 10) (hescape : ch ≠ 27) :
    afterEnter (ch :: input) = afterEnter input := by
  rw [afterEnter, if_neg henter, if_neg hescape]

theorem afterEnter_escape {key : EscapeKey} (h : handle_escape_sequence input = .ok (key, rest)) :
    afterEnter (27 :: input) = afterEnter rest := by
  rw [afterEnter, if_neg (by decide), if_pos rfl]
  split
  · rename_i heq
    rw [h] at heq
    cases heq
  · rename_i heq
    rw [h] at heq
    cases heq
    rfl

/-- **An edit that ends has read an Enter**, and leaves what is behind it. -/
theorem readLoop_afterEnter {e e' : Editor} (h : e.readLoop input = .ok e') :
    ∃ rest, afterEnter input = .ok rest := by
  fun_induction Editor.readLoop e input with
  | case1 => cases h
  | case2 => exact ⟨_, afterEnter_enter⟩
  | case3 => cases h
  | case4 _ _ _ henter hback _ _ ih =>
    rw [afterEnter_char henter (by omega)]
    exact ih h
  | case5 => cases h
  | case6 => cases h
  | case7 _ _ _ _ hescape _ _ _ _ _ ih =>
    rw [afterEnter_escape hescape]
    exact ih h
  | case8 => cases h
  | case9 _ _ _ henter _ hescape _ _ _ ih =>
    rw [afterEnter_char henter hescape]
    exact ih h
  | case10 _ _ _ henter _ hescape _ ih =>
    rw [afterEnter_char henter hescape]
    exact ih h

theorem edit_afterEnter {text command : Text}
    (h : edit_prefilled_input_multiline text input = .ok command) :
    ∃ rest, afterEnter input = .ok rest := by
  obtain ⟨_, -, h⟩ := Fallible.bind_eq_ok.mp h
  obtain ⟨_, hrun, -⟩ := Fallible.bind_eq_ok.mp h
  exact readLoop_afterEnter hrun

/-! ## One choice -/

variable {output_lines : List Text} {cmd : Option Text}

/-- The command is a suggestion, or what an edit has made of it that is in the input. -/
def MadeFrom (input : List ℤ) (line command : Text) : Prop :=
  command = line ∨
    ∃ keys, keys <:+ input ∧ edit_prefilled_input_multiline line keys = .ok command

theorem lineAt_of_lt {choice : ℕ} (h : choice < output_lines.length) :
    lineAt output_lines choice = .ok output_lines[choice] := by
  rw [lineAt, List.getElem?_eq_getElem h]

/-- The choice is of a suggestion, and what is done with it depends on the key. -/
theorem choose_edit_exec_chosen {left : List ℤ} (hlt : choice < output_lines.length)
    (h : choose_from_vector_with_eq output_lines input = .ok (choice, key, left)) :
    choose_edit_exec output_lines input =
      if key = 10 then .ok (some output_lines[choice], left)
      else if key = 101 then do
        let cmd ← edit_prefilled_input_multiline output_lines[choice] left
        let rest ← afterEnter left
        return (some cmd, rest)
      else .ok (none, left) := by
  rw [choose_edit_exec, h, Fallible.bind_ok]
  dsimp only
  rw [lineAt_of_lt hlt]
  rfl

theorem choose_edit_exec_ok (hne : output_lines ≠ [])
    (h : choose_edit_exec output_lines input = .ok (cmd, rest)) :
    rest.length < input.length ∧ rest <:+ input ∧
      cmd.toList.length + rest.count 10 ≤ input.count 10 ∧
        ∀ command ∈ cmd, ∃ line ∈ output_lines, MadeFrom input line command := by
  cases hchosen : choose_from_vector_with_eq output_lines input with
  | error stop =>
    rw [choose_edit_exec, hchosen] at h
    cases h
  | ok chosen =>
    obtain ⟨choice, key, left⟩ := chosen
    obtain ⟨hlt, -, hleft⟩ := chooseLoop_ok hchosen (List.length_pos_iff.mpr hne)
    have hlength := hleft.length_le
    have hcount := hleft.sublist.count_le 10
    have hleft := (List.suffix_cons key left).trans hleft
    rw [List.length_cons] at hlength
    rw [choose_edit_exec_chosen hlt hchosen] at h
    split_ifs at h with henter hedit
    · -- Enter
      cases h
      rw [henter, List.count_cons_self] at hcount
      refine ⟨hlength, hleft, by rw [Option.toList_some, List.length_singleton]; omega, ?_⟩
      rintro command ⟨⟩
      exact ⟨_, List.getElem_mem hlt, .inl rfl⟩
    · -- `e`: the Enter is that which ends the edit
      obtain ⟨command, hcommand, h⟩ := Fallible.bind_eq_ok.mp h
      obtain ⟨rest', hrest, h⟩ := Fallible.bind_eq_ok.mp h
      cases h
      have hsuffix := afterEnter_ok hrest
      have hlength' := hsuffix.length_le
      have hcount' := hsuffix.sublist.count_le 10
      rw [List.count_cons_self] at hcount'
      rw [List.length_cons] at hlength'
      rw [List.count_cons_of_ne (by omega)] at hcount
      refine ⟨by omega, ((List.suffix_cons 10 _).trans hsuffix).trans hleft,
        by rw [Option.toList_some, List.length_singleton]; omega, ?_⟩
      rintro _ ⟨⟩
      exact ⟨_, List.getElem_mem hlt, .inr ⟨left, hleft, hcommand⟩⟩
    · cases h
      have hle := hleft.sublist.count_le 10
      refine ⟨hlength, hleft, by rw [Option.toList_none, List.length_nil]; omega, ?_⟩
      rintro command ⟨⟩

/-- The choice is not out of range, and so it is an edit that is. -/
theorem choose_edit_exec_outOfRange (hne : output_lines ≠ [])
    (h : choose_edit_exec output_lines input = .error .outOfRange) :
    ∃ line ∈ output_lines, ∃ keys,
      edit_prefilled_input_multiline line keys = .error .outOfRange := by
  cases hchosen : choose_from_vector_with_eq output_lines input with
  | error stop =>
    rw [choose_edit_exec, hchosen, chooseLoop_error hchosen] at h
    cases h
  | ok chosen =>
    obtain ⟨choice, key, left⟩ := chosen
    obtain ⟨hlt, -, -⟩ := chooseLoop_ok hchosen (List.length_pos_iff.mpr hne)
    rw [choose_edit_exec_chosen hlt hchosen] at h
    split_ifs at h
    rcases Fallible.bind_eq_error.mp h with hedit | ⟨command, hcommand, h⟩
    · exact ⟨_, List.getElem_mem hlt, left, hedit⟩
    · obtain ⟨rest, hrest⟩ := edit_afterEnter hcommand
      rw [hrest] at h
      cases h

/-! ## Whole runs -/

/-- What was executed, and the input that is left or why nothing is returned. -/
structure Session where
  executed : List Text
  ending : Except Stop (List ℤ)

/-- A choice in front of a run. -/
def Session.after (cmd : Option Text) (run : Session) : Session :=
  ⟨cmd.toList ++ run.executed, run.ending⟩

/-- The loop of the mode `loop`. -/
def chooseAll (output_lines : List Text) (input : List ℤ) : Session :=
  if hne : output_lines ≠ [] then
    match h : choose_edit_exec output_lines input with
    | .error stop => ⟨[], .error stop⟩
    | .ok (cmd, rest) =>
      have := (choose_edit_exec_ok hne h).1
      (chooseAll output_lines rest).after cmd
  else ⟨[], .ok input⟩
termination_by input.length

/-- The values of `llmc_mode`: another one is refused before. -/
inductive Mode where
  | loop
  | exit
  deriving DecidableEq, Repr

/-- The end of `main`, behind the reply of the model. -/
def chooseAndExecute (llmc_mode : Mode) (output_buffer : Text) (input : List ℤ) : Session :=
  let output_lines := extract_suggestions output_buffer
  if output_lines.length ≠ 0 then
    match llmc_mode with
    | .loop => chooseAll output_lines input
    | .exit =>
      match choose_edit_exec output_lines input with
      | .error stop => ⟨[], .error stop⟩
      | .ok (cmd, rest) => Session.after cmd ⟨[], .ok rest⟩
  else ⟨[], .ok input⟩

/-- What the user can rely on: nothing is executed but what was suggested, or what an edit has
made of that, and for each command an Enter was typed.  What is not there is accessed in an edit
only. -/
structure Confirmed (output_lines : List Text) (input : List ℤ) (run : Session) : Prop where
  madeFrom : ∀ command ∈ run.executed, ∃ line ∈ output_lines, MadeFrom input line command
  entered : run.executed.length ≤ input.count 10
  outOfRange : run.ending = .error .outOfRange →
    ∃ line ∈ output_lines, ∃ keys, edit_prefilled_input_multiline line keys = .error .outOfRange

theorem Confirmed.nothing {ending : Except Stop (List ℤ)} (h : ending = .error .outOfRange →
    ∃ line ∈ output_lines, ∃ keys, edit_prefilled_input_multiline line keys = .error .outOfRange) :
    Confirmed output_lines input ⟨[], ending⟩ :=
  ⟨fun _ hmem => absurd hmem List.not_mem_nil, Nat.zero_le _, h⟩

/-- One choice keeps to it, and so does what follows. -/
theorem Confirmed.after {run : Session} (hne : output_lines ≠ [])
    (h : choose_edit_exec output_lines input = .ok (cmd, rest))
    (hrun : Confirmed output_lines rest run) : Confirmed output_lines input (run.after cmd) := by
  obtain ⟨-, hrest, hcount, hmade⟩ := choose_edit_exec_ok hne h
  refine ⟨fun command hcommand => ?_, ?_, hrun.outOfRange⟩
  · rcases List.mem_append.mp hcommand with hcommand | hcommand
    · exact hmade command (Option.mem_toList.mp hcommand)
    · obtain ⟨line, hline, hmade⟩ := hrun.madeFrom command hcommand
      refine ⟨line, hline, hmade.imp_right ?_⟩
      rintro ⟨keys, hkeys, hedit⟩
      exact ⟨keys, hkeys.trans hrest, hedit⟩
  · have hentered := hrun.entered
    rw [Session.after, List.length_append]
    omega

theorem chooseAll_confirmed (output_lines : List Text) (input : List ℤ) :
    Confirmed output_lines input (chooseAll output_lines input) := by
  fun_induction chooseAll output_lines input with
  | case1 input hne stop h =>
    refine .nothing fun hstop => ?_
    cases hstop
    exact choose_edit_exec_outOfRange hne h
  | case2 input hne cmd rest h _ ih => exact ih.after hne h
  | case3 => exact .nothing fun h => by cases h

/-- **What is executed is confirmed**, in both modes, whatever the model has written and whatever
is typed. -/
theorem executed_confirmed (llmc_mode : Mode) (output_buffer : Text) (input : List ℤ) :
    Confirmed (extract_suggestions output_buffer) input
      (chooseAndExecute llmc_mode output_buffer input) := by
  have hnothing : ∀ rest : List ℤ,
      Confirmed (extract_suggestions output_buffer) rest ⟨[], .ok rest⟩ :=
    fun rest => .nothing fun h => by cases h
  unfold chooseAndExecute
  by_cases hlength : (extract_suggestions output_buffer).length ≠ 0
  · have hne : extract_suggestions output_buffer ≠ [] := mt List.length_eq_zero_iff.mpr hlength
    rw [if_pos hlength]
    cases llmc_mode with
    | loop => exact chooseAll_confirmed _ input
    | exit =>
      cases h : choose_edit_exec (extract_suggestions output_buffer) input with
      | error stop =>
        refine .nothing fun hstop => ?_
        cases hstop
        exact choose_edit_exec_outOfRange hne h
      | ok chosen => exact (hnothing chosen.2).after hne h
  · rw [if_neg hlength]
    exact hnothing input

/-- In the mode `loop` no input makes the program quit. -/
theorem chooseAll_not_ok (hne : output_lines ≠ []) (input : List ℤ) :
    ∃ stop, (chooseAll output_lines input).ending = .error stop := by
  fun_induction chooseAll output_lines input with
  | case1 _ _ stop => exact ⟨stop, rfl⟩
  | case2 _ _ _ _ _ _ ih => exact ih
  | case3 _ h => exact absurd hne h

end Lac
end IntegratedCLI
