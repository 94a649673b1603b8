import Mathlib.Data.Int.Order.Basic
import IntegratedCLI.Lib.TextBuffer
import IntegratedCLI.Lib.Fallible

/-!
# Editing a suggested command

`edit_prefilled_input_multiline` lets the user edit a suggested command of several lines.
The text is split into lines, each key moves the cursor or changes a line, and Enter ends
the loop.  The lines are then drawn once more, from the last of those that there were in the
beginning, and put together again.

The function is read here without what it prints: `refresh_multiline` reads the line of the
cursor and gives the column that the cursor goes to.  An access to a line that is not there
has no meaning: `Stop.outOfRange`.

## Main results

* `split_str_eq` : the lines are those of the text that are not empty.
* `Editor.Shows.press` : every key does to the lines what its command does to the text.
* `Editor.Shows.run` : so the cursor is on a line all along, and a line is gone for each key
  that merges two.
* `edit_inBounds_iff` : the accesses are within range exactly if no key merges lines.
-/

namespace IntegratedCLI
namespace Lac

open TextBuffer

abbrev Text := List UInt8

def newline : UInt8 := 10

/-- Why nothing is returned: an access out of range, or no more input. -/
inductive Stop where
  | outOfRange
  | noInput
  deriving DecidableEq, Repr

/-! ## The program -/

/-- The loop of `split_str`. -/
def splitLoop (delimiter : UInt8) : Text → List Text → Text → List Text × Text
  | [], result, temp => (result, temp)
  | ch :: str, result, temp =>
    if ch = delimiter then
      if temp ≠ [] then splitLoop delimiter str (result ++ [temp]) []
      else splitLoop delimiter str result temp
    else splitLoop delimiter str result (temp ++ [ch])

def split_str (str : Text) (delimiter : UInt8) : List Text :=
  let (result, temp) := splitLoop delimiter str [] []
  if temp ≠ [] then result ++ [temp] else result

/-- `lines[i]`. -/
def lineAt (lines : List Text) (i : ℕ) : Except Stop Text :=
  match lines[i]? with
  | some line => .ok line
  | none => .error .outOfRange

/-- The column that the cursor is put in. -/
def refresh_multiline (lines : List Text) (pos_y pos_x : ℕ) : Except Stop ℕ := do
  let line ← lineAt lines pos_y
  return min pos_x line.length + 1

structure Editor where
  lines : List Text
  pos_y : ℕ
  pos_x : ℕ
  deriving DecidableEq, Repr

namespace Editor

/-- The lines are drawn from that of the cursor on. -/
def refresh (e : Editor) : Except Stop Editor := do
  let _ ← refresh_multiline e.lines e.pos_y e.pos_x
  return e

def backspace (e : Editor) : Except Stop Editor :=
  if 0 < e.pos_x then do
    let line ← lineAt e.lines e.pos_y
    if e.pos_x - 1 ≤ line.length then
      refresh ⟨e.lines.set e.pos_y (line.eraseIdx (e.pos_x - 1)), e.pos_y, e.pos_x - 1⟩
    else .error .outOfRange
  else if 0 < e.pos_y then do
    let previous ← lineAt e.lines (e.pos_y - 1)
    let line ← lineAt e.lines e.pos_y
    refresh ⟨(e.lines.set (e.pos_y - 1) (previous ++ line)).eraseIdx e.pos_y, e.pos_y - 1,
      previous.length⟩
  else return e

def insert (e : Editor) (ch : UInt8) : Except Stop Editor := do
  let line ← lineAt e.lines e.pos_y
  if e.pos_x ≤ line.length then
    refresh ⟨e.lines.set e.pos_y (line.take e.pos_x ++ ch :: line.drop e.pos_x), e.pos_y,
      e.pos_x + 1⟩
  else .error .outOfRange

end Editor

/-- What `handle_escape_sequence` returns. -/
inductive EscapeKey where
  | up
  | down
  | right
  | left
  | backWord
  | forwardWord
  | other
  deriving DecidableEq, Repr

/-- The `switch` over what follows `[`. -/
def arrowKey (ch : ℤ) : EscapeKey :=
  if ch = 65 then .up
  else if ch = 66 then .down
  else if ch = 67 then .right
  else if ch = 68 then .left
  else .other

/-- The sequence is `[` with one of `A` to `D`, or `b` or `f`.  The input behind it is
returned too. -/
def handle_escape_sequence : List ℤ → Except Stop (EscapeKey × List ℤ)
  | [] => .error .noInput
  | [ch] =>
    if ch = 91 then .error .noInput
    else if ch = 98 then .ok (.backWord, [])
    else if ch = 102 then .ok (.forwardWord, [])
    else .ok (.other, [])
  | ch :: direction :: input =>
    if ch = 91 then .ok (arrowKey direction, input)
    else if ch = 98 then .ok (.backWord, direction :: input)
    else if ch = 102 then .ok (.forwardWord, direction :: input)
    else .ok (.other, direction :: input)

theorem handle_escape_sequence_length {input rest : List ℤ} {key : EscapeKey}
    (h : handle_escape_sequence input = .ok (key, rest)) : rest.length < input.length := by
  rcases input with - | ⟨ch, - | ⟨direction, input⟩⟩ <;> rw [handle_escape_sequence] at h
  · cases h
  · split_ifs at h <;> cases h <;> exact Nat.zero_lt_one
  · split_ifs at h <;> cases h
    · exact Nat.lt_succ_of_lt (Nat.lt_succ_self _)
    all_goals exact Nat.lt_succ_self _

namespace Editor

/-- What the loop does for an escape sequence.  The keys that go by words do nothing here. -/
def escape (e : Editor) : EscapeKey → Except Stop Editor
  | .right => do
    let line ← lineAt e.lines e.pos_y
    if e.pos_x < line.length then return ⟨e.lines, e.pos_y, e.pos_x + 1⟩ else return e
  | .left => if 0 < e.pos_x then return ⟨e.lines, e.pos_y, e.pos_x - 1⟩ else return e
  | .up =>
    if 0 < e.pos_y then do
      let line ← lineAt e.lines (e.pos_y - 1)
      refresh ⟨e.lines, e.pos_y - 1, min e.pos_x line.length⟩
    else return e
  | .down =>
    if e.pos_y < e.lines.length - 1 then do
      let line ← lineAt e.lines (e.pos_y + 1)
      refresh ⟨e.lines, e.pos_y + 1, min e.pos_x line.length⟩
    else return e
  | _ => return e

/-- The loop, which reads its input character by character. -/
def readLoop (e : Editor) (input : List ℤ) : Except Stop Editor :=
  match input with
  | [] => .error .noInput
  | ch :: input =>
    if ch = 10 then .ok e
    else if ch = 127 ∨ ch = 8 then
      match e.backspace with
      | .error stop => .error stop
      | .ok e => readLoop e input
    else if ch = 27 then
      match h : handle_escape_sequence input with
      | .error stop => .error stop
      | .ok (key, rest) =>
        have := handle_escape_sequence_length h
        match e.escape key with
        | .error stop => .error stop
        | .ok e => readLoop e rest
    else if 32 ≤ ch ∧ ch ≤ 126 then
      match e.insert (.ofNat ch.toNat) with
      | .error stop => .error stop
      | .ok e => readLoop e input
    else readLoop e input
termination_by input.length

/-- The lines and the cursor before the loop. -/
def start (prefilled_text : Text) : Except Stop Editor :=
  let lines := split_str prefilled_text newline
  match lines.getLast? with
  | none => .error .outOfRange
  | some back => do
    let _ ← refresh_multiline lines 0 0
    refresh ⟨lines, lines.length - 1, back.length⟩

end Editor

def edit_prefilled_input_multiline (prefilled_text : Text) (input : List ℤ) :
    Except Stop Text := do
  let e ← Editor.start prefilled_text
  let max_visible_lines := e.lines.length
  let e ← e.readLoop input
  let last ← lineAt e.lines (max_visible_lines - 1)
  let _ ← refresh_multiline e.lines (max_visible_lines - 1) last.length
  return e.lines.foldl (fun final_input line => final_input ++ (line ++ [newline])) []

/-! ## Splitting into lines -/

/-- **The lines are those that are not empty.** -/
theorem splitLoop_eq {delimiter : UInt8} {str temp : Text} {result : List Text}
    (h : delimiter ∉ temp) :
    (let (result', temp') := splitLoop delimiter str result temp
      if temp' ≠ [] then result' ++ [temp'] else result')
      = result ++ ((temp ++ str).splitOn delimiter).filter (· ≠ []) := by
  induction str generalizing result temp with
  | nil =>
    rw [List.append_nil, List.splitOn_eq_singleton h, splitLoop, List.filter_cons]
    by_cases htemp : temp = [] <;> simp [htemp]
  | cons ch str ih =>
    rw [splitLoop]
    by_cases hch : ch = delimiter
    · rw [if_pos hch, hch, List.splitOn_append_cons_self_of_not_mem h, List.filter_cons]
      by_cases htemp : temp = []
      · rw [if_neg (not_not.mpr htemp), ih h, htemp]
        simp
      · rw [if_pos htemp, ih List.not_mem_nil]
        simp [htemp]
    · have hmem : delimiter ∉ temp ++ [ch] := by
        simp [h, Ne.symm hch]
      rw [if_neg hch, ih hmem, List.append_assoc, List.singleton_append]

theorem split_str_eq (str : Text) (delimiter : UInt8) :
    split_str str delimiter = (str.splitOn delimiter).filter (· ≠ []) := by
  have h := @splitLoop_eq delimiter str [] [] List.not_mem_nil
  rw [List.nil_append, List.nil_append] at h
  exact h

/-! ## The keys -/

/-- The keys that edit.  A backspace is sent as one of two characters. -/
inductive Key where
  | printable (ch : ℕ) (h : 32 ≤ ch ∧ ch ≤ 126)
  | backspace (rubout : Bool)
  | up
  | down
  | right
  | left
  deriving DecidableEq, Repr

/-- What the terminal sends for a key. -/
def Key.input : Key → List ℤ
  | .printable ch _ => [ch]
  | .backspace rubout => [if rubout then 127 else 8]
  | .up => [27, 91, 65]
  | .down => [27, 91, 66]
  | .right => [27, 91, 67]
  | .left => [27, 91, 68]

/-- The input of some keys and then Enter. -/
def keyInput (keys : List Key) : List ℤ := keys.flatMap Key.input ++ [10]

namespace Editor

/-- What the loop does for a key. -/
def press (e : Editor) : Key → Except Stop Editor
  | .printable ch _ => e.insert (.ofNat ch)
  | .backspace _ => e.backspace
  | .up => e.escape .up
  | .down => e.escape .down
  | .right => e.escape .right
  | .left => e.escape .left

theorem readLoop_key (e : Editor) (key : Key) (input : List ℤ) :
    e.readLoop (key.input ++ input) = e.press key >>= fun e => e.readLoop input := by
  have hbind : ∀ x : Except Stop Editor, (x >>= fun e => e.readLoop input)
      = match x with
        | .error stop => .error stop
        | .ok e => e.readLoop input := fun x => by cases x <;> rfl
  have harrow : ∀ ch, e.readLoop (27 :: 91 :: ch :: input)
      = e.escape (arrowKey ch) >>= fun e => e.readLoop input := fun ch => by
    rw [readLoop, hbind]
    simp [handle_escape_sequence]
  cases key with
  | printable ch h =>
    have hch : ((ch : ℤ) ≠ 10 ∧ ¬ ((ch : ℤ) = 127 ∨ (ch : ℤ) = 8) ∧ (ch : ℤ) ≠ 27)
        ∧ 32 ≤ (ch : ℤ) ∧ (ch : ℤ) ≤ 126 := by omega
    rw [Key.input, List.singleton_append, readLoop, if_neg hch.1.1, if_neg hch.1.2.1,
      if_neg hch.1.2.2, if_pos hch.2, press, Int.toNat_natCast, hbind]
  | backspace rubout =>
    rw [Key.input, List.singleton_append, readLoop, press, hbind]
    cases rubout <;> simp
  | up => exact harrow 65
  | down => exact harrow 66
  | right => exact harrow 67
  | left => exact harrow 68

theorem readLoop_keyInput (e : Editor) (keys : List Key) :
    e.readLoop (keyInput keys) = keys.foldlM press e := by
  induction keys generalizing e with
  | nil =>
    rw [keyInput, List.flatMap_nil, List.nil_append, readLoop, if_pos rfl]
    rfl
  | cons key keys ih =>
    rw [keyInput, List.flatMap_cons, List.append_assoc, readLoop_key, List.foldlM_cons]
    exact congrArg _ (funext ih)

/-! ## What the keys do to the lines -/

variable {above below : List Text} {left right line : Text} {a : UInt8}

/-- The editor with its cursor between two halves of a line. -/
def ofLines (above : List Text) (left right : Text) (below : List Text) : Editor :=
  ⟨above ++ (left ++ right) :: below, above.length, left.length⟩

theorem lineAt_append : lineAt (above ++ line :: below) above.length = .ok line := by
  rw [lineAt, List.getElem?_append_right (Nat.le_refl _), Nat.sub_self]
  rfl

theorem refresh_ofLines :
    (ofLines above left right below).refresh = .ok (ofLines above left right below) := by
  rw [refresh, ofLines, refresh_multiline, lineAt_append]
  rfl

theorem set_append : (above ++ line :: below).set above.length left = above ++ left :: below := by
  rw [List.set_append_right _ _ (Nat.le_refl _), Nat.sub_self, List.set_cons_zero]

theorem insert_ofLines :
    (ofLines above left right below).insert a = .ok (ofLines above (left ++ [a]) right below) := by
  have hle : left.length ≤ (left ++ right).length := by
    rw [List.length_append]
    exact Nat.le_add_right _ _
  have hline : left ++ a :: right = left ++ [a] ++ right := by
    rw [List.append_assoc, List.singleton_append]
  rw [insert, ofLines, lineAt_append]
  show (if left.length ≤ (left ++ right).length then _ else _) = _
  rw [if_pos hle, List.take_left, List.drop_left, set_append, hline]
  have hlength : left.length + 1 = (left ++ [a]).length := by simp
  rw [hlength]
  exact refresh_ofLines

theorem backspace_ofLines :
    (ofLines above (left ++ [a]) right below).backspace = .ok (ofLines above left right below) := by
  have hlength : (left ++ [a]).length - 1 = left.length := by simp
  have hle : left.length ≤ (left ++ [a] ++ right).length := by
    rw [List.length_append, List.length_append]
    omega
  have herase : (left ++ [a] ++ right).eraseIdx left.length = left ++ right := by
    rw [List.append_assoc, List.eraseIdx_append_of_length_le (Nat.le_refl _), Nat.sub_self]
    rfl
  rw [backspace, ofLines, if_pos (by simp), lineAt_append]
  show (if (left ++ [a]).length - 1 ≤ _ then _ else _) = _
  rw [hlength, if_pos hle, herase, set_append]
  exact refresh_ofLines

/-- At the start of a line the line above takes it up. -/
theorem backspace_ofLines_start :
    (ofLines (above ++ [line]) [] right below).backspace
      = .ok (ofLines above line right below) := by
  have hlines : above ++ [line] ++ ([] ++ right) :: below = above ++ line :: right :: below := by
    rw [List.append_assoc, List.nil_append, List.singleton_append]
  have hprevious : (above ++ [line]).length - 1 = above.length := by simp
  have hline : lineAt (above ++ line :: right :: below) (above ++ [line]).length = .ok right := by
    rw [← List.singleton_append, ← List.append_assoc]
    exact lineAt_append
  have herase : (above ++ (line ++ right) :: right :: below).eraseIdx (above ++ [line]).length
      = above ++ (line ++ right) :: below := by
    rw [List.eraseIdx_append_of_length_le (by simp), List.length_append, Nat.add_sub_cancel_left]
    rfl
  rw [backspace, ofLines, if_neg (by simp), if_pos (by simp), hlines, hprevious, lineAt_append,
    hline]
  show refresh ⟨((above ++ line :: right :: below).set above.length (line ++ right)).eraseIdx _,
    above.length, line.length⟩ = _
  rw [set_append, herase]
  exact refresh_ofLines

theorem backspace_ofLines_first :
    (ofLines [] [] right below).backspace = .ok (ofLines [] [] right below) := rfl

theorem right_ofLines :
    (ofLines above left (a :: right) below).escape .right
      = .ok (ofLines above (left ++ [a]) right below) := by
  have hlt : left.length < (left ++ a :: right).length := by simp
  rw [escape, ofLines, lineAt_append]
  show (if left.length < (left ++ a :: right).length then _ else _) = _
  rw [if_pos hlt, ofLines, List.append_assoc, List.singleton_append, List.length_append,
    List.length_singleton]
  rfl

theorem right_ofLines_end :
    (ofLines above left [] below).escape .right = .ok (ofLines above left [] below) := by
  have hlt : ¬ left.length < (left ++ []).length := by simp
  rw [escape, ofLines, lineAt_append]
  show (if left.length < (left ++ []).length then _ else _) = _
  rw [if_neg hlt]
  rfl

theorem left_ofLines :
    (ofLines above (left ++ [a]) right below).escape .left
      = .ok (ofLines above left (a :: right) below) := by
  rw [escape, ofLines, if_pos (by simp), ofLines, List.append_assoc, List.singleton_append,
    List.length_append, List.length_singleton, Nat.add_sub_cancel]
  rfl

theorem left_ofLines_start :
    (ofLines above [] right below).escape .left = .ok (ofLines above [] right below) := rfl

/-- A line cut at the column, or at its end. -/
theorem refresh_cut {n : ℕ} :
    refresh ⟨above ++ line :: below, above.length, min n line.length⟩
      = .ok (ofLines above (line.take n) (line.drop n) below) := by
  have hcut : (⟨above ++ line :: below, above.length, min n line.length⟩ : Editor)
      = ofLines above (line.take n) (line.drop n) below := by
    rw [ofLines, List.take_append_drop, List.length_take]
  rw [hcut, refresh_ofLines]

theorem up_ofLines :
    (ofLines (above ++ [line]) left right below).escape .up
      = .ok (ofLines above (line.take left.length) (line.drop left.length)
          ((left ++ right) :: below)) := by
  have hprevious : (above ++ [line]).length - 1 = above.length := by simp
  rw [escape, ofLines, if_pos (by simp), hprevious, List.append_assoc, List.singleton_append,
    lineAt_append]
  exact refresh_cut

theorem up_ofLines_first :
    (ofLines [] left right below).escape .up = .ok (ofLines [] left right below) := rfl

theorem down_ofLines :
    (ofLines above left right (line :: below)).escape .down
      = .ok (ofLines (above ++ [left ++ right]) (line.take left.length) (line.drop left.length)
          below) := by
  have hnext : above.length + 1 = (above ++ [left ++ right]).length := by simp
  have hlines : above ++ (left ++ right) :: line :: below
      = above ++ [left ++ right] ++ line :: below := by
    rw [List.append_assoc, List.singleton_append]
  have hlt : above.length < (above ++ (left ++ right) :: line :: below).length - 1 := by
    simp only [List.length_append, List.length_cons]
    omega
  rw [escape, ofLines, if_pos hlt, hnext, hlines, lineAt_append]
  exact refresh_cut

theorem down_ofLines_last :
    (ofLines above left right []).escape .down = .ok (ofLines above left right []) := by
  have hlt : ¬ above.length < (above ++ [left ++ right]).length - 1 := by simp
  rw [escape, ofLines, if_neg hlt]
  rfl

end Editor

/-! ## What the keys do to the text -/

/-- The command of a key on the whole text. -/
def Key.edit : Key → Buffer UInt8 → Buffer UInt8
  | .printable ch _ => Buffer.insert (.ofNat ch)
  | .backspace _ => Buffer.delete
  | .up => Buffer.goUp newline
  | .down => Buffer.goDown newline
  | .right => Buffer.goRight newline
  | .left => Buffer.goLeft newline

namespace Editor

/-- No line has a newline in it. -/
structure Clean (above : List Text) (left right : Text) (below : List Text) : Prop where
  noneAbove : ∀ line ∈ above, newline ∉ line
  noneLeft : newline ∉ left
  noneRight : newline ∉ right
  noneBelow : ∀ line ∈ below, newline ∉ line

/-- The lines of the editor are those of the text, and the cursor is at the same place. -/
inductive Shows : Editor → Buffer UInt8 → Prop where
  | intro {above : List Text} {left right : Text} {below : List Text}
      (h : Clean above left right below) :
      Shows (ofLines above left right below) (Buffer.ofLines newline above left right below)

/-- The key puts the line of the cursor behind the one above. -/
def Merges (e : Editor) : Key → Prop
  | .backspace _ => e.pos_x = 0 ∧ 0 < e.pos_y
  | _ => False

instance (e : Editor) : DecidablePred e.Merges
  | .backspace _ => inferInstanceAs (Decidable (_ ∧ _))
  | .printable _ _ | .up | .down | .right | .left => inferInstanceAs (Decidable False)

variable {e : Editor} {b : Buffer UInt8}

/-- What a key leads to: the text of its command, and a line less if it merges two. -/
def Leads (e : Editor) (b : Buffer UInt8) (key : Key) : Prop :=
  ∃ e', e.press key = .ok e' ∧ Shows e' (key.edit b)
    ∧ e.lines.length = e'.lines.length + if e.Merges key then 1 else 0

/-- Where nothing is merged the number of lines is the same. -/
theorem leads {key : Key} {e' : Editor} {b' : Buffer UInt8} (hpress : e.press key = .ok e')
    (hb : key.edit b = b') (hshows : Shows e' b') (hmerges : ¬ e.Merges key)
    (hlines : e.lines.length = e'.lines.length) : Leads e b key :=
  ⟨e', hpress, hb ▸ hshows, by rw [if_neg hmerges, hlines, Nat.add_zero]⟩

namespace Clean

theorem newline_ne (h : 32 ≤ ch ∧ ch ≤ 126) : newline ≠ .ofNat ch := fun heq => by
  have hmod : ch % 256 = ch := Nat.mod_eq_of_lt (by omega)
  have hch := congrArg UInt8.toNat heq
  rw [UInt8.toNat_ofNat', hmod] at hch
  exact absurd (hch ▸ h.1) (by decide)

theorem merged {line : Text} (h : Clean (above ++ [line]) [] right below) :
    Clean above line right below :=
  ⟨fun l hl => h.noneAbove l (List.mem_append_left _ hl), h.noneAbove line (by simp), h.noneRight, h.noneBelow⟩

theorem up {line : Text} (h : Clean (above ++ [line]) left right below) :
    Clean above (line.take left.length) (line.drop left.length) ((left ++ right) :: below) := by
  have hline : newline ∉ line := h.noneAbove line (by simp)
  refine ⟨fun l hl => h.noneAbove l (List.mem_append_left _ hl),
    fun hmem => hline (List.mem_of_mem_take hmem), fun hmem => hline (List.mem_of_mem_drop hmem),
    fun l hl => ?_⟩
  rcases List.mem_cons.mp hl with rfl | hl
  · rw [List.mem_append, not_or]
    exact ⟨h.noneLeft, h.noneRight⟩
  · exact h.noneBelow l hl

theorem down {line : Text} (h : Clean above left right (line :: below)) :
    Clean (above ++ [left ++ right]) (line.take left.length) (line.drop left.length) below := by
  have hline : newline ∉ line := h.noneBelow line List.mem_cons_self
  refine ⟨fun l hl => ?_, fun hmem => hline (List.mem_of_mem_take hmem),
    fun hmem => hline (List.mem_of_mem_drop hmem), fun l hl => h.noneBelow l (List.mem_cons_of_mem _ hl)⟩
  rcases List.mem_append.mp hl with hl | hl
  · exact h.noneAbove l hl
  · rw [List.mem_singleton.mp hl, List.mem_append, not_or]
    exact ⟨h.noneLeft, h.noneRight⟩

end Clean

/-- **A key does to the lines what its command does to the text.** -/
theorem Shows.press (h : Shows e b) (key : Key) : Leads e b key := by
  obtain ⟨hclean⟩ := h
  rename_i above left right below
  cases key with
  | printable ch hch =>
    have hclean' : Clean above (left ++ [.ofNat ch]) right below :=
      ⟨hclean.noneAbove, by simp [hclean.noneLeft, Clean.newline_ne hch], hclean.noneRight, hclean.noneBelow⟩
    exact leads insert_ofLines Buffer.insert_ofLines ⟨hclean'⟩ id (by simp [ofLines])
  | backspace rubout =>
    rcases left.eq_nil_or_concat with rfl | ⟨left, a, rfl⟩
    · rcases above.eq_nil_or_concat with rfl | ⟨above, line, rfl⟩
      · exact leads backspace_ofLines_first Buffer.delete_ofLines_first ⟨hclean⟩
          (fun h => Nat.lt_irrefl _ h.2) rfl
      · rw [List.concat_eq_append] at hclean ⊢
        have hmerges : (ofLines (above ++ [line]) [] right below).Merges (.backspace rubout) :=
          ⟨rfl, by simp [ofLines]⟩
        refine ⟨_, backspace_ofLines_start, ?_, ?_⟩
        · show Shows _ (Buffer.ofLines newline (above ++ [line]) [] right below).delete
          rw [Buffer.delete_ofLines_start]
          exact ⟨hclean.merged⟩
        · rw [if_pos hmerges]
          simp [ofLines]
          omega
    · rw [List.concat_eq_append] at hclean ⊢
      have hleft : newline ∉ left := fun hmem => hclean.noneLeft (List.mem_append_left _ hmem)
      exact leads backspace_ofLines Buffer.delete_ofLines
        ⟨hclean.noneAbove, hleft, hclean.noneRight, hclean.noneBelow⟩
        (fun h => absurd h.1 (by simp [ofLines])) (by simp [ofLines])
  | up =>
    rcases above.eq_nil_or_concat with rfl | ⟨above, line, rfl⟩
    · exact leads up_ofLines_first (Buffer.goUp_ofLines_first hclean.noneLeft) ⟨hclean⟩ id rfl
    · rw [List.concat_eq_append] at hclean ⊢
      exact leads up_ofLines (Buffer.goUp_ofLines hclean.noneLeft (hclean.noneAbove line (by simp)))
        ⟨hclean.up⟩ id (by simp [ofLines])
  | down =>
    cases below with
    | nil =>
      exact leads down_ofLines_last (Buffer.goDown_ofLines_last hclean.noneRight) ⟨hclean⟩ id rfl
    | cons line below =>
      exact leads down_ofLines
        (Buffer.goDown_ofLines hclean.noneLeft hclean.noneRight (hclean.noneBelow line List.mem_cons_self))
        ⟨hclean.down⟩ id (by simp [ofLines])
  | right =>
    cases right with
    | nil => exact leads right_ofLines_end Buffer.goRight_ofLines_end ⟨hclean⟩ id rfl
    | cons a right =>
      have hright := not_or.mp (mt List.mem_cons.mpr hclean.noneRight)
      exact leads right_ofLines (Buffer.goRight_ofLines hclean.noneRight)
        ⟨hclean.noneAbove, by simp [hclean.noneLeft, hright.1], hright.2, hclean.noneBelow⟩ id
        (by simp [ofLines])
  | left =>
    rcases left.eq_nil_or_concat with rfl | ⟨left, a, rfl⟩
    · exact leads left_ofLines_start Buffer.goLeft_ofLines_start ⟨hclean⟩ id rfl
    · rw [List.concat_eq_append] at hclean ⊢
      have hleft := not_or.mp (mt List.mem_append.mpr hclean.noneLeft)
      exact leads left_ofLines (Buffer.goLeft_ofLines hclean.noneLeft)
        ⟨hclean.noneAbove, hleft.1, by simpa [hclean.noneRight] using hleft.2, hclean.noneBelow⟩ id
        (by simp [ofLines])

/-! ## Runs -/

/-- One of the keys merges two lines. -/
def MergesIn (e : Editor) : List Key → Prop
  | [] => False
  | key :: keys => e.Merges key ∨ ∃ e', e.press key = .ok e' ∧ MergesIn e' keys

theorem MergesIn.append {before : List Key} (after : List Key) (h : e.MergesIn before) :
    e.MergesIn (before ++ after) := by
  induction before generalizing e with
  | nil => exact h.elim
  | cons key before ih =>
    rcases h with h | ⟨e', hpress, h⟩
    · exact .inl h
    · exact .inr ⟨e', hpress, ih h⟩

/-- The text after the commands of the keys. -/
def edited (b : Buffer UInt8) (keys : List Key) : Buffer UInt8 :=
  keys.foldl (fun b key => key.edit b) b

/-- **A run does to the lines what the commands do to the text.**  There are fewer lines
behind it exactly if lines were merged. -/
theorem Shows.run (h : Shows e b) (keys : List Key) :
    ∃ e', keys.foldlM Editor.press e = .ok e' ∧ Shows e' (edited b keys)
      ∧ e'.lines.length ≤ e.lines.length
      ∧ (e.MergesIn keys ↔ e'.lines.length < e.lines.length) := by
  induction keys generalizing e b with
  | nil => exact ⟨e, rfl, h, Nat.le_refl _, iff_of_false id (Nat.lt_irrefl _)⟩
  | cons key keys ih =>
    obtain ⟨e₁, hpress, hshows₁, hlines⟩ := h.press key
    obtain ⟨e', hrun, hshows, hle, hmerges⟩ := ih hshows₁
    refine ⟨e', by rw [List.foldlM_cons, hpress]; exact hrun, hshows, by omega, ?_⟩
    have htail : (∃ e', e.press key = .ok e' ∧ MergesIn e' keys)
        ↔ e'.lines.length < e₁.lines.length := by
      rw [hpress, ← hmerges]
      exact ⟨fun ⟨e₂, heq, h⟩ => by cases heq; exact h, fun h => ⟨e₁, rfl, h⟩⟩
    rw [MergesIn, htail]
    split at hlines
    · exact iff_of_true (.inl ‹_›) (by omega)
    · rw [or_iff_right ‹_›]
      omega

/-- The cursor is on a line, and not behind its end. -/
def InRange (e : Editor) : Prop := ∃ line, e.lines[e.pos_y]? = some line ∧ e.pos_x ≤ line.length

theorem Shows.inRange (h : Shows e b) : e.InRange := by
  obtain ⟨hclean⟩ := h
  rename_i above left right below
  refine ⟨left ++ right, ?_, ?_⟩
  · rw [ofLines, List.getElem?_append_right (Nat.le_refl _), Nat.sub_self]
    rfl
  · rw [List.length_append]
    exact Nat.le_add_right _ _

/-! ## From the text to the result -/

variable {text : Text}

/-- Where there is more than newlines there is a line. -/
theorem split_str_ne_nil (h : ∃ c ∈ text, c ≠ newline) : split_str text newline ≠ [] := by
  obtain ⟨c, hc, hne⟩ := h
  have hmem : c ∈ ended newline (text.splitOn newline) := by
    rw [ended_splitOn]
    exact List.mem_append_left _ hc
  obtain ⟨line, hline, hcline⟩ := List.mem_flatMap.mp hmem
  have hin : c ∈ line := (List.mem_append.mp hcline).resolve_right (by simpa using hne)
  rw [split_str_eq]
  exact List.ne_nil_of_mem (List.mem_filter.mpr ⟨hline, by simp [List.ne_nil_of_mem hin]⟩)

theorem lineAt_zero {lines : List Text} (h : lines ≠ []) : ∃ line, lineAt lines 0 = .ok line := by
  obtain ⟨line, rest, rfl⟩ := List.exists_cons_of_ne_nil h
  exact ⟨line, rfl⟩

/-- At first the cursor is at the end of the last line. -/
theorem start_eq (h : ∃ c ∈ text, c ≠ newline) :
    ∃ above line, split_str text newline = above ++ [line] ∧ Clean above line [] []
      ∧ start text = .ok (ofLines above line [] []) := by
  have hlines := split_str_ne_nil h
  obtain ⟨above, line, hsplit⟩ := (split_str text newline).eq_nil_or_concat.resolve_left hlines
  rw [List.concat_eq_append] at hsplit
  have hclean : ∀ l ∈ above ++ [line], newline ∉ l := fun l hl => by
    rw [← hsplit, split_str_eq] at hl
    exact not_mem_of_mem_splitOn (List.mem_of_mem_filter hl)
  refine ⟨above, line, hsplit, ⟨fun l hl => hclean l (List.mem_append_left _ hl),
    hclean line (by simp), List.not_mem_nil, fun l hl => nomatch hl⟩, ?_⟩
  obtain ⟨first, hfirst⟩ := lineAt_zero hlines
  rw [hsplit] at hfirst
  have hline : (above ++ [line]).length - 1 = above.length := by simp
  have hofLines : (⟨above ++ [line], above.length, line.length⟩ : Editor)
      = ofLines above line [] [] := by
    rw [ofLines, List.append_nil]
  simp only [start, hsplit, List.getLast?_concat, refresh_multiline, hfirst, hline, hofLines,
    refresh_ofLines]
  rfl

/-- The last line that there was in the beginning is drawn before the lines are joined. -/
theorem edit_eq {keys : List Key} {e' : Editor} (hstart : start text = .ok e)
    (hrun : keys.foldlM Editor.press e = .ok e') (hpos : 0 < e.lines.length)
    (hle : e'.lines.length ≤ e.lines.length) :
    edit_prefilled_input_multiline text (keyInput keys)
      = if e'.lines.length < e.lines.length then .error .outOfRange
        else .ok (ended newline e'.lines) := by
  have hjoin : e'.lines.foldl (fun final_input line => final_input ++ (line ++ [newline])) []
      = ended newline e'.lines := List.flatMap_eq_foldl.symm
  have hbind : edit_prefilled_input_multiline text (keyInput keys) = (do
      let last ← lineAt e'.lines (e.lines.length - 1)
      let _ ← refresh_multiline e'.lines (e.lines.length - 1) last.length
      return ended newline e'.lines) := by
    rw [edit_prefilled_input_multiline, hstart]
    show ((e.readLoop (keyInput keys)) >>= _) = _
    rw [readLoop_keyInput, hrun, ← hjoin]
    rfl
  rw [hbind]
  split
  · have hnone : e'.lines[e.lines.length - 1]? = none := List.getElem?_eq_none (by omega)
    have hlast : lineAt e'.lines (e.lines.length - 1) = .error .outOfRange := by
      rw [lineAt, hnone]
    rw [hlast]
    rfl
  · have hlt : e.lines.length - 1 < e'.lines.length := by omega
    have hlast : lineAt e'.lines (e.lines.length - 1) = .ok e'.lines[e.lines.length - 1] := by
      rw [lineAt, List.getElem?_eq_getElem hlt]
    simp only [hlast, refresh_multiline]
    rfl

end Editor

/-! ## What is to hold -/

/-- The lines and the cursor after some keys. -/
def pressed (text : Text) (keys : List Key) : Except Stop Editor :=
  Editor.start text >>= keys.foldlM Editor.press

/-- After each key the cursor is on a line and not behind its end, and no access is out of
range until the result is returned. -/
def InBounds (text : Text) (keys : List Key) : Prop :=
  (∀ before, before <+: keys → ∃ e, pressed text before = .ok e ∧ e.InRange)
    ∧ ∃ result, edit_prefilled_input_multiline text (keyInput keys) = .ok result

/-- One of the keys is a backspace at the start of a line that is not the first. -/
def MergesLines (text : Text) (keys : List Key) : Prop :=
  ∃ e, Editor.start text = .ok e ∧ e.MergesIn keys

theorem pressed_inRange {text : Text} (h : ∃ c ∈ text, c ≠ newline) (keys : List Key) :
    ∃ e, pressed text keys = .ok e ∧ e.InRange := by
  obtain ⟨above, line, _, hclean, hstart⟩ := Editor.start_eq h
  obtain ⟨e, hrun, hshows, _⟩ := (Editor.Shows.intro hclean).run keys
  exact ⟨e, by rw [pressed, hstart]; exact hrun, hshows.inRange⟩

/-- The result is that of the lines after the run, where no lines were merged. -/
theorem edit_eq_ok_iff {text result : Text} {keys : List Key} (h : ∃ c ∈ text, c ≠ newline) :
    edit_prefilled_input_multiline text (keyInput keys) = .ok result
      ↔ ¬ MergesLines text keys
        ∧ ∃ e, pressed text keys = .ok e ∧ result = ended newline e.lines := by
  obtain ⟨above, line, _, hclean, hstart⟩ := Editor.start_eq h
  obtain ⟨e', hrun, _, hle, hmerges⟩ := (Editor.Shows.intro hclean).run keys
  have hpressed : pressed text keys = .ok e' := by
    rw [pressed, hstart]
    exact hrun
  have hlines : MergesLines text keys
      ↔ e'.lines.length < (Editor.ofLines above line [] []).lines.length := by
    rw [MergesLines, hstart, ← hmerges]
    exact ⟨fun ⟨e, heq, hm⟩ => by cases heq; exact hm, fun hm => ⟨_, rfl, hm⟩⟩
  rw [Editor.edit_eq hstart hrun (by simp [Editor.ofLines]) hle, hlines, hpressed]
  split
  · exact iff_of_false (fun heq => nomatch heq) fun hm => hm.1 ‹_›
  · refine ⟨fun heq => ?_, ?_⟩
    · cases heq
      exact ⟨‹_›, e', rfl, rfl⟩
    · rintro ⟨_, e, heq, rfl⟩
      cases heq
      rfl

/-- **The accesses are within range exactly if no key merges lines.** -/
theorem edit_inBounds_iff {text : Text} (h : ∃ c ∈ text, c ≠ newline) (keys : List Key) :
    InBounds text keys ↔ ¬ MergesLines text keys := by
  refine ⟨fun ⟨_, result, hresult⟩ => ((edit_eq_ok_iff h).mp hresult).1, fun hmerges => ?_⟩
  obtain ⟨e, hpressed, _⟩ := pressed_inRange h keys
  exact ⟨fun before _ => pressed_inRange h before, _,
    (edit_eq_ok_iff h).mpr ⟨hmerges, e, hpressed, rfl⟩⟩

/-- `ls`, where a character is put in and deleted again. -/
theorem edit_inBounds_oneLine :
    InBounds [108, 115] [.printable 97 (by decide), .backspace true] := by
  refine (edit_inBounds_iff ⟨108, by decide, by decide⟩ _).mpr ?_
  rintro ⟨e, hstart, hmerges⟩
  have hlines : Editor.start [108, 115] = .ok ⟨[[108, 115]], 0, 2⟩ := rfl
  cases hlines.symm.trans hstart
  rcases hmerges with hmerges | ⟨e', hpress, hmerges⟩
  · exact hmerges
  · cases hpress
    rcases hmerges with hmerges | ⟨e', hpress, hmerges⟩
    · exact absurd hmerges.1 (by decide)
    · exact hmerges

/-- `a` and `b` on two lines: to the start of the second, backspace, and Enter. -/
theorem edit_outOfRange_merged :
    edit_prefilled_input_multiline [97, 10, 98] (keyInput [.left, .backspace true])
        = .error .outOfRange
      ∧ ¬ InBounds [97, 10, 98] [.left, .backspace true] := by
  have hstart : Editor.start [97, 10, 98] = .ok ⟨[[97], [98]], 1, 1⟩ := rfl
  have hrun : [Key.left, .backspace true].foldlM Editor.press ⟨[[97], [98]], 1, 1⟩
      = .ok ⟨[[97, 98]], 0, 1⟩ := rfl
  have hedit : edit_prefilled_input_multiline [97, 10, 98] (keyInput [.left, .backspace true])
      = .error .outOfRange := Editor.edit_eq hstart hrun (by decide) (by decide)
  refine ⟨hedit, fun h => ?_⟩
  obtain ⟨result, hresult⟩ := h.2
  rw [hedit] at hresult
  cases hresult

end Lac
end IntegratedCLI
