import Mathlib.Data.List.Basic
import Mathlib.Tactic.Common

/-!
# A text of lines and a cursor in it

A `Buffer` is a text that is cut in two where the cursor is.  Its commands are those of an
editor: a character is put in or taken out at the cursor, and the cursor goes left and right
within its line, and up and down to the column that it has or to the end of a shorter line.

An editor that keeps a list of lines holds the same text as `Buffer.ofLines`, the lines
above the cursor, the two halves of its own line, and the lines below.  One lemma for each
command says what it does there.

`linesOf` are the lines of a text of which a newline at the end is the end of the last line.
-/

namespace TextBuffer

variable {α : Type*} {nl a : α} {above below lines : List (List α)} {left right line : List α}

/-! ## Lines and their text -/

/-- The lines, with a newline behind each. -/
def ended (nl : α) (lines : List (List α)) : List α := lines.flatMap fun line => line ++ [nl]

/-- The lines, with a newline before each. -/
def begun (nl : α) (lines : List (List α)) : List α := lines.flatMap fun line => nl :: line

@[simp] theorem ended_nil : ended nl [] = [] := rfl

@[simp] theorem begun_nil : begun nl [] = [] := rfl

@[simp] theorem ended_cons : ended nl (line :: lines) = line ++ nl :: ended nl lines := by
  rw [ended, List.flatMap_cons, List.append_assoc]
  rfl

@[simp] theorem begun_cons : begun nl (line :: lines) = nl :: (line ++ begun nl lines) := rfl

@[simp] theorem ended_append : ended nl (above ++ below) = ended nl above ++ ended nl below :=
  List.flatMap_append

theorem cons_ended (nl : α) (lines : List (List α)) :
    nl :: ended nl lines = begun nl lines ++ [nl] := by
  induction lines with
  | nil => rfl
  | cons line lines ih => rw [ended_cons, begun_cons, ih, List.cons_append, List.append_assoc]

/-- The text around a line. -/
theorem ended_line : ended nl (above ++ line :: below)
    = ended nl above ++ line ++ begun nl below ++ [nl] := by
  rw [ended_append, ended_cons, cons_ended, List.append_assoc, List.append_assoc]

/-- Where there are lines, their text ends with a newline. -/
theorem getLast?_ended (h : lines ≠ []) : (ended nl lines).getLast? = some nl := by
  obtain ⟨above, line, rfl⟩ := lines.eq_nil_or_concat.resolve_left h
  rw [List.concat_eq_append, ended_line, List.getLast?_concat]

theorem length_ended_filter_le (nl : α) (lines : List (List α)) (p : List α → Bool) :
    (ended nl (lines.filter p)).length ≤ (ended nl lines).length := by
  induction lines with
  | nil => exact Nat.le_refl _
  | cons line lines ih =>
    rw [List.filter_cons]
    split
    · rw [ended_cons, ended_cons, List.length_append, List.length_append, List.length_cons,
        List.length_cons]
      omega
    · rw [ended_cons, List.length_append, List.length_cons]
      omega

/-- The text of the lines that are left is shorter. -/
theorem length_ended_filter_lt {p : List α → Bool} (hline : line ∈ lines) (h : p line = false) :
    (ended nl (lines.filter p)).length < (ended nl lines).length := by
  obtain ⟨above, below, rfl⟩ := List.append_of_mem hline
  have habove := length_ended_filter_le nl above p
  have hbelow := length_ended_filter_le nl below p
  rw [List.filter_append, List.filter_cons, if_neg (by rw [h]; exact Bool.false_ne_true),
    ended_append, ended_append, ended_cons]
  simp only [List.length_append, List.length_cons]
  omega

/-! ## The lines of a text -/

variable [DecidableEq α]

theorem ended_splitOn (nl : α) (text : List α) : ended nl (text.splitOn nl) = text ++ [nl] := by
  induction text with
  | nil => rfl
  | cons b text ih =>
    obtain ⟨line, lines, hlines⟩ := List.exists_cons_of_ne_nil (List.splitOn_ne_nil nl text)
    rw [List.splitOn_cons_eq_if_modifyHead]
    split
    · rename_i hb
      rw [ended_cons, ih, eq_of_beq hb, List.nil_append, List.cons_append]
    · rw [hlines, ended_cons] at ih
      rw [hlines, List.modifyHead_cons, ended_cons, List.cons_append, ih, List.cons_append]

theorem not_mem_of_mem_splitOn {text : List α} (h : line ∈ text.splitOn nl) : nl ∉ line := by
  induction text generalizing line with
  | nil =>
    rw [List.splitOn_nil, List.mem_singleton] at h
    exact h ▸ List.not_mem_nil
  | cons b text ih =>
    obtain ⟨head, lines, hlines⟩ := List.exists_cons_of_ne_nil (List.splitOn_ne_nil nl text)
    rw [List.splitOn_cons_eq_if_modifyHead] at h
    split at h
    · rcases List.mem_cons.mp h with rfl | h
      · exact List.not_mem_nil
      · exact ih h
    · rename_i hb
      rw [hlines, List.modifyHead_cons] at h
      rcases List.mem_cons.mp h with rfl | h
      · rw [List.mem_cons, not_or]
        exact ⟨fun heq => hb (heq ▸ beq_self_eq_true nl),
          ih (hlines ▸ List.mem_cons_self)⟩
      · exact ih (hlines ▸ List.mem_cons_of_mem _ h)

/-- The text without the newline that ends its last line. -/
def body (nl : α) (text : List α) : List α :=
  if text.getLast? = some nl then text.dropLast else text

/-- The newline that ends the last line, if there is one. -/
def ending (nl : α) (text : List α) : List α := if text.getLast? = some nl then [nl] else []

theorem body_append_ending (nl : α) (text : List α) : body nl text ++ ending nl text = text := by
  rw [body, ending]
  split
  · rename_i h
    exact List.dropLast_append_getLast? nl h
  · exact List.append_nil text

def linesOf (nl : α) (text : List α) : List (List α) := (body nl text).splitOn nl

theorem ended_linesOf (nl : α) (text : List α) :
    ended nl (linesOf nl text) = body nl text ++ [nl] := ended_splitOn nl _

/-- The newline at the end makes no line that is not empty. -/
theorem filter_splitOn (nl : α) (text : List α) :
    (text.splitOn nl).filter (· ≠ []) = (linesOf nl text).filter (· ≠ []) := by
  have hbody := body_append_ending nl text
  rw [ending] at hbody
  rw [linesOf]
  split at hbody
  · have hsplit := List.splitOn_append_cons_self (body nl text) [] (a := nl)
    rw [hbody] at hsplit
    rw [hsplit, List.filter_append, List.splitOn_nil, List.filter_singleton]
    simp
  · rw [List.append_nil] at hbody
    rw [hbody]

/-- A text is not that of its lines without the empty ones, with or without a newline more,
unless there are none of these. -/
theorem ended_filter_ne {text : List α} (hempty : [] ∈ linesOf nl text)
    (hsome : (linesOf nl text).filter (· ≠ []) ≠ []) :
    ended nl ((linesOf nl text).filter (· ≠ [])) ≠ text
      ∧ ended nl ((linesOf nl text).filter (· ≠ [])) ≠ text ++ [nl] := by
  have hlt : (ended nl ((linesOf nl text).filter (· ≠ []))).length
      < (ended nl (linesOf nl text)).length := length_ended_filter_lt hempty (by simp)
  have hlast : (ended nl ((linesOf nl text).filter (· ≠ []))).getLast? = some nl :=
    getLast?_ended hsome
  have hended := ended_linesOf nl text
  rw [hended, List.length_append, List.length_singleton] at hlt
  by_cases hnl : text.getLast? = some nl
  · -- the last line is ended already, so that the text without the empty lines is shorter
    have hbody := body_append_ending nl text
    rw [ending, if_pos hnl] at hbody
    have hlength : text.length = (body nl text).length + 1 := by
      rw [← hbody, List.length_append, List.length_singleton, hbody]
    refine ⟨fun h => ?_, fun h => ?_⟩ <;> rw [h] at hlt
    · omega
    · rw [List.length_append] at hlt
      omega
  · have hbody : body nl text = text := if_neg hnl
    refine ⟨fun h => hnl (h ▸ hlast), fun h => ?_⟩
    rw [h, hbody, List.length_append, List.length_singleton] at hlt
    exact Nat.lt_irrefl _ hlt

/-! ## The buffer -/

structure Buffer (α : Type*) where
  before : List α
  after : List α
  deriving DecidableEq, Repr

namespace Buffer

def text (b : Buffer α) : List α := b.before ++ b.after

/-- The same text, with the cursor behind its first `n` characters. -/
def moveTo (b : Buffer α) (n : ℕ) : Buffer α := ⟨b.text.take n, b.text.drop n⟩

/-- How far the cursor is from the start of its line. -/
def column (nl : α) (b : Buffer α) : ℕ := (b.before.reverse.takeWhile fun c => c ≠ nl).length

/-- How far the cursor is from the end of its line. -/
def rest (nl : α) (b : Buffer α) : ℕ := (b.after.takeWhile fun c => c ≠ nl).length

def insert (a : α) (b : Buffer α) : Buffer α := ⟨b.before ++ [a], b.after⟩

/-- The character before the cursor is taken out, a newline too. -/
def delete (b : Buffer α) : Buffer α := ⟨b.before.dropLast, b.after⟩

def goLeft (nl : α) (b : Buffer α) : Buffer α :=
  if b.column nl = 0 then b else b.moveTo (b.before.length - 1)

def goRight (nl : α) (b : Buffer α) : Buffer α :=
  if b.rest nl = 0 then b else b.moveTo (b.before.length + 1)

/-- The start of the line above is as far before its end as that has columns. -/
def goUp (nl : α) (b : Buffer α) : Buffer α :=
  if nl ∈ b.before then
    let lineEnd := b.before.length - b.column nl - 1
    let width := (b.moveTo lineEnd).column nl
    b.moveTo (lineEnd - width + min (b.column nl) width)
  else b

def goDown (nl : α) (b : Buffer α) : Buffer α :=
  if nl ∈ b.after then
    let lineStart := b.before.length + b.rest nl + 1
    b.moveTo (lineStart + min (b.column nl) ((b.moveTo lineStart).rest nl))
  else b

/-- The buffer of an editor that keeps lines. -/
def ofLines (nl : α) (above : List (List α)) (left right : List α) (below : List (List α)) :
    Buffer α :=
  ⟨ended nl above ++ left, right ++ begun nl below⟩

omit [DecidableEq α] in
theorem moveTo_ofLines {b : Buffer α} (h : b.text = (ofLines nl above left right below).text) :
    b.moveTo ((ended nl above).length + left.length) = ofLines nl above left right below := by
  rw [moveTo, h, text, ofLines, ← List.length_append, List.take_left, List.drop_left]

omit [DecidableEq α] in
/-- The text does not depend on where its line is cut. -/
theorem text_ofLines_append : (ofLines nl above (left ++ [a]) right below).text
    = (ofLines nl above left (a :: right) below).text := by
  simp only [text, ofLines, List.append_assoc, List.cons_append, List.nil_append]

omit [DecidableEq α] in
/-- Nor on which of two lines it is cut in. -/
theorem text_ofLines_line {left' right' : List α} :
    (ofLines nl (above ++ [left ++ right]) left' right' below).text
      = (ofLines nl above left right ((left' ++ right') :: below)).text := by
  simp only [text, ofLines, ended_append, ended_cons, ended_nil, begun_cons, List.append_assoc,
    List.cons_append, List.nil_append]

omit [DecidableEq α] in
theorem ended_text_ofLines :
    (ofLines nl above left right below).text ++ [nl] = ended nl (above ++ (left ++ right) :: below) := by
  rw [ended_line, text, ofLines]
  simp only [List.append_assoc]

omit [DecidableEq α] in
theorem insert_ofLines :
    (ofLines nl above left right below).insert a = ofLines nl above (left ++ [a]) right below := by
  rw [insert, ofLines, ofLines, List.append_assoc]

omit [DecidableEq α] in
theorem delete_ofLines :
    (ofLines nl above (left ++ [a]) right below).delete = ofLines nl above left right below := by
  rw [delete, ofLines, ofLines, ← List.append_assoc, List.dropLast_concat]

omit [DecidableEq α] in
/-- At the start of a line it is put behind the line above. -/
theorem delete_ofLines_start :
    (ofLines nl (above ++ [line]) [] right below).delete = ofLines nl above line right below := by
  rw [delete, ofLines, ofLines, List.append_nil, ended_append, ended_cons, ended_nil,
    ← List.append_assoc, List.dropLast_concat]

omit [DecidableEq α] in
theorem delete_ofLines_first :
    (ofLines nl [] [] right below).delete = ofLines nl [] [] right below := rfl

theorem takeWhile_ended (nl : α) (above : List (List α)) :
    (ended nl above).reverse.takeWhile (fun c => c ≠ nl) = [] := by
  rcases above.eq_nil_or_concat with rfl | ⟨above, line, rfl⟩
  · rfl
  · rw [List.concat_eq_append, ended_line, List.reverse_concat]
    exact List.takeWhile_cons_of_neg (by simp)

theorem takeWhile_begun (nl : α) (below : List (List α)) :
    (begun nl below).takeWhile (fun c => c ≠ nl) = [] := by
  cases below with
  | nil => rfl
  | cons line below => exact List.takeWhile_cons_of_neg (by simp)

theorem column_ofLines (h : nl ∉ left) :
    (ofLines nl above left right below).column nl = left.length := by
  have hpos : ∀ c ∈ left.reverse, decide (c ≠ nl) = true := fun c hc =>
    decide_eq_true fun heq => h (heq ▸ List.mem_reverse.mp hc)
  rw [column, ofLines, List.reverse_append, List.takeWhile_append_of_pos hpos, takeWhile_ended,
    List.append_nil, List.length_reverse]

theorem rest_ofLines (h : nl ∉ right) :
    (ofLines nl above left right below).rest nl = right.length := by
  have hpos : ∀ c ∈ right, decide (c ≠ nl) = true := fun c hc =>
    decide_eq_true fun heq => h (heq ▸ hc)
  rw [rest, ofLines, List.takeWhile_append_of_pos hpos, takeWhile_begun, List.append_nil]

theorem goLeft_ofLines (h : nl ∉ left ++ [a]) :
    (ofLines nl above (left ++ [a]) right below).goLeft nl
      = ofLines nl above left (a :: right) below := by
  have hlength : (ofLines nl above (left ++ [a]) right below).before.length - 1
      = (ended nl above).length + left.length := by
    simp only [ofLines, List.length_append, List.length_singleton]
    omega
  rw [goLeft, column_ofLines h, if_neg (by simp), hlength, moveTo_ofLines text_ofLines_append]

/-- At the start of its line the cursor stays. -/
theorem goLeft_ofLines_start :
    (ofLines nl above [] right below).goLeft nl = ofLines nl above [] right below := by
  rw [goLeft, column_ofLines List.not_mem_nil, if_pos List.length_nil]

theorem goRight_ofLines (h : nl ∉ a :: right) :
    (ofLines nl above left (a :: right) below).goRight nl
      = ofLines nl above (left ++ [a]) right below := by
  have hlength : (ofLines nl above left (a :: right) below).before.length + 1
      = (ended nl above).length + (left ++ [a]).length := by
    simp only [ofLines, List.length_append, List.length_singleton]
    omega
  rw [goRight, rest_ofLines h, if_neg (by simp), hlength,
    moveTo_ofLines text_ofLines_append.symm]

theorem goRight_ofLines_end :
    (ofLines nl above left [] below).goRight nl = ofLines nl above left [] below := by
  rw [goRight, rest_ofLines List.not_mem_nil, if_pos List.length_nil]

theorem goUp_ofLines_first (h : nl ∉ left) :
    (ofLines nl [] left right below).goUp nl = ofLines nl [] left right below := if_neg h

theorem goUp_ofLines (hleft : nl ∉ left) (hline : nl ∉ line) :
    (ofLines nl (above ++ [line]) left right below).goUp nl
      = ofLines nl above (line.take left.length) (line.drop left.length)
          ((left ++ right) :: below) := by
  have hmem : nl ∈ (ofLines nl (above ++ [line]) left right below).before := by simp [ofLines]
  have hend : (ofLines nl (above ++ [line]) left right below).before.length - left.length - 1
      = (ended nl above).length + line.length := by
    simp only [ofLines, ended_append, ended_cons, ended_nil, List.length_append, List.length_cons,
      List.length_nil]
    omega
  have htext : (ofLines nl (above ++ [line]) left right below).text
      = (ofLines nl above line [] ((left ++ right) :: below)).text := by
    rw [← text_ofLines_line, List.append_nil]
  have hcut : (ofLines nl (above ++ [line]) left right below).text
      = (ofLines nl above (line.take left.length) (line.drop left.length)
          ((left ++ right) :: below)).text := by
    rw [← text_ofLines_line, List.take_append_drop]
  have hcolumn : (ended nl above).length + line.length - line.length + min left.length line.length
      = (ended nl above).length + (line.take left.length).length := by
    rw [List.length_take]
    omega
  rw [goUp, if_pos hmem, column_ofLines hleft]
  simp only [hend, moveTo_ofLines htext, column_ofLines hline, hcolumn, moveTo_ofLines hcut]

theorem goDown_ofLines_last (h : nl ∉ right) :
    (ofLines nl above left right []).goDown nl = ofLines nl above left right [] :=
  if_neg (by simpa [ofLines] using h)

theorem goDown_ofLines (hleft : nl ∉ left) (hright : nl ∉ right) (hline : nl ∉ line) :
    (ofLines nl above left right (line :: below)).goDown nl
      = ofLines nl (above ++ [left ++ right]) (line.take left.length) (line.drop left.length)
          below := by
  have hmem : nl ∈ (ofLines nl above left right (line :: below)).after := by simp [ofLines]
  have hstart : (ofLines nl above left right (line :: below)).before.length + right.length + 1
      = (ended nl (above ++ [left ++ right])).length + ([] : List α).length := by
    simp only [ofLines, ended_append, ended_cons, ended_nil, List.length_append, List.length_cons,
      List.length_nil]
    omega
  have htext : (ofLines nl above left right (line :: below)).text
      = (ofLines nl (above ++ [left ++ right]) [] line below).text := by
    rw [text_ofLines_line, List.nil_append]
  have hcut : (ofLines nl above left right (line :: below)).text
      = (ofLines nl (above ++ [left ++ right]) (line.take left.length) (line.drop left.length)
          below).text := by
    rw [text_ofLines_line, List.take_append_drop]
  have hcolumn : (ended nl (above ++ [left ++ right])).length + ([] : List α).length
        + min left.length line.length
      = (ended nl (above ++ [left ++ right])).length + (line.take left.length).length := by
    rw [List.length_take, List.length_nil, Nat.add_zero]
  rw [goDown, if_pos hmem, column_ofLines hleft, rest_ofLines hright]
  simp only [hstart, moveTo_ofLines htext, rest_ofLines hline, hcolumn, moveTo_ofLines hcut]

end Buffer

end TextBuffer
