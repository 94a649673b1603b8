import IntegratedCLI.Lac.MultilineEditor

/-!
# The text that an edit leads to

What is executed after an edit is to be the suggestion with the keys applied to it, and a
newline more at most.  The keys are applied to the whole text here, from the end of its last
line on: `editedText`.

The editor does to its lines what the keys do to the text of these lines, as long as no two
are merged.  But the lines are those that `split_str` keeps, and an empty one is not kept.
So it is for the suggestions without an empty line that the keys are applied to the text
that was suggested: `edit_applied_iff`.
-/

namespace IntegratedCLI
namespace Lac

open TextBuffer

/-- What `edit_exec` hands to `exec_command`. -/
def edit_exec (output_line : Text) (edit : Bool) (input : List ℤ) : Except Stop Text :=
  if edit then edit_prefilled_input_multiline output_line input else .ok output_line

/-- The suggestion with the keys applied to it. -/
def editedText (text : Text) (keys : List Key) : Text :=
  (Editor.edited ⟨body newline text, []⟩ keys).text ++ ending newline text

/-- What is executed after the keys and Enter is the edited text, or that and a newline. -/
def Applied (text : Text) (keys : List Key) : Prop :=
  ∃ result, edit_exec text true (keyInput keys) = .ok result
    ∧ (result = editedText text keys ∨ result = editedText text keys ++ [newline])

theorem editedText_nil (text : Text) : editedText text [] = text := by
  rw [editedText, Editor.edited, List.foldl_nil, Buffer.text, List.append_nil,
    body_append_ending]

theorem split_str_eq_linesOf (text : Text) :
    split_str text newline = (linesOf newline text).filter (· ≠ []) := by
  rw [split_str_eq, filter_splitOn]

variable {text : Text} {keys : List Key}

/-- Without an empty line the lines are those of the text. -/
theorem split_str_eq_of_noEmpty (h : [] ∉ linesOf newline text) :
    split_str text newline = linesOf newline text := by
  rw [split_str_eq_linesOf, List.filter_eq_self]
  exact fun line hline => decide_eq_true fun heq => h (heq ▸ hline)

/-- The text that the editor shows at its end is that of its lines. -/
theorem Editor.Shows.ended {e : Editor} {b : Buffer UInt8} (h : e.Shows b) :
    b.text ++ [newline] = TextBuffer.ended newline e.lines := by
  obtain ⟨hclean⟩ := h
  exact Buffer.ended_text_ofLines

/-- **Without an empty line the keys are applied to the whole text.** -/
theorem pressed_edited (h : ∃ c ∈ text, c ≠ newline) (hempty : [] ∉ linesOf newline text)
    (keys : List Key) :
    ∃ e, pressed text keys = .ok e
      ∧ e.Shows (Editor.edited ⟨body newline text, []⟩ keys) := by
  obtain ⟨above, line, hsplit, hclean, hstart⟩ := Editor.start_eq h
  obtain ⟨e, hrun, hshows, _⟩ := (Editor.Shows.intro hclean).run keys
  -- the lines above the last, and that line, are the text without its last newline
  have hbody : ended newline above ++ line = body newline text := by
    have hended := ended_linesOf newline text
    rw [← split_str_eq_of_noEmpty hempty, hsplit, ended_line, begun_nil, List.append_nil] at hended
    exact List.append_cancel_right hended
  have hbuffer : Buffer.ofLines newline above line [] [] = ⟨body newline text, []⟩ := by
    rw [Buffer.ofLines, hbody]
    rfl
  refine ⟨e, ?_, hbuffer ▸ hshows⟩
  rw [pressed, hstart]
  exact hrun

/-- A newline ends the edited text already, or is put at its end. -/
theorem editedText_or (text : Text) (keys : List Key) :
    (Editor.edited ⟨body newline text, []⟩ keys).text ++ [newline] = editedText text keys
      ∨ (Editor.edited ⟨body newline text, []⟩ keys).text ++ [newline]
        = editedText text keys ++ [newline] := by
  rw [editedText, ending]
  split
  · exact .inl rfl
  · exact .inr (by rw [List.append_nil])

/-- With an empty line in it the suggestion is not what Enter alone returns. -/
theorem not_applied_nil (h : ∃ c ∈ text, c ≠ newline) (hempty : [] ∈ linesOf newline text) :
    ¬ Applied text [] := by
  rintro ⟨result, hedit, hresult⟩
  obtain ⟨above, line, hsplit, _, hstart⟩ := Editor.start_eq h
  obtain ⟨_, e, hpressed, rfl⟩ := (edit_eq_ok_iff h).mp hedit
  have hlines : e.lines = (linesOf newline text).filter (· ≠ []) := by
    rw [pressed, hstart] at hpressed
    cases hpressed
    rw [← split_str_eq_linesOf, hsplit, Editor.ofLines, List.append_nil]
  have hsome : (linesOf newline text).filter (· ≠ []) ≠ [] := by
    rw [← split_str_eq_linesOf]
    exact Editor.split_str_ne_nil h
  rw [hlines, editedText_nil] at hresult
  exact hresult.elim (ended_filter_ne hempty hsome).1 (ended_filter_ne hempty hsome).2

/-- **The keys, and those before any of them, are applied to the suggestion exactly if it has
no empty line and no key merges lines.** -/
theorem edit_applied_iff {text : Text} (h : ∃ c ∈ text, c ≠ newline) (keys : List Key) :
    (∀ before, before <+: keys → Applied text before)
      ↔ [] ∉ linesOf newline text ∧ ¬ MergesLines text keys := by
  refine ⟨fun happlied => ⟨fun hempty => ?_, ?_⟩, fun ⟨hempty, hmerges⟩ before hbefore => ?_⟩
  · exact not_applied_nil h hempty (happlied [] List.nil_prefix)
  · obtain ⟨result, hedit, _⟩ := happlied keys List.prefix_rfl
    exact ((edit_eq_ok_iff h).mp hedit).1
  · obtain ⟨e, hpressed, hshows⟩ := pressed_edited h hempty before
    have hbefore' : ¬ MergesLines text before := fun ⟨e, hstart, hm⟩ => by
      obtain ⟨after, rfl⟩ := hbefore
      exact hmerges ⟨e, hstart, hm.append after⟩
    refine ⟨_, (edit_eq_ok_iff h).mpr ⟨hbefore', e, hpressed, rfl⟩, ?_⟩
    rw [← hshows.ended]
    exact editedText_or text before

/-- `ls` and an `a` behind it. -/
theorem edit_applied_oneLine : Applied [108, 115] [.printable 97 (by decide)] := by
  refine (edit_applied_iff ⟨108, by decide, by decide⟩ _).mpr ⟨by decide, ?_⟩ _ List.prefix_rfl
  rintro ⟨e, hstart, hmerges | ⟨e', _, hmerges⟩⟩ <;> exact hmerges

/-- The empty line between `a` and `b` is gone after Enter. -/
theorem edit_drops_emptyLine :
    edit_exec [97, 10, 10, 98] true (keyInput []) = .ok [97, 10, 98, 10]
      ∧ ¬ Applied [97, 10, 10, 98] [] := by
  have hstart : Editor.start [97, 10, 10, 98] = .ok ⟨[[97], [98]], 1, 1⟩ := rfl
  have hrun : ([] : List Key).foldlM Editor.press ⟨[[97], [98]], 1, 1⟩
      = .ok ⟨[[97], [98]], 1, 1⟩ := rfl
  have hedit : edit_exec [97, 10, 10, 98] true (keyInput []) = .ok [97, 10, 98, 10] :=
    Editor.edit_eq hstart hrun (by decide) (by decide)
  refine ⟨hedit, ?_⟩
  rintro ⟨result, hresult, hor⟩
  cases hedit.symm.trans hresult
  exact absurd hor (by decide)

end Lac
end IntegratedCLI
