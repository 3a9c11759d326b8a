import ProtoSchema.Proofs.Printing.Lines
import ProtoSchema.Proofs.Printing.ValidOutput

/-!
# The lines of a comment

A comment is made from a text by cutting it at its line breaks. This file says what is kept: the
text of the comment is the text it was made from, with plain newlines for line breaks and without
the newline at its end, and what is printed of it is one marked line for each of its lines. From
the other side, lines that are written down one after the other are the lines of the comment:
`Comment.ofText_lines`.

Cutting does two things in one pass, it drops carriage returns and it looks for newlines. They are
taken apart here. `Text.plainBreaks` does the first, and what is left is cut by `List.splitOn`,
which counts one more line than there are newlines. That line is empty, and not a line of the
comment, unless the text is `Text.EndsOpen`.
-/

namespace ProtoSchema

namespace Text

/-- The text with a newline for each carriage return and newline, in one pass from the left. -/
def plainBreaks : List Char → List Char
  | [] => []
  | '\r' :: '\n' :: rest => '\n' :: plainBreaks rest
  | char :: rest => char :: plainBreaks rest

/-- The text without the newline at its end, if there is one. -/
def chopNewline (text : List Char) : List Char :=
  if text.getLast? = some '\n' then text.dropLast else text

/-- The last line of the text has no newline. -/
def EndsOpen (text : List Char) : Prop :=
  text ≠ [] ∧ text.getLast? ≠ some '\n'

instance : DecidablePred EndsOpen :=
  fun _ => inferInstanceAs (Decidable (_ ∧ _))

variable {char : Char} {rest : List Char}

theorem endsOpen_newline (rest : List Char) : EndsOpen ('\n' :: rest) ↔ EndsOpen rest := by
  cases rest <;> simp [EndsOpen]

theorem endsOpen_cons (goesOn : rest ≠ []) (char : Char) :
    EndsOpen (char :: rest) ↔ EndsOpen rest := by
  cases rest with
  | nil => exact absurd rfl goesOn
  | cons next rest => simp [EndsOpen]

theorem plainBreaks_cons (noBreak : ∀ after, char = '\r' → rest = '\n' :: after → False) :
    plainBreaks (char :: rest) = char :: plainBreaks rest := by
  rw [plainBreaks]
  exact noBreak

theorem plainBreaks_newline (rest : List Char) :
    plainBreaks ('\n' :: rest) = '\n' :: plainBreaks rest := by
  apply plainBreaks_cons
  simp

theorem charLines_eq_nil_iff {text : List Char} : charLines text = [] ↔ text = [] := by
  fun_cases charLines text <;> simp

theorem splitOn_newline (rest : List Char) :
    ('\n' :: rest).splitOn '\n' = [] :: rest.splitOn '\n' := by
  simp [List.splitOn_cons_eq_if_modifyHead]

theorem splitOn_visible (visible : char ≠ '\n') (rest : List Char) :
    (char :: rest).splitOn '\n' = (rest.splitOn '\n').modifyHead (List.cons char) := by
  simp [List.splitOn_cons_eq_if_modifyHead, visible]

/-- Once carriage returns are gone, the lines are what stands between newlines. -/
theorem splitOn_plainBreaks (text : List Char) :
    (plainBreaks text).splitOn '\n' =
      charLines text ++ (if EndsOpen text then [] else [[]]) := by
  fun_induction charLines text with
  | case1 => rfl
  | case2 rest ih =>
      simp only [plainBreaks_newline, splitOn_newline, ih, endsOpen_newline, List.cons_append]
  | case3 rest ih =>
      have step : EndsOpen ('\r' :: '\n' :: rest) ↔ EndsOpen rest :=
        (endsOpen_cons (by simp) '\r').trans (endsOpen_newline rest)
      simp only [plainBreaks, splitOn_newline, ih, step, List.cons_append]
  | case4 char rest visible noBreak none_left ih =>
      rw [charLines_eq_nil_iff] at none_left
      subst none_left
      have ends : EndsOpen [char] := by simpa [EndsOpen] using visible
      simp only [plainBreaks_cons noBreak, splitOn_visible visible, ends, if_true]
      rfl
  | case5 char rest visible noBreak line more lines_eq ih =>
      have goesOn : rest ≠ [] := by
        rintro rfl
        cases lines_eq
      simp only [plainBreaks_cons noBreak, splitOn_visible visible, ih, lines_eq,
        endsOpen_cons goesOn, List.cons_append, List.modifyHead_cons]

theorem getLast?_plainBreaks (text : List Char) :
    (plainBreaks text).getLast? = text.getLast? := by
  fun_induction plainBreaks text with
  | case1 => rfl
  | case2 rest ih => simp [List.getLast?_cons, ih]
  | case3 char rest _ ih => simp [List.getLast?_cons, ih]

theorem count_plainBreaks (text : List Char) :
    (plainBreaks text).count '\n' = text.count '\n' := by
  fun_induction plainBreaks text with
  | case1 => rfl
  | case2 rest ih => simp [ih]
  | case3 char rest _ ih => simp [List.count_cons, ih]

theorem length_splitOn_newline (text : List Char) :
    (text.splitOn '\n').length = text.count '\n' + 1 := by
  induction text with
  | nil => rfl
  | cons char rest ih =>
      by_cases is_newline : char = '\n'
      · simp [is_newline, splitOn_newline, ih]
      · simp [splitOn_visible is_newline, ih, is_newline]

theorem newline_notMem_of_mem_charLines {text line : List Char} (line_mem : line ∈ charLines text) :
    '\n' ∉ line := by
  have part_mem : line ∈ (plainBreaks text).splitOn '\n' := by
    rw [splitOn_plainBreaks]
    exact List.mem_append_left _ line_mem
  exact notMem_of_mem_splitOn part_mem

theorem length_charLines (text : List Char) :
    (charLines text).length = text.count '\n' + if EndsOpen text then 1 else 0 := by
  have counted := length_splitOn_newline (plainBreaks text)
  rw [splitOn_plainBreaks, count_plainBreaks, List.length_append] at counted
  by_cases ends : EndsOpen text
  · simpa [ends] using counted
  · simpa [ends] using counted

theorem intercalate_concat (front : List (List Char)) (last : List Char) :
    ['\n'].intercalate (front ++ [last]) = unlines front ++ last := by
  induction front with
  | nil => simp [unlines]
  | cons line front ih =>
      rw [List.cons_append, List.intercalate_cons_of_ne_nil (by simp), ih]
      simp [unlines]

theorem chopNewline_concat (content : List Char) : chopNewline (content ++ ['\n']) = content := by
  simp [chopNewline]

/-- The lines of a text, put together again, are the text without what marks its breaks. -/
theorem intercalate_charLines (text : List Char) :
    ['\n'].intercalate (charLines text) = chopNewline (plainBreaks text) := by
  have joined : ['\n'].intercalate ((plainBreaks text).splitOn '\n') = plainBreaks text :=
    List.intercalate_splitOn '\n'
  rw [splitOn_plainBreaks] at joined
  by_cases ends : EndsOpen text
  · have last_ne : (plainBreaks text).getLast? ≠ some '\n' := by
      rw [getLast?_plainBreaks]
      exact ends.2
    rw [chopNewline, if_neg last_ne, ← joined, if_pos ends, List.append_nil]
  · rw [if_neg ends] at joined
    rcases List.eq_nil_or_concat (charLines text) with lines_eq | ⟨front, last, lines_eq⟩
    · rw [charLines_eq_nil_iff] at lines_eq
      subst lines_eq
      rfl
    · rw [List.concat_eq_append] at lines_eq
      have plain_eq : plainBreaks text = unlines front ++ last ++ ['\n'] := by
        rw [← joined, intercalate_concat, lines_eq, unlines_append]
        simp [unlines]
      rw [plain_eq, chopNewline_concat, lines_eq, intercalate_concat]

/-- A line and its break are cut off, whichever of the two breaks it is. -/
theorem charLines_append {line : List Char} (whole : '\n' ∉ line)
    (noReturn : line.getLast? ≠ some '\r') {ending : List Char}
    (isBreak : ending ∈ [['\n'], ['\r', '\n']]) (rest : List Char) :
    charLines (line ++ ending ++ rest) = line :: charLines rest := by
  induction line with
  | nil =>
      simp only [List.mem_cons, List.not_mem_nil, or_false] at isBreak
      rcases isBreak with rfl | rfl <;> rfl
  | cons char line ih =>
      simp only [List.mem_cons, not_or] at whole
      have line_noReturn : line.getLast? ≠ some '\r' := by
        cases line with
        | nil => simp
        | cons next line => simpa using noReturn
      have rest_eq := ih whole.2 line_noReturn
      have noBreak : ∀ after, char = '\r' → line ++ ending ++ rest = '\n' :: after → False := by
        rintro after rfl text_eq
        cases line with
        | nil => exact noReturn rfl
        | cons next line =>
            apply whole.2
            rw [(List.cons.inj text_eq).1]
            exact List.mem_cons_self
      rw [List.cons_append, List.cons_append, charLines, rest_eq]
      · exact Ne.symm whole.1
      · exact noBreak

end Text

namespace Comment

/-- A comment is printed outside of all blocks as it is. -/
theorem print_eq_flat (comment : Comment) : (Node.comment comment).print = comment.flat := by
  have unpadded : Text.padLine ([] : List Char) = id := by
    funext line
    cases line <;> rfl
  rw [Node.print_eq_flatText, Node.flatText, Node.items, Item.renderAll_cons, Item.renderAll_nil,
    String.append_empty, Item.render, Text.padLines]
  simp [unpadded]

theorem ofText_terminated {lines : List String}
    (whole : ∀ line ∈ lines, '\n' ∉ line.toList ∧ line.toList.getLast? ≠ some '\r')
    {ending : String} (isBreak : ending ∈ ["\n", "\r\n"]) :
    Comment.ofText (String.join (lines.map (· ++ ending))) = ⟨lines⟩ := by
  have ending_mem : ending.toList ∈ [['\n'], ['\r', '\n']] := by
    simp only [List.mem_cons, List.not_mem_nil, or_false] at isBreak
    rcases isBreak with rfl | rfl <;> decide
  rw [Comment.ofText, Text.lines, Comment.mk.injEq]
  induction lines with
  | nil => rfl
  | cons line lines ih =>
      rw [List.forall_mem_cons] at whole
      have cut := Text.charLines_append whole.1.1 whole.1.2 ending_mem
        (String.join (lines.map (· ++ ending))).toList
      rw [List.map_cons, String.join_cons, String.toList_append, String.toList_append, cut,
        List.map_cons, String.ofList_toList, ih whole.2]

/-- No line of a comment that is made from a text holds a newline. The text of the comment is the
text with plain newlines for its line breaks and without the newline at its end. The comment has a
line for each newline, and one more if the text ends without one. What is printed of it consists of
these lines behind their markers, each with a newline. Lines that are written down with either line
break behind each of them make the comment of these lines. -/
theorem ofText_lines (text : String) :
    let comment := Comment.ofText text
    (∀ line ∈ comment.lines, '\n' ∉ line.toList) ∧
      comment.text.toList = Text.chopNewline (Text.plainBreaks text.toList) ∧
      comment.size = text.toList.count '\n' + (if Text.EndsOpen text.toList then 1 else 0) ∧
      (Node.comment comment).print = String.join (comment.lines.map ("// " ++ · ++ "\n")) ∧
      (Node.comment comment).print.toList.splitOn '\n' =
        comment.lines.map (fun line => ("// " ++ line).toList) ++ [[]] ∧
      ∀ lines : List String,
        (∀ line ∈ lines, '\n' ∉ line.toList ∧ line.toList.getLast? ≠ some '\r') →
        ∀ ending ∈ ["\n", "\r\n"],
          Comment.ofText (String.join (lines.map (· ++ ending))) = ⟨lines⟩ := by
  intro comment
  have whole : ∀ line ∈ comment.lines, '\n' ∉ line.toList := by
    intro line line_mem
    rcases List.mem_map.mp line_mem with ⟨chars, chars_mem, rfl⟩
    simpa using Text.newline_notMem_of_mem_charLines chars_mem
  have lines_eq : comment.lines.map String.toList = Text.charLines text.toList := by
    simp [comment, Comment.ofText, Text.lines, Function.comp_def]
  refine ⟨whole, ?_, ?_, ?_, ?_, ?_⟩
  · rw [Comment.text, Text.join, String.toList_intercalate, lines_eq]
    exact Text.intercalate_charLines text.toList
  · rw [Comment.size, ← List.length_map String.toList, lines_eq]
    exact Text.length_charLines text.toList
  · exact comment.print_eq_flat
  · rw [comment.print_eq_flat, comment.toList_flat, Text.splitOn_unlines]
    · simp
    · simpa using whole
  · intro lines lines_whole ending isBreak
    exact ofText_terminated lines_whole isBreak

/-- A text of every kind of line break and carriage return makes the lines that it shows, and two
lines, one of them with a carriage return inside, are found behind either break. -/
theorem ofText_lines_mixed :
    let comment := Comment.ofText "\r\r\na\r\n\n\rb\r"
    (comment.text = "\r\na\n\n\rb\r" ∧ comment.size = 4) ∧
      Comment.ofText "a\rb\r\n\r\n" = ⟨["a\rb", ""]⟩ ∧
      Comment.ofText "a\rb\n\n" = ⟨["a\rb", ""]⟩ := by
  intro comment
  obtain ⟨-, text_eq, size_eq, -, -, terminated⟩ := ofText_lines "\r\r\na\r\n\n\rb\r"
  have back := terminated ["a\rb", ""] (by decide)
  refine ⟨⟨?_, size_eq⟩, back "\r\n" (by decide), back "\n" (by decide)⟩
  exact String.toList_inj.mp text_eq

end Comment

end ProtoSchema
