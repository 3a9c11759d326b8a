import ProtoSchema.Proofs.Output.Indentation

/-!
# Padding the lines of a text

`Text.padLines` puts a padding before every line that is not empty. It looks at a whole text, line
by line, and is stated for sequences of anything that has a newline, so that it applies to
characters as well as to bytes. `Text.stripLines` takes the padding off again. `Text.indented`,
which goes byte by byte and can stop anywhere, agrees with `Text.padLines`.

The encoding of a character holds a newline byte only if the character is the newline. Therefore the
padding of the encoded text is the encoding of the padded text.
-/

namespace ProtoSchema.Text

variable {α : Type}

/-- A line behind its padding; an empty line gets none. -/
def padLine [DecidableEq α] (pad line : List α) : List α :=
  if line = [] then [] else pad ++ line

/-- The content with a padding before each of its lines that is not empty. -/
def padLines [DecidableEq α] (newline : α) (pad content : List α) : List α :=
  [newline].intercalate ((content.splitOn newline).map (padLine pad))

@[simp]
theorem padLine_nil [DecidableEq α] (pad : List α) : padLine pad [] = [] := rfl

@[simp]
theorem padLine_cons [DecidableEq α] (pad : List α) (first : α) (rest : List α) :
    padLine pad (first :: rest) = pad ++ first :: rest := rfl

/-- The content without the first `width` places of each of its lines. -/
def stripLines [DecidableEq α] (newline : α) (width : Nat) (content : List α) : List α :=
  [newline].intercalate ((content.splitOn newline).map (List.drop width))

theorem drop_padLine [DecidableEq α] (pad line : List α) :
    (padLine pad line).drop pad.length = line := by
  cases line <;> simp

theorem notMem_of_mem_splitOn [DecidableEq α] {separator : α} {content part : List α}
    (part_mem : part ∈ content.splitOn separator) : separator ∉ part := by
  induction content generalizing part with
  | nil =>
      rw [List.splitOn_nil, List.mem_singleton] at part_mem
      simp [part_mem]
  | cons char content ih =>
      rw [List.splitOn_cons_eq_if_modifyHead] at part_mem
      split at part_mem
      · rcases List.mem_cons.mp part_mem with rfl | part_mem
        · simp
        · exact ih part_mem
      · rename_i char_ne
        cases parts_eq : content.splitOn separator with
        | nil => exact absurd parts_eq (List.splitOn_ne_nil separator content)
        | cons first parts =>
            rw [parts_eq] at ih part_mem
            rcases List.mem_cons.mp part_mem with rfl | part_mem
            · have first_absent := ih List.mem_cons_self
              simp only [beq_iff_eq] at char_ne
              simp [first_absent, Ne.symm char_ne]
            · exact ih (List.mem_cons_of_mem _ part_mem)

/-- A padding without newlines can be taken off again. -/
theorem stripLines_padLines [DecidableEq α] {newline : α} {pad : List α} (visible : newline ∉ pad)
    (content : List α) :
    stripLines newline pad.length (padLines newline pad content) = content := by
  have whole : ∀ line ∈ (content.splitOn newline).map (padLine pad), newline ∉ line := by
    intro line line_mem
    rcases List.mem_map.mp line_mem with ⟨part, part_mem, rfl⟩
    have part_whole := notMem_of_mem_splitOn part_mem
    cases part <;> simp_all
  have lines_eq : (padLines newline pad content).splitOn newline =
      (content.splitOn newline).map (padLine pad) := by
    apply List.splitOn_intercalate newline whole
    simp
  simp only [stripLines, lines_eq, List.map_map, Function.comp_def, drop_padLine, List.map_id',
    List.intercalate_splitOn]

/-- Bytes are indented as lines are padded, except that the first line is as it is if the content
begins inside a line. -/
theorem indented_eq_intercalate (width : Nat) (start : Bool) (content : List UInt8) :
    ∃ first more, content.splitOn newline = first :: more ∧
      indented width start content =
        [newline].intercalate
          ((if start then padLine (List.replicate width space) first else first) ::
            more.map (padLine (List.replicate width space))) := by
  induction content generalizing start with
  | nil => exact ⟨[], [], rfl, by cases start <;> rfl⟩
  | cons byte rest ih =>
      by_cases is_newline : byte = newline
      · rcases ih true with ⟨first, more, split, indented_eq⟩
        subst is_newline
        refine ⟨[], first :: more, ?_, ?_⟩
        · simp [List.splitOn_cons_eq_if_modifyHead, split]
        · simp only [indented, bne_self_eq_false, Bool.and_false, Bool.false_eq_true, if_false,
            List.nil_append, beq_self_eq_true, indented_eq, if_true, List.map_cons, padLine_nil,
            ite_self]
          rw [List.intercalate_cons_cons, List.nil_append, List.singleton_append]
      · rcases ih false with ⟨first, more, split, indented_eq⟩
        have not_newline : (byte == newline) = false := by simpa using is_newline
        have visible : (byte != newline) = true := by simpa using is_newline
        refine ⟨byte :: first, more, ?_, ?_⟩
        · simp [List.splitOn_cons_eq_if_modifyHead, split, not_newline]
        · simp only [indented, visible, Bool.and_true, not_newline, indented_eq,
            Bool.false_eq_true, if_false, padLine_cons]
          cases start with
          | false => simp
          | true => cases more <;> simp

/-- From the start of a line on, bytes are indented as lines are padded. -/
theorem indented_eq_padLines (width : Nat) (content : List UInt8) :
    indented width true content = padLines newline (List.replicate width space) content := by
  rcases indented_eq_intercalate width true content with ⟨first, more, split, indented_eq⟩
  simp [indented_eq, padLines, split]

theorem newline_notMem_utf8EncodeChar {char : Char} (visible : char ≠ '\n') :
    newline ∉ String.utf8EncodeChar char := by
  have code_ne : char.val.toNat ≠ 10 := by
    intro code_eq
    apply visible
    apply Char.ext
    apply UInt32.toNat_inj.mp
    simpa using code_eq
  have ofNat_ne : ∀ code : Nat, code < 256 → code ≠ 10 → newline ≠ UInt8.ofNat code := by
    intro code small code_ne byte_eq
    have := congrArg UInt8.toNat byte_eq
    simp only [newline, UInt8.toNat_ofNat', UInt8.reduceToNat] at this
    omega
  simp only [String.utf8EncodeChar]
  split
  · simp only [List.mem_singleton]
    exact ofNat_ne _ (by omega) code_ne
  · split
    · simp only [List.mem_cons, List.not_mem_nil, or_false, not_or]
      exact ⟨ofNat_ne _ (by omega) (by omega), ofNat_ne _ (by omega) (by omega)⟩
    · split
      · simp only [List.mem_cons, List.not_mem_nil, or_false, not_or]
        exact ⟨ofNat_ne _ (by omega) (by omega), ofNat_ne _ (by omega) (by omega),
          ofNat_ne _ (by omega) (by omega)⟩
      · simp only [List.mem_cons, List.not_mem_nil, or_false, not_or]
        exact ⟨ofNat_ne _ (by omega) (by omega), ofNat_ne _ (by omega) (by omega),
          ofNat_ne _ (by omega) (by omega), ofNat_ne _ (by omega) (by omega)⟩

theorem splitOn_append_of_notMem [DecidableEq α] {newline : α} {line : List α}
    (visible : newline ∉ line) (rest : List α) :
    (line ++ rest).splitOn newline = (rest.splitOn newline).modifyHead (line ++ ·) := by
  induction line with
  | nil =>
      rw [List.nil_append]
      cases rest.splitOn newline <;> rfl
  | cons first line ih =>
      simp only [List.mem_cons, not_or] at visible
      have first_ne : (first == newline) = false := by simpa using Ne.symm visible.1
      rw [List.cons_append, List.splitOn_cons_eq_if_modifyHead, first_ne, ih visible.2]
      cases rest.splitOn newline <;> rfl

/-- The lines of an encoded text are its lines, encoded. -/
theorem splitOn_flatMap_utf8EncodeChar (chars : List Char) :
    (chars.flatMap String.utf8EncodeChar).splitOn newline =
      (chars.splitOn '\n').map fun line => line.flatMap String.utf8EncodeChar := by
  induction chars with
  | nil => rfl
  | cons char rest ih =>
      by_cases is_newline : char = '\n'
      · subst is_newline
        have encoded : String.utf8EncodeChar '\n' = [newline] := by decide
        rw [List.flatMap_cons, encoded, List.singleton_append,
          List.splitOn_cons_eq_if_modifyHead, List.splitOn_cons_eq_if_modifyHead, ih]
        simp
      · have not_newline : (char == '\n') = false := by simpa using is_newline
        rw [List.flatMap_cons, splitOn_append_of_notMem (newline_notMem_utf8EncodeChar is_newline),
          List.splitOn_cons_eq_if_modifyHead, ih, not_newline]
        cases rest.splitOn '\n' <;> simp

theorem flatMap_intercalate_newline (lines : List (List Char)) :
    (['\n'].intercalate lines).flatMap String.utf8EncodeChar =
      [newline].intercalate (lines.map fun line => line.flatMap String.utf8EncodeChar) := by
  have encoded : String.utf8EncodeChar '\n' = [newline] := by decide
  induction lines with
  | nil => rfl
  | cons line rest ih =>
      cases rest with
      | nil => simp
      | cons next rest =>
          rw [List.intercalate_cons_cons, List.map_cons, List.map_cons,
            List.intercalate_cons_cons, ← List.map_cons, ← ih]
          simp [encoded]

theorem padLine_flatMap (width : Nat) (line : List Char) :
    padLine (List.replicate width space) (line.flatMap String.utf8EncodeChar) =
      (padLine (List.replicate width ' ') line).flatMap String.utf8EncodeChar := by
  have encoded : String.utf8EncodeChar ' ' = [space] := by decide
  cases line with
  | nil => rfl
  | cons char rest =>
      have nonempty : (char :: rest).flatMap String.utf8EncodeChar ≠ [] := by
        simp [String.utf8EncodeChar_ne_nil]
      have padding : (List.replicate width ' ').flatMap String.utf8EncodeChar =
          List.replicate width space := by
        simp [List.flatMap_replicate, encoded]
      rw [padLine, if_neg nonempty, padLine_cons, List.flatMap_append, padding]

/-- The indentation of an encoded text is the encoding of the padded text. -/
theorem indented_bytes (width : Nat) (text : String) :
    indented width true (bytes text) =
      bytes (String.ofList (padLines '\n' (List.replicate width ' ') text.toList)) := by
  rw [indented_eq_padLines]
  simp only [bytes, padLines, String.toList_ofList, flatMap_intercalate_newline,
    splitOn_flatMap_utf8EncodeChar, List.map_map]
  congr 1
  apply List.map_congr_left
  intro line _
  exact padLine_flatMap width line

end ProtoSchema.Text
