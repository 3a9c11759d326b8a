/-!
# The lines of a text

A line ends at a newline, and one carriage return directly before that newline belongs to the
line break. A last line without a newline counts as a line and keeps its carriage return; nothing
after a final newline is a line. `join` puts lines back together with newlines between them.
-/

namespace ProtoSchema.Text

/-- The lines of a text, each without its line break. -/
def charLines : List Char → List (List Char)
  | [] => []
  | '\n' :: rest => [] :: charLines rest
  | '\r' :: '\n' :: rest => [] :: charLines rest
  | char :: rest =>
    match charLines rest with
    | [] => [[char]]
    | line :: more => (char :: line) :: more

/-- The lines of a text, each without its line break. -/
def lines (text : String) : List String :=
  (charLines text.toList).map String.ofList

/-- The lines with one newline between neighbours. -/
def join (lines : List String) : String :=
  "\n".intercalate lines

@[simp]
theorem charLines_nil : charLines [] = [] := rfl

@[simp]
theorem charLines_newline (rest : List Char) :
    charLines ('\n' :: rest) = [] :: charLines rest := rfl

end ProtoSchema.Text
