import ProtoSchema.Text.Lines

/-!
# Comments

A comment is a sequence of lines, kept without the marker that printing puts before each of them.
-/

namespace ProtoSchema

/-- The comment lines that stand before a declaration. -/
structure Comment where
  lines : List String := []
  deriving DecidableEq, Repr

namespace Comment

instance : Inhabited Comment := ⟨{}⟩

/-- The comment whose lines are the lines of a text. -/
def ofText (text : String) : Comment :=
  ⟨Text.lines text⟩

/-- The comment with one more line at its end. -/
def addLine (comment : Comment) (line : String) : Comment :=
  ⟨comment.lines ++ [line]⟩

/-- How many lines there are. -/
def size (comment : Comment) : Nat :=
  comment.lines.length

/-- Whether there is no line at all. -/
def isEmpty (comment : Comment) : Bool :=
  comment.lines.isEmpty

/-- The lines as one text, with a newline between neighbours. -/
def text (comment : Comment) : String :=
  Text.join comment.lines

@[simp]
theorem lines_addLine (comment : Comment) (line : String) :
    (comment.addLine line).lines = comment.lines ++ [line] := rfl

end Comment

end ProtoSchema
