import ProtoSchema.Output.Writer

/-!
# Layouts

A layout says what to print without saying where: pieces of text one after the other, some of them
inside a block. Each piece is written by a call of its own, so a line is put together by several.
How far a block is indented is decided when the layout is written, by an adapter that stands above
the writer for as long as the block lasts.
-/

namespace ProtoSchema

/-- What to print. -/
inductive Layout
  | empty
  | text (content : String)
  | append (first second : Layout)
  | block (body : Layout)
  deriving DecidableEq, Repr, Inhabited

namespace Layout

instance : Append Layout := ⟨append⟩

/-- A text and the end of its line, written at once. -/
def line (content : String) : Layout :=
  text (content ++ "\n")

/-- Layouts one after the other. -/
def concat : List Layout → Layout
  | [] => empty
  | first :: rest => first ++ concat rest

/-- The layouts of the members of a list, one after the other. -/
def each {α : Type} (members : List α) (layout : α → Layout) : Layout :=
  concat (members.map layout)

/-- Texts one after the other, each written on its own. -/
def pieces (contents : List String) : Layout :=
  each contents text

/-- Writes a layout whose blocks are indented by `width`, up to the first halt. -/
def write (width : Nat) : Layout → {depth : Nat} → Writer depth → Outcome (Writer depth)
  | empty, _, writer => .done writer
  | text content, depth, writer => writer.writeAll depth (Text.bytes content)
  | append first second, _, writer =>
    (first.write width writer).andThen fun writer => second.write width writer
  | block body, _, writer => (body.write width (writer.push width)).map Writer.pop

end Layout

end ProtoSchema
