import ProtoSchema.Codec.Kind
import ProtoSchema.Proofs.Schema.CommentText

/-!
# The printed lines of a comment

Printing puts the marker of a comment before each of its lines and looks at nothing else. A line
that holds a newline is printed as several lines, and only the first of them is behind a marker.
Comments that are made from a text have no such lines, but a line that is added to a comment, that
is given in a list of lines or that is read is taken over as it is: `Comment.Built` says which lines
these are. The comment stays a comment if and only if each of them stays marked behind its newlines,
and so it is wherever the comment stands, `Comment.printed_marked_iff`.
-/

namespace ProtoSchema

open Text

namespace Text

/-- The marker of a comment, with the blank behind it. -/
def marker : List Char :=
  ['/', '/', ' ']

/-- What stands behind a newline of a line starts with a marker. -/
def StaysMarked (line : List Char) : Prop :=
  ∀ part ∈ (line.splitOn '\n').tail, marker <+: part

instance : DecidablePred StaysMarked :=
  fun line => inferInstanceAs (Decidable (∀ part ∈ (line.splitOn '\n').tail, marker <+: part))

theorem staysMarked_of_newline_notMem {line : List Char} (whole : '\n' ∉ line) :
    StaysMarked line := by
  have split_eq := splitOn_append_of_notMem whole []
  rw [List.append_nil, List.splitOn_nil] at split_eq
  simp [StaysMarked, split_eq]

end Text

namespace Comment

/-- The lines that are printed of a comment. -/
def textLines (comment : Comment) : List (List Char) :=
  comment.lines.flatMap fun line => (marker ++ line.toList).splitOn '\n'

/-- How comments are made, and which of their lines are not looked at when they are made. -/
inductive Built : List String → Comment → Prop
  | empty : Built [] {}
  | ofText (text : String) : Built [] (.ofText text)
  | ofLines (lines : List String) : Built lines ⟨lines⟩
  | read {json : String} {comment : Comment} (read_eq : Kind.comment.read json = .ok comment) :
      Built comment.lines comment
  | addLine {taken : List String} {comment : Comment} (built : Built taken comment)
      (line : String) : Built (taken ++ [line]) (comment.addLine line)

theorem splitOn_flat_append (comment : Comment) (rest : List Char) :
    (comment.flat.toList ++ rest).splitOn '\n' = comment.textLines ++ rest.splitOn '\n' := by
  rcases comment with ⟨lines⟩
  induction lines with
  | nil => simp [Comment.flat, textLines]
  | cons line lines ih =>
      have flat_eq : (Comment.mk (line :: lines)).flat.toList ++ rest =
          (marker ++ line.toList) ++ '\n' :: ((Comment.mk lines).flat.toList ++ rest) := by
        simp [Comment.flat, marker]
      rw [flat_eq, List.splitOn_append_cons_self, ih]
      simp [textLines]

/-- Of the parts of a line, the first one is behind a marker anyway. -/
theorem textLines_marked_iff (comment : Comment) :
    (∀ line ∈ comment.textLines, marker <+: line) ↔
      ∀ line ∈ comment.lines, StaysMarked line.toList := by
  simp only [textLines, List.forall_mem_flatMap]
  have parts_iff : ∀ line : String,
      (∀ part ∈ (marker ++ line.toList).splitOn '\n', marker <+: part) ↔
        StaysMarked line.toList := by
    intro line
    rw [splitOn_append_of_notMem (by decide), StaysMarked]
    cases line.toList.splitOn '\n' with
    | nil => simp
    | cons first more => simp
  simp only [parts_iff]

/-- Lines that are looked at hold no newlines. -/
theorem Built.staysMarked_iff {taken : List String} {comment : Comment}
    (built : Built taken comment) :
    (∀ line ∈ comment.lines, StaysMarked line.toList) ↔
      ∀ line ∈ taken, StaysMarked line.toList := by
  induction built with
  | empty => simp
  | ofText text =>
      simp only [Comment.ofText, Text.lines, List.forall_mem_map, String.toList_ofList,
        List.not_mem_nil, false_implies, implies_true, iff_true]
      intro line line_mem
      exact staysMarked_of_newline_notMem (newline_notMem_of_mem_charLines line_mem)
  | ofLines lines => rfl
  | read read_eq => rfl
  | addLine built line ih =>
      rw [lines_addLine, List.forall_mem_append, List.forall_mem_append, ih]

end Comment

/-- An item without its comment, and the comment above it. -/
structure Part where
  comment : Comment
  bare : Item
  deriving DecidableEq, Repr

namespace Part

/-- The item that a part belongs to, with its comment above it. -/
def item (part : Part) : Item :=
  ⟨part.bare.depth, part.comment.flat ++ part.bare.text⟩

/-- The lines of a comment, indented. -/
def commentLines (width : Nat) (part : Part) : List (List Char) :=
  part.comment.textLines.map (padLine (Item.pad width part.bare.depth))

/-- The lines of a part, those of its comment first. -/
def lines (width : Nat) (part : Part) : List (List Char) :=
  part.commentLines width ++ part.bare.lines width

theorem lines_item (width : Nat) (part : Part) : part.item.lines width = part.lines width := by
  have tail_ne := List.splitOn_ne_nil '\n' part.bare.text.toList
  simp only [Item.lines, item, String.toList_append, Comment.splitOn_flat_append,
    List.dropLast_append_of_ne_nil tail_ne, List.map_append]
  rfl

end Part

/-- The parts of a oneof. Its own comment stands above its head. -/
def OneOf.parts (depth : Nat) (oneof : OneOf) : List Part :=
  [⟨oneof.comment, .head depth {} "oneof " oneof.name⟩] ++
    oneof.fields.map (fun field => ⟨field.comment, (field.withComment {}).item (depth + 1)⟩) ++
    [⟨{}, .close depth⟩]

/-- The parts of an enum. Its options have no comments. -/
def Enumeration.parts (depth : Nat) (enumeration : Enumeration) : List Part :=
  [⟨enumeration.comment, .head depth {} "enum " enumeration.name⟩] ++
    enumeration.options.map (fun setting => ⟨{}, setting.item (depth + 1)⟩) ++
    enumeration.values.map
      (fun value => ⟨value.comment, (value.withComment {}).item (depth + 1)⟩) ++
    [⟨{}, .close depth⟩]

/-- The parts of a service. Its options have no comments. -/
def Service.parts (depth : Nat) (service : Service) : List Part :=
  [⟨service.comment, .head depth {} "service " service.name⟩] ++
    service.options.map (fun setting => ⟨{}, setting.item (depth + 1)⟩) ++
    service.rpcs.map (fun rpc => ⟨rpc.comment, (rpc.withComment {}).item (depth + 1)⟩) ++
    [⟨{}, .close depth⟩]

mutual

/-- The parts of a message, with those of the messages in its body. -/
def Message.parts (depth : Nat) : Message → List Part
  | ⟨name, comment, fields, enums, messages, oneofs⟩ =>
    [⟨comment, .head depth {} "message " name⟩] ++
      fields.map (fun field => ⟨field.comment, (field.withComment {}).item (depth + 1)⟩) ++
      enums.flatMap (Enumeration.parts (depth + 1)) ++ Message.partsOfAll (depth + 1) messages ++
      oneofs.flatMap (OneOf.parts (depth + 1)) ++ [⟨{}, .close depth⟩]

/-- The parts of messages one after the other. -/
def Message.partsOfAll (depth : Nat) : List Message → List Part
  | [] => []
  | first :: rest => Message.parts depth first ++ Message.partsOfAll depth rest

end

/-- The comment of a file stands alone, the others stand above something. -/
def File.parts (file : File) : List Part :=
  [⟨file.comment, ⟨0, ""⟩⟩, ⟨{}, file.dialect.item⟩] ++
    file.imports.map (fun statement => ⟨{}, statement.item⟩) ++
    (if file.package.name = "" then [] else [⟨{}, file.package.item⟩]) ++
    file.options.map (fun setting => ⟨{}, setting.item 0⟩) ++
    file.messages.flatMap (fun message => ⟨{}, .blank⟩ :: message.parts 0) ++
    file.enums.flatMap (fun enumeration => ⟨{}, .blank⟩ :: enumeration.parts 0) ++
    file.services.flatMap (fun service => ⟨{}, .blank⟩ :: service.parts 0)

/-- The parts of a node with their comments. What stands inside of a line has none. -/
def Node.parts : Node → List Part
  | file node => node.parts
  | dialect node => [⟨{}, node.item⟩]
  | imported node => [⟨{}, node.item⟩]
  | package node => [⟨{}, node.item⟩]
  | option node => [⟨{}, node.item 0⟩]
  | message node => node.parts 0
  | messageField node => [⟨node.comment, (node.withComment {}).item 0⟩]
  | oneof node => node.parts 0
  | oneofField node => [⟨node.comment, (node.withComment {}).item 0⟩]
  | fieldOption _ => []
  | enum node => node.parts 0
  | enumValue node => [⟨node.comment, (node.withComment {}).item 0⟩]
  | enumValueOption _ => []
  | service node => node.parts 0
  | rpc node => [⟨node.comment, (node.withComment {}).item 0⟩]
  | returnType _ => []
  | comment node => [⟨node, ⟨0, ""⟩⟩]

section

variable (depth : Nat)

theorem Comment.flat_empty : ({} : Comment).flat = "" := rfl

@[simp]
theorem Part.item_plain (item : Item) : Part.item ⟨{}, item⟩ = item := by
  simp [Part.item, Comment.flat_empty]

@[simp]
theorem Part.item_head (comment : Comment) (keyword name : String) :
    Part.item ⟨comment, .head depth {} keyword name⟩ = .head depth comment keyword name := by
  simp [Part.item, Item.head, Comment.flat_empty, String.append_assoc]

@[simp]
theorem MessageField.item_part (field : MessageField) :
    Part.item ⟨field.comment, (field.withComment {}).item depth⟩ = field.item depth := by
  cases repeated : field.repeated <;>
    simp [Part.item, MessageField.item, MessageField.withComment, Comment.flat_empty, repeated,
      String.append_assoc]

@[simp]
theorem OneOfField.item_part (field : OneOfField) :
    Part.item ⟨field.comment, (field.withComment {}).item depth⟩ = field.item depth := by
  simp [Part.item, OneOfField.item, OneOfField.withComment, Comment.flat_empty,
    String.append_assoc]

@[simp]
theorem EnumValue.item_part (value : EnumValue) :
    Part.item ⟨value.comment, (value.withComment {}).item depth⟩ = value.item depth := by
  simp [Part.item, EnumValue.item, EnumValue.withComment, Comment.flat_empty, String.append_assoc]

@[simp]
theorem Rpc.item_part (rpc : Rpc) :
    Part.item ⟨rpc.comment, (rpc.withComment {}).item depth⟩ = rpc.item depth := by
  simp [Part.item, Rpc.item, Rpc.withComment, Comment.flat_empty, String.append_assoc]

theorem OneOf.items_parts (oneof : OneOf) :
    (oneof.parts depth).map Part.item = oneof.items depth := by
  simp [OneOf.parts, OneOf.items]

theorem Enumeration.items_parts (enumeration : Enumeration) :
    (enumeration.parts depth).map Part.item = enumeration.items depth := by
  simp [Enumeration.parts, Enumeration.items, Function.comp_def]

theorem Service.items_parts (service : Service) :
    (service.parts depth).map Part.item = service.items depth := by
  simp [Service.parts, Service.items, Function.comp_def]

mutual

theorem Message.items_parts (depth : Nat) (message : Message) :
    (message.parts depth).map Part.item = message.items depth := by
  rcases message with ⟨name, comment, fields, enums, messages, oneofs⟩
  have messages_eq := Message.itemsOfAll_parts (depth + 1) messages
  simp [Message.parts, Message.items, List.map_flatMap, messages_eq, Enumeration.items_parts,
    OneOf.items_parts]

theorem Message.itemsOfAll_parts (depth : Nat) (messages : List Message) :
    (Message.partsOfAll depth messages).map Part.item = Message.itemsOfAll depth messages := by
  cases messages with
  | nil => rfl
  | cons first rest =>
      rw [Message.partsOfAll, Message.itemsOfAll, List.map_append,
        Message.items_parts depth first, Message.itemsOfAll_parts depth rest]

end

end

theorem File.items_parts (file : File) : file.parts.map Part.item = file.items := by
  have package_eq : (if file.package.name = "" then [] else [Part.mk {} file.package.item]).map
      Part.item = if file.package.name = "" then [] else [file.package.item] := by
    split <;> simp
  have comment_eq : Part.item ⟨file.comment, ⟨0, ""⟩⟩ = ⟨0, file.comment.flat⟩ := by
    simp [Part.item]
  simp [File.parts, File.items, List.map_flatMap, Function.comp_def, Message.items_parts,
    Enumeration.items_parts, Service.items_parts, package_eq, comment_eq]

namespace Node

/-- A node that has parts is made of them, and of whole lines. -/
theorem items_of_mem_parts {node : Node} {part : Part} (part_mem : part ∈ node.parts) :
    node.parts.map Part.item = node.items ∧ ∀ item ∈ node.items, item.EndsLine := by
  cases node with
  | file node => exact ⟨node.items_parts, node.endsLine_items⟩
  | message node => exact ⟨node.items_parts 0, node.endsLine_items 0⟩
  | oneof node => exact ⟨node.items_parts 0, node.endsLine_items 0⟩
  | enum node => exact ⟨node.items_parts 0, node.endsLine_items 0⟩
  | service node => exact ⟨node.items_parts 0, node.endsLine_items 0⟩
  | comment node =>
      simp only [parts, items, List.map_singleton, List.forall_mem_singleton]
      exact ⟨by simp [Part.item], node.endsLine_flat⟩
  | fieldOption node => cases part_mem
  | enumValueOption node => cases part_mem
  | returnType node => cases part_mem
  | _ node =>
      simp only [parts, items, List.map_singleton, List.forall_mem_singleton]
      exact ⟨by simp, Item.endsLine_append _ _ rfl⟩

/-- The lines of a node are those of its parts. -/
theorem splitOn_flatText {node : Node} {part : Part} (part_mem : part ∈ node.parts) (width : Nat) :
    (node.flatText width).toList.splitOn '\n' = node.parts.flatMap (Part.lines width) ++ [[]] := by
  rcases items_of_mem_parts part_mem with ⟨items_eq, ends⟩
  rw [Node.flatText, Item.toList_renderAll ends, splitOn_unlines, ← items_eq, List.flatMap_map]
  · simp only [Part.lines_item]
  · intro line line_mem
    rcases List.mem_flatMap.mp line_mem with ⟨item, -, line_mem⟩
    exact Item.newline_notMem_of_mem_lines line_mem

end Node

/-- Indentation does not change whether a line is marked. -/
theorem Part.commentLines_marked_iff (width : Nat) (part : Part) :
    (∀ line ∈ part.commentLines width, Item.pad width part.bare.depth ++ marker <+: line) ↔
      ∀ line ∈ part.comment.textLines, marker <+: line := by
  rw [commentLines, List.forall_mem_map]
  have line_iff : ∀ line : List Char,
      Item.pad width part.bare.depth ++ marker <+: padLine (Item.pad width part.bare.depth) line ↔
        marker <+: line := by
    intro line
    cases line with
    | nil => simp [marker]
    | cons first line => rw [padLine_cons, List.prefix_append_right_inj]
  simp only [line_iff]

namespace Comment

/-- The printed form of a comment is made of lines, and each of them is behind a marker if and only
if no line that was taken over as it is leaves the comment behind a newline. Wherever the comment
stands in a node, these lines are printed, indented, between the lines of what stands before it and
the lines of what it belongs to, and each of them is the line of a comment under the same
condition. -/
theorem printed_marked_iff {taken : List String} {comment : Comment}
    (built : Built taken comment) :
    ((Node.comment comment).print.toList.splitOn '\n' = comment.textLines ++ [[]] ∧
      ((∀ line ∈ comment.textLines, marker <+: line) ↔
        ∀ line ∈ taken, StaysMarked line.toList)) ∧
    ∀ (config : Config) (node : Node) (before after : List Part) (bare : Item),
      node.parts = before ++ ⟨comment, bare⟩ :: after →
      let width := config.indent.toNat
      let pad := Item.pad width bare.depth
      ∃ text : String, rendering config (some node) = bytes text ∧
        text.toList.splitOn '\n' = before.flatMap (Part.lines width) ++
          (comment.textLines.map (padLine pad) ++
            (bare.lines width ++ (after.flatMap (Part.lines width) ++ [[]]))) ∧
        ((∀ line ∈ comment.textLines.map (padLine pad), pad ++ marker <+: line) ↔
          ∀ line ∈ taken, StaysMarked line.toList) := by
  have marked_iff := comment.textLines_marked_iff.trans built.staysMarked_iff
  refine ⟨⟨?_, marked_iff⟩, ?_⟩
  · have split_eq := comment.splitOn_flat_append []
    rwa [List.append_nil, List.splitOn_nil, ← print_eq_flat] at split_eq
  · intro config node before after bare parts_eq width pad
    refine ⟨node.flatText width, rendering_some config node, ?_, ?_⟩
    · have part_mem : Part.mk comment bare ∈ node.parts := by simp [parts_eq]
      rw [Node.splitOn_flatText part_mem, parts_eq]
      simp [Part.lines, Part.commentLines, pad, List.append_assoc]
    · exact (Part.commentLines_marked_iff width ⟨comment, bare⟩).trans marked_iff

/-- The comment of a field of a nested message, made from a text and one more line, which goes on
behind a newline with a marker of its own. -/
theorem printed_marked_iff_nested :
    let comment := (Comment.ofText "a\r\nb").addLine "c\n// d"
    let field : MessageField := ⟨false, "int32", "id", 1, [], comment⟩
    let node : Node := .message ⟨"Outer", {}, [], [], [⟨"Inner", {}, [field], [], [], []⟩], []⟩
    let lines := ["    // a", "    // b", "    // c", "    // d"].map String.toList
    Built ["c\n// d"] comment ∧
      (∀ line ∈ comment.textLines, marker <+: line) ∧
      ∃ text : String, rendering {} (some node) = bytes text ∧
        text.toList.splitOn '\n' =
          ["message Outer \x7b", "  message Inner \x7b"].map String.toList ++
            (lines ++ ["    int32 id = 1;", "  \x7d", "\x7d", ""].map String.toList) ∧
        ∀ line ∈ lines, "    // ".toList <+: line := by
  intro comment field node lines
  have built : Built ["c\n// d"] comment := .addLine (.ofText "a\r\nb") "c\n// d"
  have stays : ∀ line ∈ ["c\n// d"], StaysMarked line.toList := by decide +kernel
  have printed := printed_marked_iff built
  refine ⟨built, printed.1.2.mpr stays, ?_⟩
  rcases printed.2 {} node
    [⟨{}, .head 0 {} "message " "Outer"⟩, ⟨{}, .head 1 {} "message " "Inner"⟩]
    [⟨{}, .close 1⟩, ⟨{}, .close 0⟩] ((field.withComment {}).item 2) rfl with
    ⟨text, rendering_eq, lines_eq, marked_iff⟩
  have comment_eq : comment.textLines.map (padLine (Item.pad 2 2)) = lines := by decide +kernel
  refine ⟨text, rendering_eq, ?_, ?_⟩
  · rw [lines_eq]
    decide +kernel
  · rw [← comment_eq]
    exact marked_iff.mpr stays

/-- A line that was added as it is turns into a field. The same text makes a comment of two
lines. -/
theorem addLine_escapes :
    let line := "note\nint32 extra = 1;\n"
    let comment := ({} : Comment).addLine line
    Built [line] comment ∧
      (Node.comment comment).print = "// note\nint32 extra = 1;\n\n" ∧
      (¬∀ line ∈ Text.lines (Node.comment comment).print, "// ".toList <+: line.toList) ∧
      (Node.comment (.ofText line)).print = "// note\n// int32 extra = 1;\n" := by
  intro line comment
  have built : Built [line] comment := .addLine .empty line
  rw [print_eq_flat, print_eq_flat]
  exact ⟨built, by decide +kernel⟩

end Comment

end ProtoSchema
