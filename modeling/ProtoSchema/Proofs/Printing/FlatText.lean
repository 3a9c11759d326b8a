import ProtoSchema.Proofs.Text.PaddedLines
import ProtoSchema.Schema.Node

/-!
# The printed form without adapters

The printed form of a node as a flat list of items. An item knows how many blocks it stands in and
what its text would be outside of all blocks; it is rendered by putting the indentation of that many
blocks before each of its lines that is not empty. Nothing here writes, and nothing depends on what
was printed before.

The items of a declaration are its head, the items of its body one block further in, and its closing
brace. A comment belongs to the item below it, which holds for the text of fields, values and
procedures as well as for heads.
-/

namespace ProtoSchema

/-- A piece of the printed form. -/
structure Item where
  /-- How many blocks the item stands in. -/
  depth : Nat
  /-- The text of the item outside of all blocks. -/
  text : String
  deriving DecidableEq, Repr, Inhabited

/-- The text of an item inside its blocks, each of which indents by `width`. -/
def Item.render (width : Nat) (item : Item) : String :=
  String.ofList
    (Text.padLines '\n' (List.replicate (width * item.depth) ' ') item.text.toList)

/-- The text of items one after the other. -/
def Item.renderAll (width : Nat) (items : List Item) : String :=
  String.join (items.map (render width))

/-- The lines of a comment behind their markers. -/
def Comment.flat (comment : Comment) : String :=
  String.join (comment.lines.map fun line => "// " ++ line ++ "\n")

/-- A setting as it stands in a list, with nothing behind it. -/
def Setting.flat (setting : Setting) : String :=
  setting.name ++ " = " ++ setting.value

/-- The settings behind a field or a value. -/
def Setting.flatList (settings : List Setting) : String :=
  if settings.isEmpty then "" else " [" ++ ", ".intercalate (settings.map Setting.flat) ++ "]"

/-- A setting as a statement. -/
def Setting.item (depth : Nat) (setting : Setting) : Item :=
  ⟨depth, setting.flat ++ ";\n"⟩

/-- A field, with its comment in the same item. -/
def MessageField.item (depth : Nat) (field : MessageField) : Item :=
  ⟨depth, field.comment.flat ++ (if field.repeated then "repeated " else "") ++ field.typeName ++
    " " ++ field.name ++ " = " ++ Nat.repr field.index.toNat ++ Setting.flatList field.options ++
    ";\n"⟩

/-- A member of a oneof, with its comment in the same item. -/
def OneOfField.item (depth : Nat) (field : OneOfField) : Item :=
  ⟨depth, field.comment.flat ++ field.typeName ++ " " ++ field.name ++ " = " ++
    Nat.repr field.index.toNat ++ Setting.flatList field.options ++ ";\n"⟩

/-- A value of an enum, with its comment in the same item. -/
def EnumValue.item (depth : Nat) (value : EnumValue) : Item :=
  ⟨depth, value.comment.flat ++ value.name ++ " = " ++ Int.repr value.index.toInt ++
    Setting.flatList value.options ++ ";\n"⟩

/-- What a procedure takes or returns. -/
def ReturnType.flat (type : ReturnType) : String :=
  (if type.streamed then "(stream " else "(") ++ type.name ++ ")"

/-- A procedure, with its comment in the same item. -/
def Rpc.item (depth : Nat) (rpc : Rpc) : Item :=
  ⟨depth, rpc.comment.flat ++ "rpc " ++ rpc.name ++ " " ++ rpc.input.flat ++ " returns " ++
    rpc.output.flat ++ ";\n"⟩

/-- The head of a declaration below its comment. -/
def Item.head (depth : Nat) (comment : Comment) (keyword name : String) : Item :=
  ⟨depth, comment.flat ++ keyword ++ name ++ " \x7b\n"⟩

/-- The closing brace of a declaration. -/
def Item.close (depth : Nat) : Item :=
  ⟨depth, "\x7d\n"⟩

/-- A oneof: its head, its members and its closing brace. -/
def OneOf.items (depth : Nat) (oneof : OneOf) : List Item :=
  [.head depth oneof.comment "oneof " oneof.name] ++
    oneof.fields.map (OneOfField.item (depth + 1)) ++ [.close depth]

/-- An enum: its options come before its values. -/
def Enumeration.items (depth : Nat) (enumeration : Enumeration) : List Item :=
  [.head depth enumeration.comment "enum " enumeration.name] ++
    enumeration.options.map (Setting.item (depth + 1)) ++
    enumeration.values.map (EnumValue.item (depth + 1)) ++ [.close depth]

/-- A service: its options come before its procedures. -/
def Service.items (depth : Nat) (service : Service) : List Item :=
  [.head depth service.comment "service " service.name] ++
    service.options.map (Setting.item (depth + 1)) ++
    service.rpcs.map (Rpc.item (depth + 1)) ++ [.close depth]

mutual

/-- A message: its fields, enums, nested messages and oneofs, in this order. -/
def Message.items (depth : Nat) : Message → List Item
  | ⟨name, comment, fields, enums, messages, oneofs⟩ =>
    [.head depth comment "message " name] ++ fields.map (MessageField.item (depth + 1)) ++
      enums.flatMap (Enumeration.items (depth + 1)) ++ Message.itemsOfAll (depth + 1) messages ++
      oneofs.flatMap (OneOf.items (depth + 1)) ++ [.close depth]

/-- Messages one after the other. -/
def Message.itemsOfAll (depth : Nat) : List Message → List Item
  | [] => []
  | first :: rest => Message.items depth first ++ Message.itemsOfAll depth rest

end

/-- The statement of the dialect. -/
def Dialect.item (dialect : Dialect) : Item :=
  ⟨0, "syntax = \"" ++ dialect.name ++ "\";\n"⟩

/-- The statement of a package. -/
def Package.item (package : Package) : Item :=
  ⟨0, "package " ++ package.name ++ ";\n"⟩

/-- An import, with the keyword of its visibility if there is one. -/
def Import.item (statement : Import) : Item :=
  ⟨0, "import " ++ (match statement.visibility with
    | .unspecified => ""
    | .weak => "weak "
    | .exported => "public ") ++ "\"" ++ statement.path ++ "\";\n"⟩

/-- An empty line, outside of all blocks. -/
def Item.blank : Item :=
  ⟨0, "\n"⟩

/-- A file: its head, then its messages, enums and services, each behind an empty line. -/
def File.items (file : File) : List Item :=
  [⟨0, file.comment.flat⟩, file.dialect.item] ++ file.imports.map Import.item ++
    (if file.package.name = "" then [] else [file.package.item]) ++
    file.options.map (Setting.item 0) ++
    file.messages.flatMap (fun message => .blank :: message.items 0) ++
    file.enums.flatMap (fun enumeration => .blank :: enumeration.items 0) ++
    file.services.flatMap (fun service => .blank :: service.items 0)

/-- The items of a node that is printed on its own, outside of all blocks. -/
def Node.items : Node → List Item
  | file node => node.items
  | dialect node => [node.item]
  | imported node => [node.item]
  | package node => [node.item]
  | option node => [node.item 0]
  | message node => node.items 0
  | messageField node => [node.item 0]
  | oneof node => node.items 0
  | oneofField node => [node.item 0]
  | fieldOption node => [⟨0, node.flat⟩]
  | enum node => node.items 0
  | enumValue node => [node.item 0]
  | enumValueOption node => [⟨0, node.flat⟩]
  | service node => node.items 0
  | rpc node => [node.item 0]
  | returnType node => [⟨0, node.flat⟩]
  | comment node => [⟨0, node.flat⟩]

/-- The printed form of a node whose blocks are indented by `width`. -/
def Node.flatText (width : Nat) (node : Node) : String :=
  Item.renderAll width node.items

namespace Item

@[simp]
theorem renderAll_nil (width : Nat) : renderAll width [] = "" := by
  simp [renderAll]

@[simp]
theorem renderAll_cons (width : Nat) (item : Item) (rest : List Item) :
    renderAll width (item :: rest) = item.render width ++ renderAll width rest := by
  simp [renderAll]

@[simp]
theorem renderAll_append (width : Nat) (first second : List Item) :
    renderAll width (first ++ second) = renderAll width first ++ renderAll width second := by
  simp [renderAll]

/-- The bytes of an item are the bytes of its text, indented. -/
theorem bytes_renderAll_singleton (width : Nat) (item : Item) :
    Text.bytes (renderAll width [item]) =
      Text.indented (width * item.depth) true (Text.bytes item.text) := by
  rw [renderAll_cons, renderAll_nil, String.append_empty, Text.indented_bytes, render]

end Item

end ProtoSchema
