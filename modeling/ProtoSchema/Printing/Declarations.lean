import ProtoSchema.Printing.Layout
import ProtoSchema.Schema.Node

/-!
# The printed form of declarations

The layout of every part of a schema. A declaration stands below its comment. The body of a
message holds its fields, enums, nested messages and oneofs, in this order; enums and services
state their options first. A file puts an empty line before each of its declarations and groups
them as messages, enums and services.
-/

namespace ProtoSchema

/-- Each line of a comment stands behind a marker on a line of its own. -/
def Comment.layout (comment : Comment) : Layout :=
  .each comment.lines fun line => .pieces ["// ", line, "\n"]

/-- A setting inside an option list. -/
def Setting.entry (setting : Setting) : Layout :=
  .pieces [setting.name, " = ", setting.value]

/-- A setting as a statement. -/
def Setting.statement (setting : Setting) : Layout :=
  .pieces [setting.name, " = ", setting.value, ";\n"]

/-- The bracketed list of settings behind a field or an enum value; no settings, no list. -/
def Setting.list : List Setting → Layout
  | [] => .empty
  | first :: rest =>
    .text " [" ++ first.entry ++ .each rest (fun setting => .text ", " ++ setting.entry) ++
      .text "]"

/-- The declaration of a block: its comment, its keyword and name, its body and the closing
brace. -/
def Layout.declaration (comment : Comment) (keyword name : String) (body : Layout) : Layout :=
  comment.layout ++ .pieces [keyword, name, " \x7b\n"] ++ .block body ++ .line "\x7d"

/-- The statement of the dialect, which is quoted. -/
def Dialect.layout (dialect : Dialect) : Layout :=
  .pieces ["syntax = \"", dialect.name, "\";\n"]

/-- The statement of a package. -/
def Package.layout (package : Package) : Layout :=
  .pieces ["package ", package.name, ";\n"]

/-- An import statement, with the keyword of its visibility if it has one. -/
def Import.layout (statement : Import) : Layout :=
  match statement.visibility with
  | .unspecified => .pieces ["import \"", statement.path, "\";\n"]
  | visibility => .pieces ["import ", visibility.keyword, " \"", statement.path, "\";\n"]

/-- A field on one line below its comment. -/
def MessageField.layout (field : MessageField) : Layout :=
  field.comment.layout ++ (if field.repeated then .text "repeated " else .empty) ++
    .pieces [field.typeName, " ", field.name, " = ", Nat.repr field.index.toNat] ++
    Setting.list field.options ++ .line ";"

/-- A member of a oneof, like a field that is not repeated. -/
def OneOfField.layout (field : OneOfField) : Layout :=
  field.comment.layout ++
    .pieces [field.typeName, " ", field.name, " = ", Nat.repr field.index.toNat] ++
    Setting.list field.options ++ .line ";"

/-- A oneof and its members. -/
def OneOf.layout (oneof : OneOf) : Layout :=
  .declaration oneof.comment "oneof " oneof.name (.each oneof.fields OneOfField.layout)

/-- A value of an enum, with the sign of its number if that is negative. -/
def EnumValue.layout (value : EnumValue) : Layout :=
  value.comment.layout ++ .pieces [value.name, " = ", Int.repr value.index.toInt] ++
    Setting.list value.options ++ .line ";"

/-- An enum: its options as statements, then its values. -/
def Enumeration.layout (enumeration : Enumeration) : Layout :=
  .declaration enumeration.comment "enum " enumeration.name
    (.each enumeration.options Setting.statement ++ .each enumeration.values EnumValue.layout)

mutual

/-- A message: its fields, enums, nested messages and oneofs, with no line between the groups. -/
def Message.layout : Message → Layout
  | ⟨name, comment, fields, enums, messages, oneofs⟩ =>
    .declaration comment "message " name
      (.each fields MessageField.layout ++ .each enums Enumeration.layout ++
        Message.layoutAll messages ++ .each oneofs OneOf.layout)

/-- Messages one after the other. -/
def Message.layoutAll : List Message → Layout
  | [] => .empty
  | first :: rest => first.layout ++ Message.layoutAll rest

end

/-- What a procedure takes or returns, in parentheses. -/
def ReturnType.layout (type : ReturnType) : Layout :=
  .pieces [if type.streamed then "(stream " else "(", type.name, ")"]

/-- A procedure on one line below its comment. -/
def Rpc.layout (rpc : Rpc) : Layout :=
  rpc.comment.layout ++ .pieces ["rpc ", rpc.name, " "] ++ rpc.input.layout ++
    .text " returns " ++ rpc.output.layout ++ .line ";"

/-- A service: its options as statements, then its procedures. -/
def Service.layout (service : Service) : Layout :=
  .declaration service.comment "service " service.name
    (.each service.options Setting.statement ++ .each service.rpcs Rpc.layout)

/-- A file. A package without a name is left out, and each declaration stands behind an empty
line. -/
def File.layout (file : File) : Layout :=
  file.comment.layout ++ file.dialect.layout ++ .each file.imports Import.layout ++
    (if file.package.isEmpty then .empty else file.package.layout) ++
    .each file.options Setting.statement ++
    .each file.messages (fun message => .line "" ++ message.layout) ++
    .each file.enums (fun enumeration => .line "" ++ enumeration.layout) ++
    .each file.services (fun service => .line "" ++ service.layout)

/-- What is printed of a node on its own. The options of fields and of enum values are entries of a
list, without an end of line; other options are statements. -/
def Node.layout : Node → Layout
  | file node => node.layout
  | dialect node => node.layout
  | imported node => node.layout
  | package node => node.layout
  | option node => node.statement
  | message node => node.layout
  | messageField node => node.layout
  | oneof node => node.layout
  | oneofField node => node.layout
  | fieldOption node => node.entry
  | enum node => node.layout
  | enumValue node => node.layout
  | enumValueOption node => node.entry
  | service node => node.layout
  | rpc node => node.layout
  | returnType node => node.layout
  | comment node => node.layout

end ProtoSchema
