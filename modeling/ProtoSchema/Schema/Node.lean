import ProtoSchema.Schema.File

/-!
# Nodes

A node is any part of a schema that can be printed on its own.
-/

namespace ProtoSchema

/-- A printable part of a schema. -/
inductive Node
  | file (file : File)
  | dialect (dialect : Dialect)
  | imported (statement : Import)
  | package (package : Package)
  | option (setting : Setting)
  | message (message : Message)
  | messageField (field : MessageField)
  | oneof (oneof : OneOf)
  | oneofField (field : OneOfField)
  | fieldOption (setting : Setting)
  | enum (enumeration : Enumeration)
  | enumValue (value : EnumValue)
  | enumValueOption (setting : Setting)
  | service (service : Service)
  | rpc (rpc : Rpc)
  | returnType (type : ReturnType)
  | comment (comment : Comment)
  deriving DecidableEq, Repr, Inhabited

/-- The word for the kind of a node. -/
def Node.kind : Node → String
  | file _ => "file"
  | dialect _ => "syntax"
  | imported _ => "import"
  | package _ => "package"
  | option _ => "option"
  | message _ => "message"
  | messageField _ => "message_field"
  | oneof _ => "oneof"
  | oneofField _ => "oneof_field"
  | fieldOption _ => "field_option"
  | enum _ => "enum"
  | enumValue _ => "enum_field"
  | enumValueOption _ => "enum_value_option"
  | service _ => "service"
  | rpc _ => "rpc"
  | returnType _ => "return_type"
  | comment _ => "comment"

end ProtoSchema
