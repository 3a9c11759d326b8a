import ProtoSchema.Codec.Head
import ProtoSchema.Schema.Enumeration
import ProtoSchema.Schema.Field

/-!
# JSON form of fields, oneofs and enums

Whether a field is repeated and its number are always written; comments, settings and lists of
members only if there are any. A record reads its members one container further in, and the items
of a list two, which is how much less room they have.
-/

namespace ProtoSchema

open RecordField

/-- Writes a field. Its comment comes last, behind its settings. -/
def MessageField.toJson (field : MessageField) : Json :=
  .obj ([("repeated", .bool field.repeated), ("type", .str field.typeName),
      ("name", .str field.name), ("index", .int field.index.toNat)] ++
    Setting.member field.options ++ field.comment.member)

/-- Reads a field, which is not repeated unless it says so. -/
def MessageField.read (room : Nat) : Decoder MessageField :=
  .record room "MessageField"
    [optional "repeated" false .boolean, required "type" .text, required "name" .text,
      required "index" .unsigned32, Setting.field Setting.fieldTitle (room - 1),
      Comment.field (room - 1)]
    fun (repeated, typeName, name, index, options, comment, ()) =>
      ⟨repeated, typeName, name, index, options, comment⟩

/-- Writes a member of a oneof. Its comment comes before its settings. -/
def OneOfField.toJson (field : OneOfField) : Json :=
  .obj ([("type", .str field.typeName), ("name", .str field.name),
      ("index", .int field.index.toNat)] ++
    field.comment.member ++ Setting.member field.options)

/-- Reads a member of a oneof. Whether it is repeated is not asked, and a member of that name is
skipped. -/
def OneOfField.read (room : Nat) : Decoder OneOfField :=
  .record room "OneOfField"
    [required "type" .text, required "name" .text, required "index" .unsigned32,
      Comment.field (room - 1), Setting.field Setting.plainTitle (room - 1)]
    fun (typeName, name, index, comment, options, ()) =>
      ⟨typeName, name, index, comment, options⟩

/-- Writes a oneof with its members. -/
def OneOf.toJson (oneof : OneOf) : Json :=
  .obj ([("name", .str oneof.name)] ++ oneof.comment.member ++
    Json.listMember "fields" (oneof.fields.map OneOfField.toJson))

/-- Reads a oneof, which may have no members. -/
def OneOf.read (room : Nat) : Decoder OneOf :=
  .record room "OneOf"
    [required "name" .text, Comment.field (room - 1),
      optional "fields" [] (.list (room - 1) (OneOfField.read (room - 2)))]
    fun (name, comment, fields, ()) => ⟨name, comment, fields⟩

/-- Writes a value of an enum, with its number under `index`. -/
def EnumValue.toJson (value : EnumValue) : Json :=
  .obj ([("name", .str value.name), ("index", .int value.index.toInt)] ++
    Setting.member value.options ++ value.comment.member)

/-- Reads a value of an enum. Unlike that of a field, its number may be negative. -/
def EnumValue.read (room : Nat) : Decoder EnumValue :=
  .record room "EnumField"
    [required "name" .text, required "index" .signed32,
      Setting.field Setting.enumValueTitle (room - 1), Comment.field (room - 1)]
    fun (name, index, options, comment, ()) => ⟨name, index, options, comment⟩

/-- Writes an enum, with its values under `fields`. -/
def Enumeration.toJson (enumeration : Enumeration) : Json :=
  .obj ([("name", .str enumeration.name)] ++ Setting.member enumeration.options ++
    Json.listMember "fields" (enumeration.values.map EnumValue.toJson) ++
    enumeration.comment.member)

/-- Reads an enum, which may have no values: that is for validation to complain about. -/
def Enumeration.read (room : Nat) : Decoder Enumeration :=
  .record room "Enum"
    [required "name" .text, Setting.field Setting.plainTitle (room - 1),
      optional "fields" [] (.list (room - 1) (EnumValue.read (room - 2))),
      Comment.field (room - 1)]
    fun (name, options, values, comment, ()) => ⟨name, options, values, comment⟩

end ProtoSchema
