import ProtoSchema.Codec.Record
import ProtoSchema.Json.Value
import ProtoSchema.Schema.Comment
import ProtoSchema.Schema.Import
import ProtoSchema.Schema.ScalarType
import ProtoSchema.Schema.Setting

/-!
# JSON form of the small parts

Comments, settings, scalar types and what stands at the head of a file. A comment is the list of
its lines, a package and a dialect are strings, scalar types and visibilities are named values.
-/

namespace ProtoSchema

open RecordField

/-- Writes a comment as the list of its lines. -/
def Comment.toJson (comment : Comment) : Json :=
  .arr (comment.lines.map .str)

/-- A comment as a member, left out if it has no line. -/
def Comment.member (comment : Comment) : List (String × Json) :=
  Json.listMember "comment" (comment.lines.map .str)

/-- Reads a comment line by line, and takes every line over as it is. -/
def Comment.read (room : Nat) : Decoder Comment := fun doc =>
  (Decoder.list room .text doc).map Comment.mk

/-- The comment of a record, which is empty if it does not occur. -/
def Comment.field (room : Nat) : RecordField :=
  optional "comment" {} (Comment.read room)

/-- Writes a setting, whose value is a string even if it looks like a number. -/
def Setting.toJson (setting : Setting) : Json :=
  .obj [("name", .str setting.name), ("value", .str setting.value)]

/-- Settings as a member, left out if there are none. -/
def Setting.member (settings : List Setting) : List (String × Json) :=
  Json.listMember "options" (settings.map Setting.toJson)

namespace Setting

/-- The title of the settings of files, services, enums and members of oneofs. -/
def plainTitle : String := "ProtoOption"

/-- The title of the settings of plain fields. -/
def fieldTitle : String := "FieldOption"

/-- The title of the settings of enum values. -/
def enumValueTitle : String := "EnumValueOption"

/-- Reads a setting under one of the three titles. -/
def read (title : String) (room : Nat) : Decoder Setting :=
  .record room title [required "name" .text, required "value" .text]
    fun (name, value, ()) => ⟨name, value⟩

/-- The settings of a record, none if they do not occur. -/
def field (title : String) (room : Nat) : RecordField :=
  optional "options" [] (.list room (read title (room - 1)))

end Setting

/-- Writes a scalar type as its keyword. -/
def ScalarType.toJson (scalar : ScalarType) : Json :=
  .str scalar.keyword

/-- Reads a scalar type by its keyword. -/
def ScalarType.read (room : Nat) : Decoder ScalarType :=
  .variant room (ScalarType.all.map fun scalar => (scalar.keyword, scalar))

/-- Writes the dialect as its name. -/
def Dialect.toJson (dialect : Dialect) : Json :=
  .str dialect.name

/-- Reads the one dialect there is; the name of another one is an error of its own. -/
def Dialect.read : Decoder Dialect := fun doc => do
  let name ← Decoder.text doc
  if name = Dialect.proto3.name then .ok .proto3 else .error (.unsupportedDialect name)

/-- Writes a package as its name. -/
def Package.toJson (package : Package) : Json :=
  .str package.name

/-- Reads a package from any name, the empty one included. -/
def Package.read : Decoder Package := fun doc =>
  (Decoder.text doc).map Package.mk

/-- Writes a visibility as its word. The unspecified one has a word here, but no keyword. -/
def Visibility.toJson (visibility : Visibility) : Json :=
  .str visibility.word

/-- Reads a visibility by its word. -/
def Visibility.read (room : Nat) : Decoder Visibility :=
  .variant room (Visibility.all.map fun visibility => (visibility.word, visibility))

/-- Writes an import, always with its visibility. -/
def Import.toJson (statement : Import) : Json :=
  .obj [("path", .str statement.path), ("visibility", statement.visibility.toJson)]

/-- Reads an import, whose visibility may be left out. -/
def Import.read (room : Nat) : Decoder Import :=
  .record room "Import"
    [required "path" .text, optional "visibility" .unspecified (Visibility.read (room - 1))]
    fun (path, visibility, ()) => ⟨path, visibility⟩

end ProtoSchema
