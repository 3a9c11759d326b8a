import ProtoSchema.Codec.Message
import ProtoSchema.Codec.Service
import ProtoSchema.Printing.Config
import ProtoSchema.Schema.File

/-!
# JSON form of files and of the print configuration

Every member of a file has a default, so the empty object is the empty file. The dialect is always
written, the package only if there is one.
-/

namespace ProtoSchema

open RecordField

/-- Writes a file, its declarations by category. -/
def File.toJson (file : File) : Json :=
  .obj ([("syntax", file.dialect.toJson)] ++ Json.textMember "package" file.package.name ++
    file.comment.member ++
    Json.listMember "imports" (file.imports.map Import.toJson) ++
    Setting.member file.options ++
    Json.listMember "messages" (file.messages.map Message.toJson) ++
    Json.listMember "enums" (file.enums.map Enumeration.toJson) ++
    Json.listMember "services" (file.services.map Service.toJson))

/-- Reads a file, of which everything may be left out. -/
def File.read (room : Nat) : Decoder File :=
  .record room "File"
    [optional "syntax" .proto3 Dialect.read, optional "package" {} Package.read,
      Comment.field (room - 1),
      optional "imports" [] (.list (room - 1) (Import.read (room - 2))),
      Setting.field Setting.plainTitle (room - 1),
      optional "messages" [] (.list (room - 1) (Message.read (room - 2))),
      optional "enums" [] (.list (room - 1) (Enumeration.read (room - 2))),
      optional "services" [] (.list (room - 1) (Service.read (room - 2)))]
    fun (dialect, package, comment, imports, options, messages, enums, services, ()) =>
      ⟨dialect, package, comment, imports, options, messages, enums, services⟩

/-- Writes the print configuration. -/
def Config.toJson (config : Config) : Json :=
  .obj [("indent", .int config.indent.toNat)]

/-- Reads the print configuration; no member is needed for the default one. -/
def Config.read (room : Nat) : Decoder Config :=
  .record room "PrinterConfig" [optional "indent" defaultIndent .unsigned64]
    fun (indent, ()) => ⟨indent⟩

end ProtoSchema
