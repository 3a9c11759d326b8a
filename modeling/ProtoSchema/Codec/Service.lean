import ProtoSchema.Codec.Head
import ProtoSchema.Schema.Service

/-!
# JSON form of services

A procedure must say what it takes and what it returns; only its comment may be left out.
-/

namespace ProtoSchema

open RecordField

/-- Writes what a procedure takes or returns, always saying whether it is a stream. -/
def ReturnType.toJson (type : ReturnType) : Json :=
  .obj [("name", .str type.name), ("streamable", .bool type.streamed)]

/-- Reads what a procedure takes or returns, a single value unless it says otherwise. -/
def ReturnType.read (room : Nat) : Decoder ReturnType :=
  .record room "ReturnType" [required "name" .text, optional "streamable" false .boolean]
    fun (name, streamed, ()) => ⟨name, streamed⟩

/-- Writes a procedure. -/
def Rpc.toJson (rpc : Rpc) : Json :=
  .obj ([("name", .str rpc.name)] ++ rpc.comment.member ++
    [("input", rpc.input.toJson), ("output", rpc.output.toJson)])

/-- Reads a procedure. Its two types are records, one container further in. -/
def Rpc.read (room : Nat) : Decoder Rpc :=
  .record room "Rpc"
    [required "name" .text, Comment.field (room - 1),
      required "input" (ReturnType.read (room - 1)),
      required "output" (ReturnType.read (room - 1))]
    fun (name, comment, input, output, ()) => ⟨name, comment, input, output⟩

/-- Writes a service with its procedures. -/
def Service.toJson (service : Service) : Json :=
  .obj ([("name", .str service.name)] ++ service.comment.member ++
    Setting.member service.options ++ Json.listMember "rpcs" (service.rpcs.map Rpc.toJson))

/-- Reads a service, which may have no procedures. -/
def Service.read (room : Nat) : Decoder Service :=
  .record room "Service"
    [required "name" .text, Comment.field (room - 1),
      Setting.field Setting.plainTitle (room - 1),
      optional "rpcs" [] (.list (room - 1) (Rpc.read (room - 2)))]
    fun (name, comment, options, rpcs, ()) => ⟨name, comment, options, rpcs⟩

end ProtoSchema
