import ProtoSchema.Codec.Fields
import ProtoSchema.Schema.Message

/-!
# JSON form of messages

Messages nest, and so do the containers of their JSON form: two for each message, its own and the
list it stands in. Reading is by recursion on the number of containers that may still be opened.
-/

namespace ProtoSchema

open RecordField

namespace Message

mutual

/-- Writes a message with everything in its body; empty lists are left out. -/
def toJson : Message → Json
  | ⟨name, comment, fields, enums, messages, oneofs⟩ =>
    .obj ([("name", .str name)] ++ comment.member ++
      Json.listMember "fields" (fields.map MessageField.toJson) ++
      Json.listMember "enums" (enums.map Enumeration.toJson) ++
      Json.listMember "messages" (listToJson messages) ++
      Json.listMember "oneofs" (oneofs.map OneOf.toJson))

/-- Writes messages one by one. -/
def listToJson : List Message → List Json
  | [] => []
  | first :: rest => toJson first :: listToJson rest

end

/-- The fields of a message, where `nested` reads the messages in its body. -/
def recordFields (room : Nat) (nested : Decoder Message) : List RecordField :=
  [required "name" .text, Comment.field (room - 1),
    optional "fields" [] (.list (room - 1) (MessageField.read (room - 2))),
    optional "enums" [] (.list (room - 1) (Enumeration.read (room - 2))),
    optional "messages" [] (.list (room - 1) nested),
    optional "oneofs" [] (.list (room - 1) (OneOf.read (room - 2)))]

/-- Reads a message, where `nested` reads the messages in its body. -/
def readWith (room : Nat) (nested : Decoder Message) : Decoder Message :=
  .record room "Message" (recordFields room nested)
    fun (name, comment, fields, enums, messages, oneofs, ()) =>
      ⟨name, comment, fields, enums, messages, oneofs⟩

/-- What reads a message that no container can be opened for. -/
def noRoom : Decoder Message := fun _ => .error .malformed

/-- Reads a message, and the messages in its body with the room that is left two containers in. -/
def read : (room : Nat) → Decoder Message
  -- Below two containers the list of nested messages cannot be opened, so none is ever read.
  | 0 => readWith 0 noRoom
  | 1 => readWith 1 noRoom
  | room + 2 => readWith (room + 2) (read room)

end Message

end ProtoSchema
