import ProtoSchema.Schema.Enumeration
import ProtoSchema.Schema.Field

/-!
# Messages

A message holds plain fields, enums, further messages and oneofs. Each of these four lists keeps
the order in which its members were added, and adding nothing changes nothing. A lookup answers with
the earliest member of a name.
-/

namespace ProtoSchema

/-- A message and what its body holds. -/
structure Message where
  name : String
  comment : Comment := {}
  fields : List MessageField := []
  enums : List Enumeration := []
  messages : List Message := []
  oneofs : List OneOf := []
  deriving Repr, Inhabited

/-- A declaration that can stand in a message body as well as in a file. -/
inductive TypeDecl
  | message (message : Message)
  | enum (enumeration : Enumeration)
  deriving Repr, Inhabited

namespace Message

mutual

/-- Equality of messages is decided member by member. -/
def decEq : (left right : Message) → Decidable (left = right)
  | ⟨name, comment, fields, enums, messages, oneofs⟩,
    ⟨name', comment', fields', enums', messages', oneofs'⟩ =>
    match decEqList messages messages' with
    | isTrue same =>
      if rest : name = name' ∧ comment = comment' ∧ fields = fields' ∧ enums = enums' ∧
          oneofs = oneofs' then
        isTrue (by simp [same, rest])
      else
        isFalse (fun equal => rest (by simp_all))
    | isFalse different => isFalse (fun equal => different (by simp_all))

/-- Equality of message lists is decided message by message. -/
def decEqList : (left right : List Message) → Decidable (left = right)
  | [], [] => isTrue rfl
  | [], _ :: _ => isFalse (by simp)
  | _ :: _, [] => isFalse (by simp)
  | first :: rest, first' :: rest' =>
    match decEq first first', decEqList rest rest' with
    | isTrue same, isTrue sameRest => isTrue (by rw [same, sameRest])
    | isFalse different, _ => isFalse (fun equal => different (by simp_all))
    | _, isFalse different => isFalse (fun equal => different (by simp_all))

end

instance : DecidableEq Message := decEq

instance : TypeNamed Message := ⟨Message.name⟩

/-- The message with a comment in place of the one it has. -/
def withComment (message : Message) (comment : Comment) : Message :=
  { message with comment }

/-- The message with one more plain field at its end, if there is one to add. -/
def addField (message : Message) (field : Option MessageField) : Message :=
  { message with fields := message.fields ++ field.toList }

/-- The message with one more enum at its end, if there is one to add. -/
def addEnum (message : Message) (enumeration : Option Enumeration) : Message :=
  { message with enums := message.enums ++ enumeration.toList }

/-- The message with one more nested message at its end, if there is one to add. -/
def addMessage (message : Message) (nested : Option Message) : Message :=
  { message with messages := message.messages ++ nested.toList }

/-- The message with one more oneof at its end, if there is one to add. -/
def addOneOf (message : Message) (oneof : Option OneOf) : Message :=
  { message with oneofs := message.oneofs ++ oneof.toList }

/-- The message with one more nested message or enum, whichever the declaration holds. -/
def addType (message : Message) : Option TypeDecl → Message
  | some (.message nested) => message.addMessage (some nested)
  | some (.enum enumeration) => message.addEnum (some enumeration)
  | none => message

/-- The earliest plain field of a name. Members of oneofs are not looked at. -/
def field? (message : Message) (name : String) : Option MessageField :=
  message.fields.find? (·.name == name)

/-- The earliest message of a name directly in the body. -/
def nestedMessage? (message : Message) (name : String) : Option Message :=
  message.messages.find? (·.name == name)

end Message

namespace TypeDecl

/-- The name of the message or enum that is declared. -/
def name : TypeDecl → String
  | message declared => declared.name
  | enum declared => declared.name

instance : DecidableEq TypeDecl
  | message left, message right =>
    if same : left = right then isTrue (by rw [same]) else isFalse (by simpa using same)
  | enum left, enum right =>
    if same : left = right then isTrue (by rw [same]) else isFalse (by simpa using same)
  | message _, enum _ => isFalse (by simp)
  | enum _, message _ => isFalse (by simp)

end TypeDecl

end ProtoSchema
