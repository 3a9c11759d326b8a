import ProtoSchema.Schema.Comment
import ProtoSchema.Schema.ScalarType
import ProtoSchema.Schema.Setting

/-!
# Fields and oneofs

A message holds plain fields, which may be repeated, and oneofs, whose members are fields that are
never repeated. All of them share one namespace of names and field numbers.
-/

namespace ProtoSchema

/-- A plain field of a message. -/
structure MessageField where
  repeated : Bool := false
  typeName : String
  name : String
  index : UInt32
  options : List Setting := []
  comment : Comment := {}
  deriving DecidableEq, Repr, Inhabited

namespace MessageField

/-- A field that holds one value of a type. -/
def singular {τ : Type} [TypeNamed τ] (type : τ) (name : String) (index : UInt32) :
    MessageField where
  typeName := TypeNamed.typeName type
  name := name
  index := index

/-- A field that holds any number of values of a type. -/
def many {τ : Type} [TypeNamed τ] (type : τ) (name : String) (index : UInt32) : MessageField :=
  { singular type name index with repeated := true }

/-- The field with a comment in place of the one it has. -/
def withComment (field : MessageField) (comment : Comment) : MessageField :=
  { field with comment }

/-- The field with one more option at its end, if there is one to add. -/
def addOption (field : MessageField) (option : Option Setting) : MessageField :=
  { field with options := field.options ++ option.toList }

end MessageField

/-- A member of a oneof. It cannot be repeated, so nothing says whether it is. -/
structure OneOfField where
  typeName : String
  name : String
  index : UInt32
  comment : Comment := {}
  options : List Setting := []
  deriving DecidableEq, Repr, Inhabited

namespace OneOfField

/-- A member of a given type. -/
def ofType {τ : Type} [TypeNamed τ] (type : τ) (name : String) (index : UInt32) :
    OneOfField where
  typeName := TypeNamed.typeName type
  name := name
  index := index

/-- The member with a comment in place of the one it has. -/
def withComment (field : OneOfField) (comment : Comment) : OneOfField :=
  { field with comment }

/-- The member with one more option at its end, if there is one to add. -/
def addOption (field : OneOfField) (option : Option Setting) : OneOfField :=
  { field with options := field.options ++ option.toList }

end OneOfField

/-- A group of fields of which at most one is set. -/
structure OneOf where
  name : String
  comment : Comment := {}
  fields : List OneOfField := []
  deriving DecidableEq, Repr, Inhabited

namespace OneOf

/-- The oneof with a comment in place of the one it has. -/
def withComment (oneof : OneOf) (comment : Comment) : OneOf :=
  { oneof with comment }

/-- The oneof with one more member at its end, if there is one to add. -/
def addField (oneof : OneOf) (field : Option OneOfField) : OneOf :=
  { oneof with fields := oneof.fields ++ field.toList }

end OneOf

end ProtoSchema
