/-!
# Types of fields

A field or a procedure refers to its type by name. The name is taken once, when the field is
built: a message that is renamed later leaves the fields built from it as they are.
-/

namespace ProtoSchema

/-- What can stand in the place of a type, with the name by which it is referred to. -/
class TypeNamed (α : Type) where
  typeName : α → String

instance : TypeNamed String := ⟨id⟩

/-- The scalar value types of the language. -/
inductive ScalarType
  | double
  | float
  | int32
  | int64
  | uint32
  | uint64
  | sint32
  | sint64
  | fixed32
  | fixed64
  | sfixed32
  | sfixed64
  | bool
  | string
  | bytes
  deriving DecidableEq, Repr, Inhabited

namespace ScalarType

/-- Every scalar type, in the order of their declaration. -/
def all : List ScalarType :=
  [double, float, int32, int64, uint32, uint64, sint32, sint64, fixed32, fixed64, sfixed32,
    sfixed64, bool, string, bytes]

/-- The keyword of a scalar type, by which fields refer to it. -/
def keyword : ScalarType → String
  | double => "double"
  | float => "float"
  | int32 => "int32"
  | int64 => "int64"
  | uint32 => "uint32"
  | uint64 => "uint64"
  | sint32 => "sint32"
  | sint64 => "sint64"
  | fixed32 => "fixed32"
  | fixed64 => "fixed64"
  | sfixed32 => "sfixed32"
  | sfixed64 => "sfixed64"
  | bool => "bool"
  | string => "string"
  | bytes => "bytes"

instance : TypeNamed ScalarType := ⟨keyword⟩

/-- The place of a scalar type in `all`. -/
def position (scalar : ScalarType) : Nat :=
  all.idxOf scalar

end ScalarType

end ProtoSchema
