/-!
# Problems

What validation finds. A message or an enum inside a message is named by its path: the names of the
enclosing messages and its own, with dots between them.
-/

namespace ProtoSchema

/-- The greatest field number. -/
def maxFieldIndex : UInt32 := 536870911

/-- The first field number of the reserved range. -/
def reservedStart : UInt32 := 19000

/-- The last field number of the reserved range. -/
def reservedEnd : UInt32 := 19999

/-- A rule of the language that a schema breaks. -/
inductive Problem
  /-- Two fields of a message share a name. -/
  | duplicateFieldName (message name : String)
  /-- Two fields of a message share a field number. -/
  | duplicateFieldIndex (message : String) (index : UInt32)
  /-- A field number is zero or too great. -/
  | invalidFieldIndex (message field : String) (index : UInt32)
  /-- A field number lies in the reserved range. -/
  | reservedFieldIndex (message field : String) (index : UInt32)
  /-- Two values of an enum share a name. -/
  | duplicateEnumValue (enumeration name : String)
  /-- An enum has no value. -/
  | emptyEnum (name : String)
  /-- The first value of an enum is not zero. -/
  | firstEnumValueNotZero (enumeration value : String) (index : Int32)
  /-- Two declarations of a scope share a name. -/
  | duplicateDeclaration (scope name : String)
  /-- Two procedures of a service share a name. -/
  | duplicateRpcName (service name : String)
  deriving DecidableEq, Repr, Inhabited

/-- The text of a problem. Names are quoted, and declarations are named by their paths. -/
def Problem.message : Problem → String
  | duplicateFieldName message name =>
    "duplicate field name '" ++ name ++ "' in message '" ++ message ++ "'"
  | duplicateFieldIndex message index =>
    "duplicate field number " ++ Nat.repr index.toNat ++ " in message '" ++ message ++ "'"
  | invalidFieldIndex message field index =>
    "invalid field number " ++ Nat.repr index.toNat ++ " for '" ++ message ++ "." ++ field ++
      "': must be in 1..=" ++ Nat.repr maxFieldIndex.toNat
  | reservedFieldIndex message field index =>
    "reserved field number " ++ Nat.repr index.toNat ++ " for '" ++ message ++ "." ++ field ++
      "': 19000..=19999 is reserved"
  | duplicateEnumValue enumeration name =>
    "duplicate enum value '" ++ name ++ "' in enum '" ++ enumeration ++ "'"
  | emptyEnum name => "enum '" ++ name ++ "' must declare at least one value"
  | firstEnumValueNotZero enumeration value index =>
    "first value '" ++ value ++ "' of enum '" ++ enumeration ++ "' is " ++
      Int.repr index.toInt ++ ": proto3 enums must start at 0"
  | duplicateDeclaration scope name => "duplicate declaration '" ++ name ++ "' in " ++ scope
  | duplicateRpcName service name =>
    "duplicate rpc '" ++ name ++ "' in service '" ++ service ++ "'"

end ProtoSchema
