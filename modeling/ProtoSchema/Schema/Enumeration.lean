import ProtoSchema.Schema.Comment
import ProtoSchema.Schema.ScalarType
import ProtoSchema.Schema.Setting

/-!
# Enums

An enum is a list of named numbers in the order in which they were added. Names may repeat;
`Enumeration.valueNames` has each of them once.
-/

namespace ProtoSchema

/-- A name for a number, which may be negative. -/
structure EnumValue where
  name : String
  index : Int32
  options : List Setting := []
  comment : Comment := {}
  deriving DecidableEq, Repr, Inhabited

namespace EnumValue

/-- The value with a comment in place of the one it has. -/
def withComment (value : EnumValue) (comment : Comment) : EnumValue :=
  { value with comment }

/-- The value with one more option at its end, if there is one to add. -/
def addOption (value : EnumValue) (option : Option Setting) : EnumValue :=
  { value with options := value.options ++ option.toList }

end EnumValue

/-- An enum, whose options stand before its values. -/
structure Enumeration where
  name : String
  options : List Setting := []
  values : List EnumValue := []
  comment : Comment := {}
  deriving DecidableEq, Repr, Inhabited

namespace Enumeration

instance : TypeNamed Enumeration := ⟨Enumeration.name⟩

/-- The enum with a comment in place of the one it has. -/
def withComment (enumeration : Enumeration) (comment : Comment) : Enumeration :=
  { enumeration with comment }

/-- The enum with one more value at its end, if there is one to add. -/
def addValue (enumeration : Enumeration) (value : Option EnumValue) : Enumeration :=
  { enumeration with values := enumeration.values ++ value.toList }

/-- The enum with one more option at its end, if there is one to add. -/
def addOption (enumeration : Enumeration) (option : Option Setting) : Enumeration :=
  { enumeration with options := enumeration.options ++ option.toList }

/-- The names of the values, each once. -/
def valueNames (enumeration : Enumeration) : List String :=
  enumeration.values.foldr (fun value names => names.insert value.name) []

end Enumeration

end ProtoSchema
