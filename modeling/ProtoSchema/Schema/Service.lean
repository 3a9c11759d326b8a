import ProtoSchema.Schema.Comment
import ProtoSchema.Schema.ScalarType
import ProtoSchema.Schema.Setting

/-!
# Services

A service is a list of procedures. What a procedure takes and returns is a type name that may be
marked as a stream.
-/

namespace ProtoSchema

/-- What a procedure takes or returns. -/
structure ReturnType where
  name : String
  streamed : Bool := false
  deriving DecidableEq, Repr, Inhabited

namespace ReturnType

/-- A single value of a type, or a stream of them. -/
def ofType {τ : Type} [TypeNamed τ] (type : τ) (streamed : Bool) : ReturnType :=
  ⟨TypeNamed.typeName type, streamed⟩

/-- A single value of a type. -/
def unary {τ : Type} [TypeNamed τ] (type : τ) : ReturnType :=
  ofType type false

/-- A stream of values of a type. -/
def stream {τ : Type} [TypeNamed τ] (type : τ) : ReturnType :=
  ofType type true

end ReturnType

/-- A procedure of a service. -/
structure Rpc where
  name : String
  comment : Comment := {}
  input : ReturnType
  output : ReturnType
  deriving DecidableEq, Repr, Inhabited

/-- The procedure with a comment in place of the one it has. -/
def Rpc.withComment (rpc : Rpc) (comment : Comment) : Rpc :=
  { rpc with comment }

/-- A service, whose options stand before its procedures. -/
structure Service where
  name : String
  comment : Comment := {}
  options : List Setting := []
  rpcs : List Rpc := []
  deriving DecidableEq, Repr, Inhabited

namespace Service

/-- The service with a comment in place of the one it has. -/
def withComment (service : Service) (comment : Comment) : Service :=
  { service with comment }

/-- The service with one more option at its end, if there is one to add. -/
def addOption (service : Service) (option : Option Setting) : Service :=
  { service with options := service.options ++ option.toList }

/-- The service with one more procedure at its end, if there is one to add. -/
def addRpc (service : Service) (rpc : Option Rpc) : Service :=
  { service with rpcs := service.rpcs ++ rpc.toList }

/-- The earliest procedure of a name. -/
def rpc? (service : Service) (name : String) : Option Rpc :=
  service.rpcs.find? (·.name == name)

end Service

end ProtoSchema
