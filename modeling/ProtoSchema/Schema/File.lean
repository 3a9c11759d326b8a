import ProtoSchema.Schema.Import
import ProtoSchema.Schema.Message
import ProtoSchema.Schema.Service

/-!
# Files

A file is the root of a schema. Its declarations are kept by category, each in the order in which
they were added, and adding nothing changes nothing. A lookup answers with the earliest declaration
of a name.
-/

namespace ProtoSchema

/-- A schema file: its head, and its declarations by category. -/
structure File where
  dialect : Dialect := .proto3
  package : Package := {}
  comment : Comment := {}
  imports : List Import := []
  options : List Setting := []
  messages : List Message := []
  enums : List Enumeration := []
  services : List Service := []
  deriving DecidableEq, Repr, Inhabited

namespace File

/-- The file with a comment in place of the one it has. -/
def withComment (file : File) (comment : Comment) : File :=
  { file with comment }

/-- The file with a package in place of the one it has. -/
def withPackage (file : File) (package : Package) : File :=
  { file with package }

/-- The file with one more import at its end, if there is one to add. -/
def addImport (file : File) (statement : Option Import) : File :=
  { file with imports := file.imports ++ statement.toList }

/-- The file with one more option at its end, if there is one to add. -/
def addOption (file : File) (option : Option Setting) : File :=
  { file with options := file.options ++ option.toList }

/-- The file with one more message at its end, if there is one to add. -/
def addMessage (file : File) (message : Option Message) : File :=
  { file with messages := file.messages ++ message.toList }

/-- The file with one more enum at its end, if there is one to add. -/
def addEnum (file : File) (enumeration : Option Enumeration) : File :=
  { file with enums := file.enums ++ enumeration.toList }

/-- The file with one more service at its end, if there is one to add. -/
def addService (file : File) (service : Option Service) : File :=
  { file with services := file.services ++ service.toList }

/-- The file with one more message or enum, whichever the declaration holds. -/
def addType (file : File) : Option TypeDecl → File
  | some (.message message) => file.addMessage (some message)
  | some (.enum enumeration) => file.addEnum (some enumeration)
  | none => file

/-- The earliest message of a name. Messages inside of others are not looked at. -/
def message? (file : File) (name : String) : Option Message :=
  file.messages.find? (·.name == name)

/-- The earliest enum of a name. Enums inside of messages are not looked at. -/
def enum? (file : File) (name : String) : Option Enumeration :=
  file.enums.find? (·.name == name)

/-- The earliest service of a name. -/
def service? (file : File) (name : String) : Option Service :=
  file.services.find? (·.name == name)

end File

end ProtoSchema
