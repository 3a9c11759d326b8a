import ProtoSchema.Validation.Validate

/-!
# Traces

What printing and validating a file log, as data.
-/

namespace ProtoSchema

/-- How important an event is. -/
inductive Level
  | debug
  | trace
  deriving DecidableEq, Repr, Inhabited

/-- A detail of an event. -/
inductive Detail
  | text (content : String)
  | count (number : Nat)
  deriving DecidableEq, Repr, Inhabited

/-- One logged event. -/
structure Event where
  level : Level
  message : String
  details : List (String × Detail)
  deriving DecidableEq, Repr, Inhabited

/-- The event for one declaration at the top of a file. -/
def Event.rendering (what name : String) : Event :=
  ⟨.trace, "rendering " ++ what, [("name", .text name)]⟩

/-- What printing a file logs: the file first, then each declaration in the order of printing. -/
def File.printEvents (file : File) : List Event :=
  ⟨.debug, "rendering proto file",
    [("package", .text file.package.name),
      ("imports", .count file.imports.length),
      ("messages", .count file.messages.length),
      ("enums", .count file.enums.length),
      ("services", .count file.services.length)]⟩ ::
    (file.messages.map (fun message => .rendering "message" message.name) ++
      file.enums.map (fun enumeration => .rendering "enum" enumeration.name) ++
      file.services.map (fun service => .rendering "service" service.name))

/-- What validating a file logs. -/
def File.validationEvents (file : File) : List Event :=
  [⟨.debug, "validated proto file", [("problems", .count file.problems.length)]⟩]

end ProtoSchema
