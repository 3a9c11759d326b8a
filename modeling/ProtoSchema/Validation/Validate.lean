import ProtoSchema.Schema.File
import ProtoSchema.Validation.Problem
import ProtoSchema.Validation.Repeats

/-!
# Validation

`File.problems` lists all problems of a file in the order of one walk: names declared twice at the
top, then the messages with everything below them, then the enums, then the services. Inside a
message come its fields and the members of its oneofs, which share one namespace, then names
declared twice in its body, then its enums, then its nested messages.
-/

namespace ProtoSchema

/-- The path of a declaration below its parent. -/
def pathBelow (parent : Option String) (name : String) : String :=
  match parent with
  | some parent => parent ++ "." ++ name
  | none => name

/-- What is wrong with a field number by itself. -/
def indexProblems (message field : String) (index : UInt32) : List Problem :=
  if index = 0 ∨ maxFieldIndex < index then
    [.invalidFieldIndex message field index]
  else if reservedStart ≤ index ∧ index ≤ reservedEnd then
    [.reservedFieldIndex message field index]
  else
    []

/-- What is wrong with the fields of a message, given as names and numbers, after those already
seen. -/
def fieldProblems (message : String) (names : List String) (indexes : List UInt32) :
    List (String × UInt32) → List Problem
  | [] => []
  | (name, index) :: rest =>
    (if name ∈ names then [.duplicateFieldName message name] else []) ++
      (if index ∈ indexes then [.duplicateFieldIndex message index] else []) ++
      indexProblems message name index ++
      -- A name or number that repeats is remembered again, which changes nothing.
      fieldProblems message (name :: names) (index :: indexes) rest

/-- The names declared more than once in a scope. -/
def declarationProblems (scope : String) (names : List String) : List Problem :=
  (repeats names).map (.duplicateDeclaration scope)

namespace Enumeration

/-- The names that values of an enum share with an earlier value. There are none if there are as
many distinct names as values. -/
def valueProblems (enumeration : Enumeration) (path : String) : List Problem :=
  if enumeration.valueNames.length = enumeration.values.length then
    []
  else
    (repeats (enumeration.values.map EnumValue.name)).map (.duplicateEnumValue path)

/-- What is wrong with an enum. -/
def problems (enumeration : Enumeration) (path : String) : List Problem :=
  match enumeration.values with
  | [] => [.emptyEnum path]
  | first :: _ =>
    (if first.index = 0 then [] else [.firstEnumValueNotZero path first.name first.index]) ++
      enumeration.valueProblems path

end Enumeration

namespace Message

/-- The names and numbers of all fields of a message, those of its oneofs last. -/
def fieldNumbers (fields : List MessageField) (oneofs : List OneOf) : List (String × UInt32) :=
  fields.map (fun field => (field.name, field.index)) ++
    oneofs.flatMap fun oneof => oneof.fields.map fun field => (field.name, field.index)

mutual

/-- What is wrong with a message below its parent, and with everything in its body. -/
def problems (parent : Option String) : Message → List Problem
  | ⟨name, _, fields, enums, messages, oneofs⟩ =>
    let path := pathBelow parent name
    fieldProblems path [] [] (fieldNumbers fields oneofs) ++
      declarationProblems ("message '" ++ path ++ "'")
        (messages.map Message.name ++ enums.map Enumeration.name ++ oneofs.map OneOf.name) ++
      enums.flatMap (fun enumeration =>
        enumeration.problems (pathBelow (some path) enumeration.name)) ++
      problemsOfAll (some path) messages

/-- What is wrong with messages below one parent. -/
def problemsOfAll (parent : Option String) : List Message → List Problem
  | [] => []
  | first :: rest => problems parent first ++ problemsOfAll parent rest

end

theorem problemsOfAll_eq_flatMap (parent : Option String) (messages : List Message) :
    problemsOfAll parent messages = messages.flatMap (problems parent) := by
  induction messages with
  | nil => rfl
  | cons first rest ih => rw [problemsOfAll, List.flatMap_cons, ih]

/-- The four parts of what is wrong with a message. -/
theorem problems_eq (parent : Option String) (message : Message) :
    problems parent message =
      fieldProblems (pathBelow parent message.name) [] []
          (fieldNumbers message.fields message.oneofs) ++
        declarationProblems ("message '" ++ pathBelow parent message.name ++ "'")
          (message.messages.map Message.name ++ message.enums.map Enumeration.name ++
            message.oneofs.map OneOf.name) ++
        message.enums.flatMap (fun enumeration => enumeration.problems
          (pathBelow (some (pathBelow parent message.name)) enumeration.name)) ++
        message.messages.flatMap (problems (some (pathBelow parent message.name))) := by
  cases message
  rw [problems, problemsOfAll_eq_flatMap]

end Message

/-- What is wrong with a service. -/
def Service.problems (service : Service) : List Problem :=
  (repeats (service.rpcs.map Rpc.name)).map (.duplicateRpcName service.name)

namespace File

/-- The scope of the declarations at the top of a file. -/
def scope (file : File) : String :=
  if file.package.isEmpty then "file" else "package '" ++ file.package.name ++ "'"

/-- Everything that is wrong with a file. -/
def problems (file : File) : List Problem :=
  declarationProblems file.scope
      (file.messages.map Message.name ++ file.enums.map Enumeration.name ++
        file.services.map Service.name) ++
    Message.problemsOfAll none file.messages ++
    file.enums.flatMap (fun enumeration => enumeration.problems enumeration.name) ++
    file.services.flatMap Service.problems

/-- Accepts a file without problems, and otherwise answers with all of them. -/
def validate (file : File) : Except (List Problem) Unit :=
  match file.problems with
  | [] => .ok ()
  | problems => .error problems

end File

end ProtoSchema
