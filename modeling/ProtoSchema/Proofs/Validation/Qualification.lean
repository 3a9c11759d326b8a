import ProtoSchema.Proofs.Validation.Blame

/-!
# Qualified paths

Where a message stands shows in its problems only by the path that they carry: below a parent, the
path of the parent and a dot come before it, and nothing else differs. `Problem.below` says for each
kind of problem where it carries a path. In a name declared twice it stands between the quotes of
the scope.

The induction over nested messages needs the statement for a message that has a parent already,
since below the first level every message has one: `Message.problems_qualified`.
-/

namespace ProtoSchema

/-- A scope with the path of a parent before the path between its quotes. A scope without quotes has
no path. -/
def scopeBelow (parent scope : String) : String :=
  match scope.toList.dropWhile (· ≠ '\x27') with
  | [] => scope
  | quote :: path =>
    String.ofList (scope.toList.takeWhile (· ≠ '\x27') ++ quote :: (parent ++ ".").toList ++ path)

/-- A problem with the path of a parent before the path that it carries. -/
def Problem.below (parent : String) : Problem → Problem
  | duplicateFieldName message name => duplicateFieldName (parent ++ "." ++ message) name
  | duplicateFieldIndex message index => duplicateFieldIndex (parent ++ "." ++ message) index
  | invalidFieldIndex message field index =>
    invalidFieldIndex (parent ++ "." ++ message) field index
  | reservedFieldIndex message field index =>
    reservedFieldIndex (parent ++ "." ++ message) field index
  | duplicateEnumValue enumeration name => duplicateEnumValue (parent ++ "." ++ enumeration) name
  | emptyEnum name => emptyEnum (parent ++ "." ++ name)
  | firstEnumValueNotZero enumeration value index =>
    firstEnumValueNotZero (parent ++ "." ++ enumeration) value index
  | duplicateDeclaration scope name => duplicateDeclaration (scopeBelow parent scope) name
  -- Services are not declared in messages, and their problems carry no path.
  | duplicateRpcName service name => duplicateRpcName service name

theorem scopeBelow_message (parent path : String) :
    scopeBelow parent ("message '" ++ path ++ "'") =
      "message '" ++ (parent ++ "." ++ path) ++ "'" := by
  have scope_eq : ("message '" ++ path ++ "'").toList =
      ['m', 'e', 's', 's', 'a', 'g', 'e', ' '] ++ '\x27' :: (path.toList ++ ['\x27']) := by
    simp
  have kept : (("message '" ++ path ++ "'").toList.takeWhile (· ≠ '\x27')) =
      ['m', 'e', 's', 's', 'a', 'g', 'e', ' '] := by
    rw [scope_eq]
    simp
  have quoted : (("message '" ++ path ++ "'").toList.dropWhile (· ≠ '\x27')) =
      '\x27' :: (path.toList ++ ['\x27']) := by
    rw [scope_eq]
    simp
  rw [scopeBelow, quoted, kept]
  apply String.toList_injective
  simp

theorem map_below_indexProblems (parent message field : String) (index : UInt32) :
    (indexProblems message field index).map (Problem.below parent) =
      indexProblems (parent ++ "." ++ message) field index := by
  rw [indexProblems, indexProblems]
  split
  · rfl
  · split <;> rfl

theorem map_below_fieldProblems (parent message : String) (names : List String)
    (indexes : List UInt32) (fields : List (String × UInt32)) :
    (fieldProblems message names indexes fields).map (Problem.below parent) =
      fieldProblems (parent ++ "." ++ message) names indexes fields := by
  induction fields generalizing names indexes with
  | nil => rfl
  | cons field rest ih =>
      rcases field with ⟨name, index⟩
      have name_eq : (if name ∈ names then [Problem.duplicateFieldName message name] else []).map
          (Problem.below parent) =
            if name ∈ names then [.duplicateFieldName (parent ++ "." ++ message) name] else [] := by
        split <;> rfl
      have index_eq :
          (if index ∈ indexes then [Problem.duplicateFieldIndex message index] else []).map
            (Problem.below parent) =
              if index ∈ indexes then [.duplicateFieldIndex (parent ++ "." ++ message) index]
              else [] := by
        split <;> rfl
      rw [fieldProblems, fieldProblems, List.map_append, List.map_append, List.map_append, name_eq,
        index_eq, map_below_indexProblems, ih]

theorem map_below_declarationProblems (parent path : String) (names : List String) :
    (declarationProblems ("message '" ++ path ++ "'") names).map (Problem.below parent) =
      declarationProblems ("message '" ++ (parent ++ "." ++ path) ++ "'") names := by
  rw [declarationProblems, declarationProblems, List.map_map]
  apply List.map_congr_left
  intro name _
  simp only [Function.comp_apply, Problem.below, scopeBelow_message]

theorem Enumeration.map_below_problems (parent path : String) (enumeration : Enumeration) :
    (enumeration.problems path).map (Problem.below parent) =
      enumeration.problems (parent ++ "." ++ path) := by
  have values_eq : (enumeration.valueProblems path).map (Problem.below parent) =
      enumeration.valueProblems (parent ++ "." ++ path) := by
    rw [valueProblems, valueProblems]
    split
    · rfl
    · rw [List.map_map]
      rfl
  rw [problems, problems]
  split
  · rfl
  · rw [List.map_append, values_eq]
    split <;> rfl

/-- The path of a parent that may itself stand below another one. -/
def parentBelow (parent : String) : Option String → String
  | none => parent
  | some inner => parent ++ "." ++ inner

theorem pathBelow_parentBelow (parent : String) (inner : Option String) (name : String) :
    pathBelow (some (parentBelow parent inner)) name = parent ++ "." ++ pathBelow inner name := by
  cases inner with
  | none => rfl
  | some inner => simp only [pathBelow, parentBelow, String.append_assoc]

namespace Message

mutual

theorem problems_qualified (parent : String) (inner : Option String) (message : Message) :
    problems (some (parentBelow parent inner)) message =
      (problems inner message).map (Problem.below parent) := by
  rcases message with ⟨name, comment, fields, enums, messages, oneofs⟩
  -- The message stands at `parent ++ "." ++ path` now, and so does everything in its body.
  let path := pathBelow inner name
  have enums_eq : ∀ enumeration : Enumeration,
      (enumeration.problems (pathBelow (some path) enumeration.name)).map (Problem.below parent) =
        enumeration.problems (pathBelow (some (parent ++ "." ++ path)) enumeration.name) := by
    intro enumeration
    rw [Enumeration.map_below_problems, ← pathBelow_parentBelow]
    rfl
  have messages_eq : (problemsOfAll (some path) messages).map (Problem.below parent) =
      problemsOfAll (some (parent ++ "." ++ path)) messages :=
    (problemsOfAll_qualified parent (some path) messages).symm
  rw [problems, problems]
  simp only [pathBelow_parentBelow, List.map_append, List.map_flatMap, map_below_fieldProblems,
    map_below_declarationProblems, path, enums_eq, messages_eq]

theorem problemsOfAll_qualified (parent : String) (inner : Option String)
    (messages : List Message) :
    problemsOfAll (some (parentBelow parent inner)) messages =
      (problemsOfAll inner messages).map (Problem.below parent) := by
  cases messages with
  | nil => rfl
  | cons first rest =>
      rw [problemsOfAll, problemsOfAll, List.map_append, problems_qualified parent inner first,
        problemsOfAll_qualified parent inner rest]

end

/-- What is wrong with a message in the body of another one is among what is wrong with the messages
around it, in one piece. -/
theorem problems_infix_of_mem (parent : Option String) {messages : List Message}
    {message : Message} (message_mem : message ∈ messages) :
    message.problems parent <:+: messages.flatMap (problems parent) := by
  rw [List.flatMap_def]
  apply List.infix_of_mem_flatten
  exact List.mem_map_of_mem message_mem

mutual

theorem nested_infix_of_mem_walk (enclosing : List String) (message : Message)
    {path : List String} {host nested : Message} (reached : (path, host) ∈ walk enclosing message)
    (nested_mem : nested ∈ host.messages) :
    nested.problems (some (".".intercalate path)) <:+: message.problems (parentPath enclosing) := by
  have body_suffix : message.messages.flatMap (problems (parentPath (enclosing ++ [message.name])))
      <:+ message.problems (parentPath enclosing) := by
    rw [problems_eq, pathBelow_parentPath, ← parentPath_concat]
    exact List.suffix_append _ _
  rcases message with ⟨name, comment, fields, enums, messages, oneofs⟩
  rw [walk, List.mem_cons] at reached
  rcases reached with here | deeper
  · cases here
    rw [← parentPath_concat]
    exact (problems_infix_of_mem _ nested_mem).trans body_suffix.isInfix
  · have inside := nested_infix_of_mem_walkAll (enclosing ++ [name]) messages deeper nested_mem
    exact inside.trans body_suffix.isInfix

theorem nested_infix_of_mem_walkAll (enclosing : List String) (messages : List Message)
    {path : List String} {host nested : Message}
    (reached : (path, host) ∈ walkAll enclosing messages) (nested_mem : nested ∈ host.messages) :
    nested.problems (some (".".intercalate path)) <:+:
      messages.flatMap (problems (parentPath enclosing)) := by
  cases messages with
  | nil => cases reached
  | cons first rest =>
      rw [walkAll, List.mem_append] at reached
      rw [List.flatMap_cons]
      rcases reached with inFirst | inRest
      · have inside := nested_infix_of_mem_walk enclosing first inFirst nested_mem
        exact inside.trans (List.prefix_append _ _).isInfix
      · have inside := nested_infix_of_mem_walkAll enclosing rest inRest nested_mem
        exact inside.trans (List.suffix_append _ _).isInfix

end

end Message

/-- The problems of messages are reported one after the other. -/
theorem File.messageProblems_infix (file : File) :
    file.messages.flatMap (Message.problems none) <:+: file.reported := by
  rw [reported_eq_problems, problems, Message.problemsOfAll_eq_flatMap, List.append_assoc,
    List.append_assoc]
  exact List.infix_append' _ _ _

/-- Below a parent a message has the problems that it has at the top, in the same order, each with
the path of the parent before the path that it carries. So a message that is moved from the top of
a file into another message, at whatever depth, has its problems reported there as they were
before, up to that qualification. -/
theorem Message.problems_below :
    (∀ (parent : String) (message : Message),
      message.problems (some parent) =
        (message.problems none).map (Problem.below parent)) ∧
    (∀ (file : File) (message : Message), message ∈ file.messages →
      message.problems none <:+: file.reported) ∧
    (∀ (file : File) (path : List String) (host message : Message),
      (path, host) ∈ Message.walkAll [] file.messages → message ∈ host.messages →
        (message.problems none).map (Problem.below (".".intercalate path)) <:+:
          file.reported) := by
  have qualified : ∀ (parent : String) (message : Message),
      message.problems (some parent) = (message.problems none).map (Problem.below parent) := by
    intro parent message
    exact problems_qualified parent none message
  refine ⟨qualified, ?_, ?_⟩
  · intro file message message_mem
    exact (problems_infix_of_mem none message_mem).trans file.messageProblems_infix
  · intro file path host message reached message_mem
    rw [← qualified]
    have inside := nested_infix_of_mem_walkAll [] file.messages reached message_mem
    exact inside.trans file.messageProblems_infix

/-- A message with an empty enum, a name declared twice and a reserved number, at the top and two
levels further down. -/
theorem Message.problems_below_twice_nested :
    let message : Message :=
      { name := "Leaf", fields := [{ typeName := "bool", name := "on", index := 19000 }],
        enums := [{ name := "Kind" }], messages := [{ name := "Kind" }] }
    let host : Message := { name := "In.ner", messages := [message] }
    let file : File := { messages := [{ name := "", messages := [host] }] }
    ({ messages := [message] } : File).reported =
        [.reservedFieldIndex "Leaf" "on" 19000, .duplicateDeclaration "message 'Leaf'" "Kind",
          .emptyEnum "Leaf.Kind"] ∧
      [.reservedFieldIndex ".In.ner.Leaf" "on" 19000,
        .duplicateDeclaration "message '.In.ner.Leaf'" "Kind",
        .emptyEnum ".In.ner.Leaf.Kind"] <:+: file.reported := by
  intro message host file
  have reached : (["", "In.ner"], host) ∈ Message.walkAll [] file.messages := by decide +kernel
  have message_mem : message ∈ host.messages := List.mem_singleton_self message
  have moved := problems_below.2.2 file ["", "In.ner"] host message reached message_mem
  refine ⟨by decide +kernel, ?_⟩
  have qualified : (message.problems none).map (Problem.below (".".intercalate ["", "In.ner"])) =
      [.reservedFieldIndex ".In.ner.Leaf" "on" 19000,
        .duplicateDeclaration "message '.In.ner.Leaf'" "Kind",
        .emptyEnum ".In.ner.Leaf.Kind"] := by decide +kernel
  rw [qualified] at moved
  exact moved

end ProtoSchema
