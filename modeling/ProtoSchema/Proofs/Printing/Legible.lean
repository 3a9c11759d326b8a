import ProtoSchema.Schema.File

/-!
# Legible schemas

Names and texts go into the printed form as they are, so a schema can be read back from it only if
they keep to what the form leaves to them. A legible schema does: its names are identifiers, its
types and its package are sequences of identifiers with dots between them, and the texts of its
comments, options and imports stay clear of the characters that end them. In an enum, where options
and values look the same up to the equality sign, an option must not go on like a number.

Everything here can be computed. For reading, little of it matters: that names are words, which are
not empty and hold none of the characters that may follow them.
-/

namespace ProtoSchema

namespace Text

/-- An identifier starts with a letter or an underscore and goes on with these or digits. -/
def isIdentifier : List Char → Bool
  | [] => false
  | first :: rest =>
    (first.isAlpha || first == '_') && rest.all fun char => char.isAlphanum || char == '_'

/-- Identifiers with dots between them. -/
def isQualified (name : List Char) : Bool :=
  (name.splitOn '.').all isIdentifier

/-- Not empty, and made of certain characters. -/
structure IsWord (isChar : Char → Bool) (text : List Char) : Prop where
  nonempty : text ≠ []
  chars : ∀ char ∈ text, isChar char = true

theorem IsWord.notMem {isChar : Char → Bool} {text : List Char} (word : IsWord isChar text)
    {char : Char} (foreign : isChar char = false) : char ∉ text := by
  intro char_mem
  rw [word.chars char char_mem] at foreign
  cases foreign

/-- A text that starts with a word does not start with anything else. -/
theorem IsWord.head?_append_ne {isChar : Char → Bool} {text : List Char}
    (word : IsWord isChar text) {char : Char} (foreign : isChar char = false) (rest : List Char) :
    (text ++ rest).head? ≠ some char := by
  cases text with
  | nil => exact absurd rfl word.nonempty
  | cons first more =>
      intro head_eq
      have first_eq : first = char := Option.some.inj head_eq
      exact word.notMem foreign (by simp [first_eq])

/-- The characters of names other than those of options: letters, digits, the underscore, and the
dot between identifiers. -/
def isNameChar (char : Char) : Bool :=
  char.isAlphanum || char == '_' || char == '.'

theorem isWord_of_isIdentifier {name : List Char} (identifier : isIdentifier name = true) :
    IsWord isNameChar name := by
  cases name with
  | nil => cases identifier
  | cons first rest =>
      simp only [isIdentifier, Bool.and_eq_true, Bool.or_eq_true, List.all_eq_true] at identifier
      refine ⟨List.cons_ne_nil first rest, ?_⟩
      simp only [isNameChar, Bool.or_eq_true, List.forall_mem_cons]
      refine ⟨Or.inl (identifier.1.imp_left ?_), ?_⟩
      · intro letter
        simp [Char.isAlphanum, letter]
      · intro char char_mem
        exact Or.inl (identifier.2 char char_mem)

/-- Every character of a text is a separator or stands in one of the parts between them. -/
theorem mem_splitOn_of_mem (separator : Char) {char : Char} {content : List Char}
    (char_mem : char ∈ content) :
    char = separator ∨ ∃ part ∈ content.splitOn separator, char ∈ part := by
  induction content with
  | nil => cases char_mem
  | cons first content ih =>
      rw [List.splitOn_cons_eq_if_modifyHead]
      by_cases first_eq : first = separator
      · rcases List.mem_cons.mp char_mem with rfl | char_mem
        · exact Or.inl first_eq
        · rcases ih char_mem with char_eq | ⟨part, part_mem, char_mem⟩
          · exact Or.inl char_eq
          · exact Or.inr ⟨part, by simp [first_eq, part_mem], char_mem⟩
      · cases parts_eq : content.splitOn separator with
        | nil => exact absurd parts_eq (List.splitOn_ne_nil separator content)
        | cons part parts =>
            rw [parts_eq] at ih
            simp only [beq_iff_eq, first_eq, if_false, List.modifyHead_cons]
            rcases List.mem_cons.mp char_mem with rfl | char_mem
            · exact Or.inr ⟨char :: part, List.mem_cons_self, List.mem_cons_self⟩
            · rcases ih char_mem with char_eq | ⟨other, other_mem, char_mem⟩
              · exact Or.inl char_eq
              · rcases List.mem_cons.mp other_mem with rfl | other_mem
                · exact Or.inr ⟨first :: other, List.mem_cons_self, List.mem_cons_of_mem _ char_mem⟩
                · exact Or.inr ⟨other, List.mem_cons_of_mem _ other_mem, char_mem⟩

theorem isWord_of_isQualified {name : List Char} (qualified : isQualified name = true) :
    IsWord isNameChar name := by
  rw [isQualified, List.all_eq_true] at qualified
  constructor
  · rintro rfl
    exact absurd (qualified [] List.mem_cons_self) (by decide)
  · intro char char_mem
    rcases mem_splitOn_of_mem '.' char_mem with rfl | ⟨part, part_mem, char_mem⟩
    · decide
    · exact (isWord_of_isIdentifier (qualified part part_mem)).chars char char_mem

end Text

/-- No line of a comment holds a newline. -/
def Comment.legible (comment : Comment) : Bool :=
  comment.lines.all fun line => !line.toList.contains '\n'

/-- The characters of option names: letters, digits and four signs. Everything outside of ASCII is
taken for a letter. -/
def Setting.isNameChar (char : Char) : Bool :=
  char.isAlphanum || 127 < char.toNat || ['_', '.', '(', ')'].contains char

/-- The value of an option ends where a list or a statement goes on. -/
def Setting.legible (setting : Setting) : Bool :=
  setting.name != "" && setting.name.toList.all isNameChar &&
    setting.value.toList.all fun char => !(['\n', ',', ';', '[', ']'].contains char)

/-- The type of a field is named by identifiers with dots between them and the field itself by one,
and its options and its comment are legible. -/
def MessageField.legible (field : MessageField) : Bool :=
  Text.isQualified field.typeName.toList && Text.isIdentifier field.name.toList &&
    field.options.all Setting.legible && field.comment.legible

/-- A member of a oneof keeps to the same rules as a field. -/
def OneOfField.legible (field : OneOfField) : Bool :=
  Text.isQualified field.typeName.toList && Text.isIdentifier field.name.toList &&
    field.options.all Setting.legible && field.comment.legible

/-- The name of a oneof is an identifier, and its comment and its members are legible. -/
def OneOf.legible (oneof : OneOf) : Bool :=
  Text.isIdentifier oneof.name.toList && oneof.comment.legible &&
    oneof.fields.all OneOfField.legible

/-- The name of a value is an identifier, and its options and its comment are legible. Its number
always is. -/
def EnumValue.legible (value : EnumValue) : Bool :=
  Text.isIdentifier value.name.toList && value.options.all Setting.legible && value.comment.legible

/-- A text that does not start like a number. -/
def Text.startsNoNumber (text : List Char) : Bool :=
  text.head?.all fun char => !char.isDigit && char != '-'

/-- An enum is legible if its parts are and no option goes on like a number: its options are printed
like values. -/
def Enumeration.legible (enumeration : Enumeration) : Bool :=
  Text.isIdentifier enumeration.name.toList && enumeration.comment.legible &&
    (enumeration.options.all fun setting =>
      setting.legible && Text.startsNoNumber setting.value.toList) &&
    enumeration.values.all EnumValue.legible

mutual

/-- The name of a message is an identifier, and its comment and everything in its body are legible,
nested messages included. -/
def Message.legible : Message → Bool
  | ⟨name, comment, fields, enums, messages, oneofs⟩ =>
    Text.isIdentifier name.toList && comment.legible && fields.all MessageField.legible &&
      enums.all Enumeration.legible && Message.allLegible messages && oneofs.all OneOf.legible

/-- All messages of a list are legible. -/
def Message.allLegible : List Message → Bool
  | [] => true
  | first :: rest => first.legible && Message.allLegible rest

end

theorem Message.allLegible_iff {messages : List Message} :
    Message.allLegible messages = true ↔ ∀ message ∈ messages, message.legible = true := by
  induction messages with
  | nil => simp [Message.allLegible]
  | cons first rest ih => simp [Message.allLegible, ih]

/-- The type of a procedure is named by identifiers with dots between them. -/
def ReturnType.legible (type : ReturnType) : Bool :=
  Text.isQualified type.name.toList

/-- The name of a procedure is an identifier, and its comment and its types are legible. -/
def Rpc.legible (rpc : Rpc) : Bool :=
  Text.isIdentifier rpc.name.toList && rpc.comment.legible && rpc.input.legible &&
    rpc.output.legible

/-- The name of a service is an identifier, and its comment, options and procedures are legible. -/
def Service.legible (service : Service) : Bool :=
  Text.isIdentifier service.name.toList && service.comment.legible &&
    service.options.all Setting.legible && service.rpcs.all Rpc.legible

/-- The path of an import does not hold what ends it. -/
def Import.legible (statement : Import) : Bool :=
  statement.path.toList.all fun char => char != '"' && char != '\n'

/-- A package has no name, or one made of identifiers with dots between them. -/
def Package.legible (package : Package) : Bool :=
  package.name == "" || Text.isQualified package.name.toList

/-- A file is legible if all its parts are. -/
def File.legible (file : File) : Bool :=
  file.package.legible && file.comment.legible && file.imports.all Import.legible &&
    file.options.all Setting.legible && Message.allLegible file.messages &&
    file.enums.all Enumeration.legible && file.services.all Service.legible

end ProtoSchema
