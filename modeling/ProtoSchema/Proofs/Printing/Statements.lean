import ProtoSchema.Proofs.Printing.Lines

/-!
# Reading statements back

The parts of a schema that are printed on one line below their comment: options, fields, enum
values, procedures, imports and the package. For each of them it is shown which lines it is printed
as if it is legible, and that these lines tell it from any other. A line is taken apart at its
blanks and brackets, none of which occurs in a name.
-/

namespace ProtoSchema

open Text

/-- A text that starts with a word can stand below a comment. -/
theorem Text.IsWord.stands_append {isChar : Char → Bool} {text : List Char}
    (word : IsWord isChar text) (noBlank : isChar ' ' = false) (noSlash : isChar '/' = false)
    (rest : List Char) : Item.Stands (text ++ rest) :=
  ⟨word.head?_append_ne noBlank rest, word.head?_append_ne noSlash rest⟩

/-- A line ends like a statement. -/
def Text.IsStatement (body : List Char) : Prop :=
  body.getLast? = some ';'

theorem Text.IsStatement.append {body : List Char} (statement : IsStatement body)
    (before : List Char) : IsStatement (before ++ body) := by
  rw [IsStatement, List.getLast?_append, statement, Option.some_or]

/-- A line is a setting: an equality sign stands between its first word and a value of a certain
form. -/
def Text.IsSetting (form : List Char → Prop) (body : List Char) : Prop :=
  ∃ name value, ' ' ∉ name ∧ form value ∧ body = name ++ ' ' :: '=' :: ' ' :: value

/-- A line goes on behind a word, but not with an equality sign. -/
def Text.IsKeyword (word body : List Char) : Prop :=
  ∃ char more, char ≠ '=' ∧ body = word ++ ' ' :: char :: more

theorem Text.not_isKeyword_nil (word : List Char) : ¬IsKeyword word [] := by
  simp [IsKeyword]

namespace Setting

variable {setting setting' : Setting} {settings settings' : List Setting}

theorem name_isWord (legible : setting.legible = true) :
    IsWord Setting.isNameChar setting.name.toList := by
  simp only [Setting.legible, Bool.and_eq_true, bne_iff_ne, List.all_eq_true] at legible
  exact ⟨by simpa using legible.1.1, legible.1.2⟩

theorem toList_flat (setting : Setting) :
    setting.flat.toList = setting.name.toList ++ ' ' :: '=' :: ' ' :: setting.value.toList := by
  simp [Setting.flat]

/-- What ends a setting does not occur in it. -/
theorem notMem_flat (legible : setting.legible = true) {char : Char}
    (char_mem : char ∈ ['\n', ',', ';', '[', ']']) : char ∉ setting.flat.toList := by
  have foreign : ∀ char ∈ ['\n', ',', ';', '[', ']'],
      Setting.isNameChar char = false ∧ char ≠ ' ' ∧ char ≠ '=' := by simp [Setting.isNameChar]
  rcases foreign char char_mem with ⟨notName, notBlank, notEqual⟩
  have notValue : char ∉ setting.value.toList := by
    simp only [Setting.legible, Bool.and_eq_true, List.all_eq_true] at legible
    intro value_mem
    simpa [char_mem] using legible.2 char value_mem
  simp [toList_flat, (name_isWord legible).notMem notName, notBlank, notEqual, notValue]

theorem flat_injective (legible : setting.legible = true) (legible' : setting'.legible = true)
    (flat_eq : setting.flat.toList = setting'.flat.toList) : setting = setting' := by
  rw [toList_flat, toList_flat] at flat_eq
  rcases split_unique ((name_isWord legible).notMem (by decide))
    ((name_isWord legible').notMem (by decide)) flat_eq with ⟨name_eq, rest_eq⟩
  simp only [List.cons.injEq, true_and] at rest_eq
  cases setting
  cases setting'
  rw [Setting.mk.injEq]
  exact ⟨String.toList_inj.mp name_eq, String.toList_inj.mp rest_eq⟩

/-- The entries of an option list without its brackets. -/
def entries (settings : List Setting) : List Char :=
  [',', ' '].intercalate (settings.map fun setting => setting.flat.toList)

theorem entries_cons (setting next : Setting) (others : List Setting) :
    entries (setting :: next :: others) =
      setting.flat.toList ++ ',' :: ' ' :: entries (next :: others) := by
  simp [entries]

theorem toList_flatList (settings : List Setting) :
    (flatList settings).toList =
      if settings = [] then [] else ' ' :: '[' :: (entries settings ++ [']']) := by
  cases settings <;> simp [flatList, entries, Function.comp_def]

/-- A list of settings is taken apart at its commas. -/
theorem entries_injective (legible : ∀ setting ∈ settings, setting.legible = true)
    (legible' : ∀ setting ∈ settings', setting.legible = true) (nonempty : settings ≠ [])
    (nonempty' : settings' ≠ []) (entries_eq : entries settings = entries settings') :
    settings = settings' := by
  induction settings generalizing settings' with
  | nil => exact absurd rfl nonempty
  | cons setting others ih =>
      cases settings' with
      | nil => exact absurd rfl nonempty'
      | cons setting' others' =>
          rw [List.forall_mem_cons] at legible legible'
          have absent : ',' ∉ setting.flat.toList := notMem_flat legible.1 (by decide)
          have absent' : ',' ∉ setting'.flat.toList := notMem_flat legible'.1 (by decide)
          rcases others with _ | ⟨next, others⟩ <;> rcases others' with _ | ⟨next', others'⟩
          · rw [flat_injective legible.1 legible'.1 (by simpa [entries] using entries_eq)]
          · rw [entries_cons] at entries_eq
            rw [show setting.flat.toList = entries [setting] by simp [entries],
              entries_eq] at absent
            simp at absent
          · rw [entries_cons] at entries_eq
            rw [show setting'.flat.toList = entries [setting'] by simp [entries],
              ← entries_eq] at absent'
            simp at absent'
          · rw [entries_cons, entries_cons] at entries_eq
            rcases split_unique absent absent' entries_eq with ⟨flat_eq, rest_eq⟩
            rw [flat_injective legible.1 legible'.1 flat_eq, ih legible.2 legible'.2
              (List.cons_ne_nil _ _) (List.cons_ne_nil _ _) (List.cons.inj rest_eq).2]

theorem newline_notMem_flatList (legible : ∀ setting ∈ settings, setting.legible = true) :
    '\n' ∉ (flatList settings).toList := by
  have entries_whole : '\n' ∉ entries settings := by
    induction settings with
    | nil => simp [entries]
    | cons setting others ih =>
        rw [List.forall_mem_cons] at legible
        have whole : '\n' ∉ setting.flat.toList := notMem_flat legible.1 (by decide)
        cases others with
        | nil => simpa [entries] using whole
        | cons next others => simpa [entries_cons, whole] using ih legible.2
  rw [toList_flatList]
  split
  · simp
  · simpa using entries_whole

end Setting

/-- A number behind a name, and what stands behind the number up to the end of the statement. -/
def Text.assigned (name number : List Char) (options : List Setting) : List Char :=
  name ++ ' ' :: '=' :: ' ' :: (number ++ ((Setting.flatList options).toList ++ [';']))

section

variable {name name' number number' : List Char} {options options' : List Setting}

/-- A number ends at the blank before a list, or at the end of the statement. -/
theorem Text.number_unique (absent : ' ' ∉ number) (absent' : ' ' ∉ number')
    (legible : ∀ setting ∈ options, setting.legible = true)
    (legible' : ∀ setting ∈ options', setting.legible = true)
    (text_eq : number ++ ((Setting.flatList options).toList ++ [';']) =
      number' ++ ((Setting.flatList options').toList ++ [';'])) :
    number = number' ∧ options = options' := by
  rw [Setting.toList_flatList, Setting.toList_flatList] at text_eq
  by_cases none : options = [] <;> by_cases none' : options' = []
  · simp only [none, none', if_true, List.nil_append] at text_eq
    exact ⟨List.append_cancel_right text_eq, by rw [none, none']⟩
  · simp only [none, none', if_true, if_false, List.nil_append] at text_eq
    have blank_mem := congrArg (' ' ∈ ·) text_eq
    simp [absent] at blank_mem
  · simp only [none, none', if_true, if_false, List.nil_append] at text_eq
    have blank_mem := congrArg (' ' ∈ ·) text_eq
    simp [absent'] at blank_mem
  · simp only [none, none', if_false, List.cons_append] at text_eq
    rcases split_unique absent absent' text_eq with ⟨number_eq, rest_eq⟩
    have entries_eq : Setting.entries options = Setting.entries options' := by
      simpa using rest_eq
    exact ⟨number_eq, Setting.entries_injective legible legible' none none' entries_eq⟩

theorem Text.assigned_unique (name_absent : ' ' ∉ name) (name_absent' : ' ' ∉ name')
    (absent : ' ' ∉ number) (absent' : ' ' ∉ number')
    (legible : ∀ setting ∈ options, setting.legible = true)
    (legible' : ∀ setting ∈ options', setting.legible = true)
    (text_eq : assigned name number options = assigned name' number' options') :
    name = name' ∧ number = number' ∧ options = options' := by
  rcases split_unique name_absent name_absent' text_eq with ⟨name_eq, rest_eq⟩
  simp only [List.cons.injEq, true_and] at rest_eq
  exact ⟨name_eq, number_unique absent absent' legible legible' rest_eq⟩

theorem Text.isStatement_assigned (name number : List Char) (options : List Setting) :
    IsStatement (assigned name number options) := by
  simp [IsStatement, assigned, List.getLast?_append, List.getLast?_cons]

theorem Text.newline_notMem_assigned (name_whole : '\n' ∉ name) (number_whole : '\n' ∉ number)
    (legible : ∀ setting ∈ options, setting.legible = true) :
    '\n' ∉ assigned name number options := by
  simp [assigned, name_whole, number_whole, Setting.newline_notMem_flatList legible]

end

namespace Setting

/-- A setting as a statement. -/
def body (setting : Setting) : List Char :=
  setting.flat.toList ++ [';']

theorem lines_item {setting : Setting} (legible : setting.legible = true) (width depth : Nat) :
    (setting.item depth).lines width =
      Item.commented (Item.pad width depth) {} setting.body := by
  apply Item.lines_commented
  · simp [Setting.item, body, Comment.flat]
  · rfl
  · simp [body]
  · simpa [body] using notMem_flat legible (by decide)

theorem body_stands {setting : Setting} (legible : setting.legible = true) :
    Item.Stands setting.body := by
  rw [body, toList_flat, List.append_assoc]
  exact (name_isWord legible).stands_append (by decide) (by decide) _

theorem isSetting_body {setting : Setting} (legible : setting.legible = true)
    {form : List Char → Prop} (value_form : form (setting.value.toList ++ [';'])) :
    IsSetting form setting.body := by
  refine ⟨setting.name.toList, _, (name_isWord legible).notMem (by decide), value_form, ?_⟩
  simp [body, toList_flat]

theorem not_isKeyword_body {setting : Setting} (legible : setting.legible = true)
    {word : List Char} (absent : ' ' ∉ word) : ¬IsKeyword word setting.body := by
  rintro ⟨char, more, char_ne, body_eq⟩
  rw [body, toList_flat, List.append_assoc] at body_eq
  rcases split_unique ((name_isWord legible).notMem (by decide)) absent body_eq with ⟨-, rest_eq⟩
  exact char_ne (List.cons.inj rest_eq).1.symm

theorem delimits_item (width depth : Nat) :
    Delimits (fun setting : Setting => setting.legible = true)
      fun setting => (setting.item depth).lines width := by
  refine Item.delimits_commented (fun _ legible => lines_item legible width depth)
    (fun _ legible => body_stands legible) ?_
  intro setting setting' legible legible' _ body_eq
  exact flat_injective legible legible' (List.append_cancel_right body_eq)

end Setting

/-- A type and a name with a number. -/
def Text.field (typeName name number : List Char) (options : List Setting) : List Char :=
  typeName ++ ' ' :: assigned name number options

section

variable {typeName typeName' name name' number number' : List Char}
  {options options' : List Setting}

theorem Text.field_unique (type_absent : ' ' ∉ typeName) (type_absent' : ' ' ∉ typeName')
    (name_absent : ' ' ∉ name) (name_absent' : ' ' ∉ name')
    (absent : ' ' ∉ number) (absent' : ' ' ∉ number')
    (legible : ∀ setting ∈ options, setting.legible = true)
    (legible' : ∀ setting ∈ options', setting.legible = true)
    (text_eq : field typeName name number options = field typeName' name' number' options') :
    typeName = typeName' ∧ name = name' ∧ number = number' ∧ options = options' := by
  rcases split_unique type_absent type_absent' text_eq with ⟨type_eq, rest_eq⟩
  exact ⟨type_eq, assigned_unique name_absent name_absent' absent absent' legible legible' rest_eq⟩

theorem Text.newline_notMem_field (type_whole : '\n' ∉ typeName) (name_whole : '\n' ∉ name)
    (number_whole : '\n' ∉ number) (legible : ∀ setting ∈ options, setting.legible = true) :
    '\n' ∉ field typeName name number options := by
  simpa [field, type_whole] using newline_notMem_assigned name_whole number_whole legible

theorem Text.isStatement_field (typeName name number : List Char) (options : List Setting) :
    IsStatement (field typeName name number options) := by
  rw [field, List.append_cons]
  exact (isStatement_assigned name number options).append _

/-- The word before the type of a field that is repeated. -/
def Text.repetition : Bool → List Char
  | true => ['r', 'e', 'p', 'e', 'a', 't', 'e', 'd', ' ']
  | false => []

/-- A repeated field does not look like a field of a type of that name, which has one word less
before its equality sign. -/
theorem Text.repeated_field_ne (type_absent : ' ' ∉ typeName) (type_absent' : ' ' ∉ typeName')
    (name_word : IsWord Text.isNameChar name) (name_absent' : ' ' ∉ name') :
    repetition true ++ field typeName name number options ≠
      field typeName' name' number' options' := by
  intro text_eq
  have word_eq : repetition true ++ field typeName name number options =
      ['r', 'e', 'p', 'e', 'a', 't', 'e', 'd'] ++ ' ' :: field typeName name number options := rfl
  rw [word_eq] at text_eq
  rcases split_unique (by decide) type_absent' text_eq with ⟨-, rest_eq⟩
  rcases split_unique type_absent name_absent' rest_eq with ⟨-, assigned_eq⟩
  exact name_word.head?_append_ne (by decide) _ (congrArg List.head? assigned_eq)

end

namespace OneOfField

variable {field field' : OneOfField}

/-- The line of a member of a oneof, without its comment. -/
def body (field : OneOfField) : List Char :=
  Text.field field.typeName.toList field.name.toList (Nat.repr field.index.toNat).toList
    field.options

/-- What legibility says of a field. -/
theorem of_legible (legible : field.legible = true) :
    IsWord Text.isNameChar field.typeName.toList ∧ IsWord Text.isNameChar field.name.toList ∧
      (∀ setting ∈ field.options, setting.legible = true) ∧ field.comment.legible = true := by
  simp only [OneOfField.legible, Bool.and_eq_true, List.all_eq_true] at legible
  exact ⟨isWord_of_isQualified legible.1.1.1, isWord_of_isIdentifier legible.1.1.2, legible.1.2,
    legible.2⟩

theorem lines_item (legible : field.legible = true) (width depth : Nat) :
    (field.item depth).lines width =
      Item.commented (Item.pad width depth) field.comment field.body := by
  rcases of_legible legible with ⟨type_word, name_word, options_legible, comment_legible⟩
  apply Item.lines_commented
  · simp [OneOfField.item, body, Text.field, assigned]
  · exact comment_legible
  · simp [body, Text.field]
  · exact newline_notMem_field (type_word.notMem (by decide)) (name_word.notMem (by decide))
      (notMem_natRepr (by decide) _) options_legible

theorem body_stands (legible : field.legible = true) : Item.Stands field.body :=
  (of_legible legible).1.stands_append (by decide) (by decide) _

theorem body_injective (legible : field.legible = true) (legible' : field'.legible = true)
    (comment_eq : field.comment = field'.comment) (body_eq : field.body = field'.body) :
    field = field' := by
  rcases of_legible legible with ⟨type_word, name_word, options_legible, -⟩
  rcases of_legible legible' with ⟨type_word', name_word', options_legible', -⟩
  rcases field_unique (type_word.notMem (by decide)) (type_word'.notMem (by decide))
    (name_word.notMem (by decide)) (name_word'.notMem (by decide))
    (notMem_natRepr (by decide) _) (notMem_natRepr (by decide) _) options_legible options_legible'
    body_eq with ⟨type_eq, name_eq, number_eq, options_eq⟩
  have index_eq := UInt32.toNat_inj.mp (natRepr_injective number_eq)
  cases field
  cases field'
  rw [OneOfField.mk.injEq]
  exact ⟨String.toList_inj.mp type_eq, String.toList_inj.mp name_eq, index_eq, comment_eq,
    options_eq⟩

theorem delimits_item (width depth : Nat) :
    Delimits (fun field : OneOfField => field.legible = true)
      fun field => (field.item depth).lines width :=
  Item.delimits_commented (fun _ legible => lines_item legible width depth)
    (fun _ legible => body_stands legible) fun _ _ => body_injective

end OneOfField

namespace MessageField

variable {field field' : MessageField}

/-- The line of a field, without its comment. -/
def body (field : MessageField) : List Char :=
  repetition field.repeated ++
    Text.field field.typeName.toList field.name.toList (Nat.repr field.index.toNat).toList
      field.options

/-- What legibility says of a field. -/
theorem of_legible (legible : field.legible = true) :
    IsWord Text.isNameChar field.typeName.toList ∧ IsWord Text.isNameChar field.name.toList ∧
      (∀ setting ∈ field.options, setting.legible = true) ∧ field.comment.legible = true := by
  simp only [MessageField.legible, Bool.and_eq_true, List.all_eq_true] at legible
  exact ⟨isWord_of_isQualified legible.1.1.1, isWord_of_isIdentifier legible.1.1.2, legible.1.2,
    legible.2⟩

theorem lines_item (legible : field.legible = true) (width depth : Nat) :
    (field.item depth).lines width =
      Item.commented (Item.pad width depth) field.comment field.body := by
  rcases of_legible legible with ⟨type_word, name_word, options_legible, comment_legible⟩
  have field_whole := newline_notMem_field (type_word.notMem (by decide))
    (name_word.notMem (by decide)) (notMem_natRepr (by decide) field.index.toNat) options_legible
  apply Item.lines_commented
  · cases repeated : field.repeated <;>
      simp [MessageField.item, body, Text.field, assigned, repetition, repeated]
  · exact comment_legible
  · simp [body, Text.field]
  · cases repeated : field.repeated <;> simpa [body, repetition, repeated] using field_whole

theorem body_stands (legible : field.legible = true) : Item.Stands field.body := by
  rw [body]
  cases field.repeated with
  | false => exact (of_legible legible).1.stands_append (by decide) (by decide) _
  | true => simp [Item.Stands, repetition]

theorem repeated_eq_of_body_eq (legible : field.legible = true) (legible' : field'.legible = true)
    (body_eq : field.body = field'.body) : field.repeated = field'.repeated := by
  rcases of_legible legible with ⟨type_word, name_word, -⟩
  rcases of_legible legible' with ⟨type_word', name_word', -⟩
  rw [body, body] at body_eq
  cases repeated : field.repeated <;> cases repeated' : field'.repeated
  · rfl
  · rw [repeated, repeated'] at body_eq
    exact absurd body_eq.symm (repeated_field_ne (type_word'.notMem (by decide))
      (type_word.notMem (by decide)) name_word' (name_word.notMem (by decide)))
  · rw [repeated, repeated'] at body_eq
    exact absurd body_eq (repeated_field_ne (type_word.notMem (by decide))
      (type_word'.notMem (by decide)) name_word (name_word'.notMem (by decide)))
  · rfl

theorem body_injective (legible : field.legible = true) (legible' : field'.legible = true)
    (comment_eq : field.comment = field'.comment) (body_eq : field.body = field'.body) :
    field = field' := by
  rcases of_legible legible with ⟨type_word, name_word, options_legible, -⟩
  rcases of_legible legible' with ⟨type_word', name_word', options_legible', -⟩
  have repeated_eq := repeated_eq_of_body_eq legible legible' body_eq
  rw [body, body, repeated_eq] at body_eq
  rcases field_unique (type_word.notMem (by decide)) (type_word'.notMem (by decide))
    (name_word.notMem (by decide)) (name_word'.notMem (by decide))
    (notMem_natRepr (by decide) _) (notMem_natRepr (by decide) _) options_legible options_legible'
    (List.append_cancel_left body_eq) with ⟨type_eq, name_eq, number_eq, options_eq⟩
  have index_eq := UInt32.toNat_inj.mp (natRepr_injective number_eq)
  cases field
  cases field'
  rw [MessageField.mk.injEq]
  exact ⟨repeated_eq, String.toList_inj.mp type_eq, String.toList_inj.mp name_eq, index_eq,
    options_eq, comment_eq⟩

theorem delimits_item (width depth : Nat) :
    Delimits (fun field : MessageField => field.legible = true)
      fun field => (field.item depth).lines width :=
  Item.delimits_commented (fun _ legible => lines_item legible width depth)
    (fun _ legible => body_stands legible) fun _ _ => body_injective

end MessageField

/-- What an option and a value of an enum have in common when they are printed. -/
structure EnumEntry where
  comment : Comment
  name : String
  text : String
  options : List Setting
  deriving DecidableEq, Repr

namespace EnumEntry

/-- An entry as it is printed, with its comment in the same item. -/
def item (depth : Nat) (entry : EnumEntry) : Item :=
  ⟨depth, entry.comment.flat ++ entry.name ++ " = " ++ entry.text ++
    Setting.flatList entry.options ++ ";\n"⟩

/-- The line of an entry, without its comment. -/
def body (entry : EnumEntry) : List Char :=
  assigned entry.name.toList entry.text.toList entry.options

/-- An entry whose parts are found again in its line. -/
structure Readable (entry : EnumEntry) : Prop where
  comment_legible : entry.comment.legible = true
  name_word : IsWord Text.isNameChar entry.name.toList
  text_blank : ' ' ∉ entry.text.toList
  text_whole : '\n' ∉ entry.text.toList
  options_legible : ∀ setting ∈ entry.options, setting.legible = true

variable {entry entry' : EnumEntry}

theorem lines_item (readable : entry.Readable) (width depth : Nat) :
    (entry.item depth).lines width =
      Item.commented (Item.pad width depth) entry.comment entry.body := by
  apply Item.lines_commented
  · simp [item, body, assigned]
  · exact readable.comment_legible
  · simp [body, assigned]
  · exact newline_notMem_assigned (readable.name_word.notMem (by decide)) readable.text_whole
      readable.options_legible

theorem body_stands (readable : entry.Readable) : Item.Stands entry.body :=
  readable.name_word.stands_append (by decide) (by decide) _

theorem delimits_item (width depth : Nat) :
    Delimits Readable fun entry => (entry.item depth).lines width := by
  refine Item.delimits_commented (fun _ readable => lines_item readable width depth)
    (fun _ readable => body_stands readable) ?_
  intro entry entry' readable readable' comment_eq body_eq
  rcases assigned_unique (readable.name_word.notMem (by decide))
    (readable'.name_word.notMem (by decide)) readable.text_blank readable'.text_blank
    readable.options_legible readable'.options_legible body_eq with ⟨name_eq, text_eq, options_eq⟩
  cases entry
  cases entry'
  rw [EnumEntry.mk.injEq]
  exact ⟨comment_eq, String.toList_inj.mp name_eq, String.toList_inj.mp text_eq, options_eq⟩

end EnumEntry

namespace EnumValue

variable {value value' : EnumValue}

/-- The entry of a value, whose text is that of its number. -/
def enumEntry (value : EnumValue) : EnumEntry :=
  ⟨value.comment, value.name, Int.repr value.index.toInt, value.options⟩

/-- The line of an enum value, without its comment. -/
def body (value : EnumValue) : List Char :=
  assigned value.name.toList (Int.repr value.index.toInt).toList value.options

/-- What legibility says of an enum value. -/
theorem of_legible (legible : value.legible = true) :
    IsWord Text.isNameChar value.name.toList ∧
      (∀ setting ∈ value.options, setting.legible = true) ∧ value.comment.legible = true := by
  simp only [EnumValue.legible, Bool.and_eq_true, List.all_eq_true] at legible
  exact ⟨isWord_of_isIdentifier legible.1.1, legible.1.2, legible.2⟩

theorem readable_of_legible (legible : value.legible = true) : value.enumEntry.Readable := by
  rcases of_legible legible with ⟨name_word, options_legible, comment_legible⟩
  exact ⟨comment_legible, name_word, notMem_intRepr (by decide) (by decide) _,
    notMem_intRepr (by decide) (by decide) _, options_legible⟩

theorem enumEntry_injective : Function.Injective EnumValue.enumEntry := by
  rintro ⟨name, index, options, comment⟩ ⟨name', index', options', comment'⟩ entry_eq
  simp only [enumEntry, EnumEntry.mk.injEq] at entry_eq
  rcases entry_eq with ⟨comment_eq, name_eq, repr_eq, options_eq⟩
  have index_eq := Int32.toInt_inj.mp (intRepr_injective (congrArg String.toList repr_eq))
  rw [EnumValue.mk.injEq]
  exact ⟨name_eq, index_eq, options_eq, comment_eq⟩

theorem lines_item (legible : value.legible = true) (width depth : Nat) :
    (value.item depth).lines width =
      Item.commented (Item.pad width depth) value.comment value.body :=
  EnumEntry.lines_item (readable_of_legible legible) width depth

theorem body_stands (legible : value.legible = true) : Item.Stands value.body :=
  EnumEntry.body_stands (readable_of_legible legible)

/-- A value is told from an option by its number. -/
theorem not_isSetting_body (legible : value.legible = true) :
    ¬IsSetting (fun text => startsNoNumber text = true) value.body := by
  rintro ⟨name, text, absent, noNumber, body_eq⟩
  rcases split_unique ((of_legible legible).1.notMem (by decide)) absent body_eq with ⟨-, rest_eq⟩
  rcases Numeral.repr_eq_cons value.index.toInt with ⟨char, more, repr_eq, numeric⟩
  simp only [List.cons.injEq, true_and, repr_eq] at rest_eq
  rw [← rest_eq] at noNumber
  rcases numeric with rfl | digit
  · simp [startsNoNumber] at noNumber
  · simp [startsNoNumber, digit] at noNumber

theorem delimits_item (width depth : Nat) :
    Delimits (fun value : EnumValue => value.legible = true)
      fun value => (value.item depth).lines width := by
  constructor
  intro value value' rest rest' legible legible' lines_eq
  rcases (EnumEntry.delimits_item width depth).unique (readable_of_legible legible)
    (readable_of_legible legible') lines_eq with ⟨entry_eq, rest_eq⟩
  exact ⟨enumEntry_injective entry_eq, rest_eq⟩

end EnumValue

namespace ReturnType

/-- What stands before the type, inside of the parentheses. -/
def opening : Bool → List Char
  | true => ['s', 't', 'r', 'e', 'a', 'm', ' ']
  | false => []

theorem toList_flat (type : ReturnType) :
    type.flat.toList = '(' :: (opening type.streamed ++ type.name.toList ++ [')']) := by
  cases streamed : type.streamed <;> simp [ReturnType.flat, opening, streamed]

theorem newline_notMem_flat {type : ReturnType} (legible : type.legible = true) :
    '\n' ∉ type.flat.toList := by
  have name_whole : '\n' ∉ type.name.toList := (isWord_of_isQualified legible).notMem (by decide)
  cases streamed : type.streamed <;> simp [toList_flat, opening, streamed, name_whole]

/-- A type ends at its parenthesis, and only a stream has a blank before that. -/
theorem delimits_flat :
    Delimits (fun type : ReturnType => type.legible = true) fun type => type.flat.toList := by
  constructor
  intro type type' rest rest' legible legible' flat_eq
  have word := isWord_of_isQualified legible
  have word' := isWord_of_isQualified legible'
  have absent : ∀ {type : ReturnType}, IsWord Text.isNameChar type.name.toList →
      ')' ∉ opening type.streamed ++ type.name.toList := by
    intro type word
    cases type.streamed <;> simp [opening, word.notMem (show Text.isNameChar ')' = false by decide)]
  have blank : ∀ {type : ReturnType}, IsWord Text.isNameChar type.name.toList →
      (' ' ∈ opening type.streamed ++ type.name.toList ↔ type.streamed = true) := by
    intro type word
    cases type.streamed <;> simp [opening, word.notMem (show Text.isNameChar ' ' = false by decide)]
  simp only [toList_flat, List.cons_append, List.append_assoc, List.nil_append] at flat_eq
  rw [List.cons.injEq, ← List.append_assoc, ← List.append_assoc] at flat_eq
  rcases split_unique (absent word) (absent word') flat_eq.2 with ⟨inside_eq, rest_eq⟩
  have streamed_eq : type.streamed = type'.streamed := by
    rw [Bool.eq_iff_iff, ← blank word, ← blank word', inside_eq]
  rw [streamed_eq] at inside_eq
  have name_eq := String.toList_inj.mp (List.append_cancel_left inside_eq)
  cases type
  cases type'
  rw [ReturnType.mk.injEq]
  exact ⟨⟨name_eq, streamed_eq⟩, rest_eq⟩

end ReturnType

namespace Rpc

variable {rpc rpc' : Rpc}

/-- The line of a procedure, without its comment. -/
def body (rpc : Rpc) : List Char :=
  ['r', 'p', 'c'] ++ ' ' :: (rpc.name.toList ++ ' ' :: (rpc.input.flat.toList ++
    ([' ', 'r', 'e', 't', 'u', 'r', 'n', 's', ' '] ++ (rpc.output.flat.toList ++ [';']))))

/-- What legibility says of a procedure. -/
theorem of_legible (legible : rpc.legible = true) :
    IsWord Text.isNameChar rpc.name.toList ∧ rpc.input.legible = true ∧
      rpc.output.legible = true ∧ rpc.comment.legible = true := by
  simp only [Rpc.legible, Bool.and_eq_true] at legible
  exact ⟨isWord_of_isIdentifier legible.1.1.1, legible.1.2, legible.2, legible.1.1.2⟩

theorem lines_item (legible : rpc.legible = true) (width depth : Nat) :
    (rpc.item depth).lines width =
      Item.commented (Item.pad width depth) rpc.comment rpc.body := by
  rcases of_legible legible with ⟨name_word, input_legible, output_legible, comment_legible⟩
  apply Item.lines_commented
  · simp [Rpc.item, body]
  · exact comment_legible
  · simp [body]
  · simp [body, name_word.notMem (show Text.isNameChar '\n' = false by decide),
      ReturnType.newline_notMem_flat input_legible, ReturnType.newline_notMem_flat output_legible]

theorem body_stands (rpc : Rpc) : Item.Stands rpc.body := by
  simp [Item.Stands, body]

theorem not_isSetting_body (legible : rpc.legible = true) (form : List Char → Prop) :
    ¬IsSetting form rpc.body := by
  rintro ⟨name, value, absent, -, body_eq⟩
  rcases split_unique (by decide) absent body_eq with ⟨-, rest_eq⟩
  exact (of_legible legible).1.head?_append_ne (by decide) _ (congrArg List.head? rest_eq)

theorem delimits_item (width depth : Nat) :
    Delimits (fun rpc : Rpc => rpc.legible = true) fun rpc => (rpc.item depth).lines width := by
  refine Item.delimits_commented (fun _ legible => lines_item legible width depth)
    (fun rpc _ => rpc.body_stands) ?_
  intro rpc rpc' legible legible' comment_eq body_eq
  rcases of_legible legible with ⟨name_word, input_legible, output_legible, -⟩
  rcases of_legible legible' with ⟨name_word', input_legible', output_legible', -⟩
  have named_eq := (List.cons.inj (List.append_cancel_left body_eq)).2
  rcases split_unique (name_word.notMem (by decide)) (name_word'.notMem (by decide)) named_eq with
    ⟨name_eq, types_eq⟩
  rcases ReturnType.delimits_flat.unique input_legible input_legible' types_eq with
    ⟨input_eq, rest_eq⟩
  rcases ReturnType.delimits_flat.unique output_legible output_legible'
    (List.append_cancel_left rest_eq) with ⟨output_eq, -⟩
  cases rpc
  cases rpc'
  rw [Rpc.mk.injEq]
  exact ⟨String.toList_inj.mp name_eq, comment_eq, input_eq, output_eq⟩

end Rpc

namespace Import

variable {statement statement' : Import}

/-- The word of a visibility. -/
def keywordChars : Visibility → List Char
  | .unspecified => []
  | .weak => ['w', 'e', 'a', 'k', ' ']
  | .exported => ['p', 'u', 'b', 'l', 'i', 'c', ' ']

/-- The word before an import. -/
def word : List Char :=
  ['i', 'm', 'p', 'o', 'r', 't']

/-- The line of an import. -/
def body (statement : Import) : List Char :=
  word ++ ' ' :: (keywordChars statement.visibility ++
    '"' :: (statement.path.toList ++ ['"', ';']))

theorem lines_item (legible : statement.legible = true) (width : Nat) :
    statement.item.lines width = Item.commented (Item.pad width 0) {} statement.body := by
  have path_whole : '\n' ∉ statement.path.toList := by
    simp only [Import.legible, List.all_eq_true, Bool.and_eq_true, bne_iff_ne] at legible
    intro newline_mem
    exact (legible '\n' newline_mem).2 rfl
  apply Item.lines_commented
  · cases visibility : statement.visibility <;>
      simp [Import.item, body, word, keywordChars, visibility, Comment.flat]
  · rfl
  · simp [body]
  · cases visibility : statement.visibility <;>
      simp [body, word, keywordChars, visibility, path_whole]

theorem body_stands (statement : Import) : Item.Stands statement.body := by
  simp [Item.Stands, body, word]

theorem isKeyword_body (statement : Import) : IsKeyword word statement.body := by
  rw [body]
  cases statement.visibility <;> simp [IsKeyword, keywordChars]

theorem delimits_item (width : Nat) :
    Delimits (fun statement : Import => statement.legible = true)
      fun statement => statement.item.lines width := by
  refine Item.delimits_commented (fun _ legible => lines_item legible width)
    (fun statement _ => statement.body_stands) ?_
  intro statement statement' _ _ _ body_eq
  have behind_eq := (List.cons.inj (List.append_cancel_left body_eq)).2
  rcases statement with ⟨path, visibility⟩
  rcases statement' with ⟨path', visibility'⟩
  have visibility_eq : visibility = visibility' := by
    cases visibility <;> cases visibility' <;> simp [keywordChars] at behind_eq ⊢
  subst visibility_eq
  have path_eq := (List.cons.inj (List.append_cancel_left behind_eq)).2
  rw [Import.mk.injEq]
  exact ⟨String.toList_inj.mp (List.append_cancel_right path_eq), rfl⟩

end Import

namespace Package

/-- The word before the name of a package. -/
def word : List Char :=
  ['p', 'a', 'c', 'k', 'a', 'g', 'e']

/-- The line of a package. -/
def body (package : Package) : List Char :=
  word ++ ' ' :: (package.name.toList ++ [';'])

theorem lines_item {package : Package} (qualified : isQualified package.name.toList = true)
    (width : Nat) :
    package.item.lines width = Item.commented (Item.pad width 0) {} package.body := by
  have name_word := isWord_of_isQualified qualified
  apply Item.lines_commented
  · simp [Package.item, body, Package.word, Comment.flat]
  · rfl
  · simp [body]
  · simp [body, Package.word, name_word.notMem (show Text.isNameChar '\n' = false by decide)]

theorem body_stands (package : Package) : Item.Stands package.body := by
  simp [Item.Stands, body, word]

theorem isKeyword_body {package : Package} (qualified : isQualified package.name.toList = true) :
    IsKeyword word package.body := by
  have name_word := isWord_of_isQualified qualified
  cases name_eq : package.name.toList with
  | nil => exact absurd name_eq name_word.nonempty
  | cons first more =>
      have equal_absent : '=' ∉ package.name.toList := name_word.notMem (by decide)
      have first_ne : first ≠ '=' := by
        rintro rfl
        simp [name_eq] at equal_absent
      exact ⟨first, more ++ [';'], first_ne, by simp [body, name_eq]⟩

theorem not_isKeyword_import (package : Package) : ¬IsKeyword Import.word package.body := by
  simp [IsKeyword, body, word, Import.word]

theorem delimits_item (width : Nat) :
    Delimits (fun package : Package => isQualified package.name.toList = true)
      fun package => package.item.lines width := by
  refine Item.delimits_commented (fun _ qualified => lines_item qualified width)
    (fun package _ => package.body_stands) ?_
  intro package package' _ _ _ body_eq
  have behind_eq := (List.cons.inj (List.append_cancel_left body_eq)).2
  cases package
  cases package'
  rw [Package.mk.injEq]
  exact String.toList_inj.mp (List.append_cancel_right behind_eq)

end Package

end ProtoSchema
