import ProtoSchema.Proofs.Printing.Declarations
import ProtoSchema.Proofs.Printing.ValidOutput

/-!
# Reading enums back

An enum is printed with its options before its values and nothing between them. Both are printed as
entries, a name and a text behind an equality sign: the entry of an option has neither a comment nor
options of its own, and the text of a value is its number. The printed form determines the entries
in their order, but it does not show where the options end: an option whose value is the text of a
number is printed like a value. Legible enums have no such options.

It is enough to know that the last option is not one of these, since every option stands before
every value. Then the printed form determines the enum, and otherwise there is another enum with the
same printed form: `Enumeration.print_determines`.
-/

namespace ProtoSchema

open Text

/-- A text without whitespace and the characters that end the value of an option. -/
def Text.isToken (text : List Char) : Bool :=
  !text.isEmpty && text.all fun char => !char.isWhitespace && !([',', ';', '[', ']'].contains char)

theorem Text.notMem_of_isToken {text : List Char} (token : isToken text = true) {char : Char}
    (ends : char.isWhitespace = true ∨ char ∈ [',', ';', '[', ']']) : char ∉ text := by
  simp only [isToken, Bool.and_eq_true, List.all_eq_true] at token
  intro char_mem
  have inside := token.2 char char_mem
  rcases ends with space | ends
  · simp [space] at inside
  · simp [ends] at inside

/-- The name of an option is an identifier and its value a token. -/
def Setting.tokenized (setting : Setting) : Bool :=
  isIdentifier setting.name.toList && isToken setting.value.toList

/-- The name of a value is an identifier, its options are tokenized, and its comment is legible. -/
def EnumValue.tokenized (value : EnumValue) : Bool :=
  isIdentifier value.name.toList && value.options.all Setting.tokenized && value.comment.legible

/-- Names are identifiers, values of options are tokens, and lines of comments are lines. -/
def Enumeration.tokenized (enumeration : Enumeration) : Bool :=
  isIdentifier enumeration.name.toList && enumeration.options.all Setting.tokenized &&
    enumeration.values.all EnumValue.tokenized && enumeration.comment.legible

/-- The value of an option is the text of a number that a value of an enum may have. -/
def Setting.Numeric (setting : Setting) : Prop :=
  ∃ index : Int32, setting.value = Int.repr index.toInt

/-- The entry of an option, which has no comment and no options of its own. -/
def Setting.enumEntry (setting : Setting) : EnumEntry :=
  ⟨{}, setting.name, setting.value, []⟩

/-- The options and the values of an enum as they follow each other. -/
def Enumeration.entries (enumeration : Enumeration) : List EnumEntry :=
  enumeration.options.map Setting.enumEntry ++ enumeration.values.map EnumValue.enumEntry

namespace EnumEntry

variable {entry entry' : EnumEntry}

theorem opens_item (readable : entry.Readable) (width depth : Nat) (rest : List (List Char)) :
    Item.Opens IsStatement ((entry.item depth).lines width ++ rest) := by
  apply (Item.opens_iff (lines_item readable width depth) (body_stands readable) rest).mpr
  exact isStatement_assigned _ _ _

theorem endsLine_item (depth : Nat) (entry : EnumEntry) : (entry.item depth).EndsLine :=
  Item.endsLine_append depth _ rfl

/-- An entry on its own is read back from its text. -/
theorem renderAll_inj (readable : entry.Readable) (readable' : entry'.Readable)
    {width depth : Nat} :
    Item.renderAll width [entry.item depth] = Item.renderAll width [entry'.item depth] ↔
      entry = entry' := by
  constructor
  · intro render_eq
    have lines_eq := Item.lines_eq_of_renderAll_eq (by simp [endsLine_item])
      (by simp [endsLine_item]) render_eq
    exact ((delimits_item width depth).unique readable readable' lines_eq).1
  · rintro rfl
    rfl

end EnumEntry

namespace Setting

variable {setting : Setting}

theorem legible_of_tokenized (tokenized : setting.tokenized = true) : setting.legible = true := by
  simp only [Setting.tokenized, Bool.and_eq_true] at tokenized
  rcases tokenized with ⟨identifier, token⟩
  have name_word := isWord_of_isIdentifier identifier
  simp only [Setting.legible, Bool.and_eq_true, bne_iff_ne, List.all_eq_true]
  refine ⟨⟨?_, ?_⟩, ?_⟩
  · intro name_eq
    exact name_word.nonempty (by simp [name_eq])
  · intro char char_mem
    have name_char := name_word.chars char char_mem
    simp only [Text.isNameChar, Bool.or_eq_true, beq_iff_eq] at name_char
    rcases name_char with (alphanum | rfl) | rfl
    · simp [Setting.isNameChar, alphanum]
    · decide
    · decide
  · intro char char_mem
    rw [Bool.not_eq_true', List.contains_eq_mem, decide_eq_false_iff_not, List.mem_cons]
    rintro (rfl | ends)
    · exact notMem_of_isToken token (Or.inl (by decide)) char_mem
    · exact notMem_of_isToken token (Or.inr ends) char_mem

theorem readable_enumEntry (tokenized : setting.tokenized = true) :
    setting.enumEntry.Readable := by
  simp only [Setting.tokenized, Bool.and_eq_true] at tokenized
  rcases tokenized with ⟨identifier, token⟩
  exact ⟨rfl, isWord_of_isIdentifier identifier, notMem_of_isToken token (Or.inl (by decide)),
    notMem_of_isToken token (Or.inl (by decide)), by simp [enumEntry]⟩

theorem item_enumEntry (depth : Nat) (setting : Setting) :
    setting.enumEntry.item depth = setting.item depth := by
  simp [EnumEntry.item, enumEntry, Setting.item, Setting.flat, Comment.flat, flatList]

theorem enumEntry_injective : Function.Injective Setting.enumEntry := by
  rintro ⟨name, value⟩ ⟨name', value'⟩ entry_eq
  simpa [enumEntry] using entry_eq

end Setting

namespace EnumValue

variable {value : EnumValue}

theorem legible_of_tokenized (tokenized : value.tokenized = true) : value.legible = true := by
  simp only [EnumValue.tokenized, Bool.and_eq_true, List.all_eq_true] at tokenized
  rcases tokenized with ⟨⟨identifier, options_tokenized⟩, comment_legible⟩
  simp only [EnumValue.legible, Bool.and_eq_true, List.all_eq_true]
  refine ⟨⟨identifier, ?_⟩, comment_legible⟩
  intro setting setting_mem
  exact Setting.legible_of_tokenized (options_tokenized setting setting_mem)

theorem item_enumEntry (depth : Nat) (value : EnumValue) :
    value.enumEntry.item depth = value.item depth := rfl

end EnumValue

/-- An option has the entry of a value only if it is numeric. -/
theorem Setting.enumEntry_eq_iff (setting : Setting) (value : EnumValue) :
    setting.enumEntry = value.enumEntry ↔
      value.comment = {} ∧ value.options = [] ∧ setting.name = value.name ∧
        setting.value = Int.repr value.index.toInt := by
  simp only [Setting.enumEntry, EnumValue.enumEntry, EnumEntry.mk.injEq]
  constructor
  · rintro ⟨comment_eq, name_eq, text_eq, options_eq⟩
    exact ⟨comment_eq.symm, options_eq.symm, name_eq, text_eq⟩
  · rintro ⟨comment_eq, options_eq, name_eq, text_eq⟩
    exact ⟨comment_eq.symm, name_eq, text_eq, options_eq.symm⟩

namespace Enumeration

variable {enumeration enumeration' : Enumeration}

theorem items_eq_entries (depth : Nat) (enumeration : Enumeration) :
    enumeration.items depth =
      [.head depth enumeration.comment "enum " enumeration.name] ++
        enumeration.entries.map (EnumEntry.item (depth + 1)) ++ [.close depth] := by
  simp [Enumeration.items, entries, Function.comp_def, Setting.item_enumEntry,
    EnumValue.item_enumEntry]

theorem readable_of_mem_entries (tokenized : enumeration.tokenized = true) :
    ∀ entry ∈ enumeration.entries, entry.Readable := by
  simp only [Enumeration.tokenized, Bool.and_eq_true, List.all_eq_true] at tokenized
  rcases tokenized with ⟨⟨⟨-, options_tokenized⟩, values_tokenized⟩, -⟩
  simp only [entries, List.forall_mem_append, List.forall_mem_map]
  exact ⟨fun setting setting_mem =>
      Setting.readable_enumEntry (options_tokenized setting setting_mem),
    fun value value_mem => EnumValue.readable_of_legible
      (EnumValue.legible_of_tokenized (values_tokenized value value_mem))⟩

theorem lines_entries (tokenized : enumeration.tokenized = true) (width depth : Nat) :
    (enumeration.items depth).flatMap (Item.lines width) =
      Item.block width depth enumeration.comment "enum ".toList enumeration.name.toList
        (enumeration.entries.flatMap fun entry => (entry.item (depth + 1)).lines width) := by
  simp only [Enumeration.tokenized, Bool.and_eq_true] at tokenized
  rcases tokenized with ⟨⟨⟨identifier, -⟩, -⟩, comment_legible⟩
  simp only [items_eq_entries, List.flatMap_append, List.flatMap_singleton, List.flatMap_map,
    Item.lines_head comment_legible "enum " (by decide) identifier, Item.lines_close, Item.block,
    List.append_assoc]

/-- Enums that are printed alike have the same entries. -/
theorem print_eq_iff (tokenized : enumeration.tokenized = true)
    (tokenized' : enumeration'.tokenized = true) :
    (Node.enum enumeration).print = (Node.enum enumeration').print ↔
      enumeration.name = enumeration'.name ∧ enumeration.comment = enumeration'.comment ∧
        enumeration.entries = enumeration'.entries := by
  rw [Node.print_eq_flatText, Node.print_eq_flatText, Node.flatText, Node.flatText]
  constructor
  · intro render_eq
    have lines_eq := Item.lines_eq_of_renderAll_eq (enumeration.endsLine_items 0)
      (enumeration'.endsLine_items 0) render_eq
    rw [lines_entries tokenized, lines_entries tokenized'] at lines_eq
    rcases Item.block_unique (by decide) (by decide)
      (congrArg (· ++ ([] : List (List Char))) lines_eq) with ⟨comment_eq, name_eq, body_eq⟩
    rcases (EnumEntry.delimits_item 2 1).flatMap _
      (fun entry readable rest => EnumEntry.opens_item readable 2 1 rest)
      (readable_of_mem_entries tokenized) (readable_of_mem_entries tokenized')
      (Item.not_opens_statement_close []) (Item.not_opens_statement_close []) body_eq with
      ⟨entries_eq, -⟩
    exact ⟨String.toList_inj.mp name_eq, comment_eq, entries_eq⟩
  · rintro ⟨name_eq, comment_eq, entries_eq⟩
    simp only [Node.items, items_eq_entries, name_eq, comment_eq, entries_eq]

/-- Options that go on with entries of values end with a numeric one. -/
theorem eq_nil_of_enumEntry_append {options options' : List Setting} {values : List EnumValue}
    {more rest : List EnumEntry} (last : ∀ setting ∈ options.getLast?, ¬setting.Numeric)
    (options_eq : options.map Setting.enumEntry = options'.map Setting.enumEntry ++ more)
    (values_eq : values.map EnumValue.enumEntry = more ++ rest) : more = [] := by
  rcases List.eq_nil_or_concat more with rfl | ⟨front, entry, rfl⟩
  · rfl
  · have last_eq := congrArg List.getLast? options_eq
    simp only [List.concat_eq_append, List.getLast?_map, List.getLast?_append,
      List.getLast?_singleton, Option.some_or, Option.map_eq_some_iff] at last_eq
    rcases last_eq with ⟨setting, setting_last, setting_eq⟩
    have entry_mem : entry ∈ values.map EnumValue.enumEntry := by simp [values_eq]
    rcases List.mem_map.mp entry_mem with ⟨value, -, value_eq⟩
    have shared := (setting.enumEntry_eq_iff value).mp (setting_eq.trans value_eq.symm)
    exact absurd ⟨value.index, shared.2.2.2⟩ (last setting setting_last)

theorem eq_of_entries_eq (last : ∀ setting ∈ enumeration.options.getLast?, ¬setting.Numeric)
    (last' : ∀ setting ∈ enumeration'.options.getLast?, ¬setting.Numeric)
    (entries_eq : enumeration.entries = enumeration'.entries) :
    enumeration.options = enumeration'.options ∧ enumeration.values = enumeration'.values := by
  have injective := List.map_injective_iff.mpr Setting.enumEntry_injective
  have injective' := List.map_injective_iff.mpr EnumValue.enumEntry_injective
  rcases List.append_eq_append_iff.mp entries_eq with
    ⟨more, options_eq, values_eq⟩ | ⟨more, options_eq, values_eq⟩
  · have more_eq := eq_nil_of_enumEntry_append last' options_eq values_eq
    rw [more_eq, List.append_nil] at options_eq
    rw [more_eq, List.nil_append] at values_eq
    exact ⟨(injective options_eq).symm, injective' values_eq⟩
  · have more_eq := eq_nil_of_enumEntry_append last options_eq values_eq
    rw [more_eq, List.append_nil] at options_eq
    rw [more_eq, List.nil_append] at values_eq
    exact ⟨injective options_eq, (injective' values_eq).symm⟩

/-- An enum whose last option is numeric is printed like one that has a value for it. -/
theorem exists_same_entries {setting : Setting} (tokenized : enumeration.tokenized = true)
    (setting_last : setting ∈ enumeration.options.getLast?) (numeric : setting.Numeric) :
    ∃ other : Enumeration, other.tokenized = true ∧ other ≠ enumeration ∧
      other.name = enumeration.name ∧ other.comment = enumeration.comment ∧
        other.entries = enumeration.entries := by
  rcases numeric with ⟨index, value_eq⟩
  rcases List.getLast?_eq_some_iff.mp setting_last with ⟨front, options_eq⟩
  let value : EnumValue := ⟨setting.name, index, [], {}⟩
  refine ⟨{ enumeration with options := front, values := value :: enumeration.values },
    ?_, ?_, rfl, rfl, ?_⟩
  · have setting_mem : setting ∈ enumeration.options := by simp [options_eq]
    simp only [Enumeration.tokenized, Bool.and_eq_true, List.all_eq_true] at tokenized ⊢
    rcases tokenized with ⟨⟨⟨identifier, options_tokenized⟩, values_tokenized⟩, comment_legible⟩
    have setting_tokenized := options_tokenized setting setting_mem
    simp only [Setting.tokenized, Bool.and_eq_true] at setting_tokenized
    refine ⟨⟨⟨identifier, ?_⟩, ?_⟩, comment_legible⟩
    · intro other other_mem
      exact options_tokenized other (by simp [options_eq, other_mem])
    · rw [List.forall_mem_cons]
      refine ⟨?_, values_tokenized⟩
      simp [EnumValue.tokenized, value, setting_tokenized.1, Comment.legible]
  · intro enumeration_eq
    have options_eq' := congrArg (fun other => other.options.length) enumeration_eq
    simp [options_eq] at options_eq'
  · have entry_eq : setting.enumEntry = value.enumEntry :=
      (setting.enumEntry_eq_iff value).mpr ⟨rfl, rfl, rfl, value_eq⟩
    simp [entries, options_eq, entry_eq]

/-- The printed form of an enum determines its name, its comment and its entries, and it determines
the enum among those whose last options are not numeric. If the last option is numeric, another enum
is printed in the same way. An option is printed like a value exactly if its value is the number of
the value, and the value has neither a comment nor options. -/
theorem print_determines (enumeration enumeration' : Enumeration)
    (tokenized : enumeration.tokenized = true) (tokenized' : enumeration'.tokenized = true) :
    ((∀ setting ∈ enumeration.options.getLast?, ¬setting.Numeric) →
      (∀ setting ∈ enumeration'.options.getLast?, ¬setting.Numeric) →
      (Node.enum enumeration).print = (Node.enum enumeration').print →
        enumeration = enumeration') ∧
    ((Node.enum enumeration).print = (Node.enum enumeration').print ↔
      enumeration.name = enumeration'.name ∧ enumeration.comment = enumeration'.comment ∧
        enumeration.entries = enumeration'.entries) ∧
    (∀ setting ∈ enumeration.options.getLast?, setting.Numeric →
      ∃ other : Enumeration, other.tokenized = true ∧ other ≠ enumeration ∧
        (Node.enum other).print = (Node.enum enumeration).print) ∧
    ∀ setting ∈ enumeration.options, ∀ value ∈ enumeration'.values,
      ((Node.option setting).print = (Node.enumValue value).print ↔
        value.comment = {} ∧ value.options = [] ∧ setting.name = value.name ∧
          setting.value = Int.repr value.index.toInt) := by
  refine ⟨?_, print_eq_iff tokenized tokenized', ?_, ?_⟩
  · intro last last' print_eq
    rcases (print_eq_iff tokenized tokenized').mp print_eq with ⟨name_eq, comment_eq, entries_eq⟩
    rcases eq_of_entries_eq last last' entries_eq with ⟨options_eq, values_eq⟩
    cases enumeration
    cases enumeration'
    rw [Enumeration.mk.injEq]
    exact ⟨name_eq, options_eq, values_eq, comment_eq⟩
  · intro setting setting_last numeric
    rcases exists_same_entries tokenized setting_last numeric with
      ⟨other, other_tokenized, other_ne, same⟩
    exact ⟨other, other_tokenized, other_ne, (print_eq_iff other_tokenized tokenized).mpr same⟩
  · intro setting setting_mem value value_mem
    have readable : setting.enumEntry.Readable :=
      readable_of_mem_entries tokenized _
        (List.mem_append_left _ (List.mem_map_of_mem setting_mem))
    have readable' : value.enumEntry.Readable :=
      readable_of_mem_entries tokenized' _
        (List.mem_append_right _ (List.mem_map_of_mem value_mem))
    rw [← setting.enumEntry_eq_iff value, ← EnumEntry.renderAll_inj readable readable',
      Node.print_eq_flatText, Node.print_eq_flatText, Setting.item_enumEntry,
      EnumValue.item_enumEntry]
    rfl

/-- Of the two options of these enums only the first one is numeric. One enum is put together step
by step, and the other one is written down. -/
theorem print_determines_assembled :
    let assembled := ((((({ name := "Level" } : Enumeration).addOption
      (some ⟨"LOW", "1"⟩)).addOption (some ⟨"allow_alias", "true"⟩)).addValue
      (some ((⟨"LOW", -1, [], {}⟩ : EnumValue).addOption (some ⟨"deprecated", "1"⟩)))).withComment
      (.ofText "LOW = 2;\n")).addValue (some ⟨"LOW", 1, [], {}⟩)
    let written : Enumeration :=
      ⟨"Level", [⟨"LOW", "1"⟩, ⟨"allow_alias", "true"⟩],
        [⟨"LOW", -1, [⟨"deprecated", "1"⟩], {}⟩, ⟨"LOW", 1, [], {}⟩], ⟨["LOW = 2;"]⟩⟩
    assembled.tokenized = true ∧ written.tokenized = true ∧
      (Node.enum assembled).print = (Node.enum written).print ∧ assembled = written ∧
      (Node.option ⟨"LOW", "1"⟩).print = (Node.enumValue ⟨"LOW", 1, [], {}⟩).print := by
  intro assembled written
  have tokenized : assembled.tokenized = true := by decide +kernel
  have tokenized' : written.tokenized = true := by decide +kernel
  have print_eq : (Node.enum assembled).print = (Node.enum written).print := by
    rw [Node.print_eq_flatText, Node.print_eq_flatText]
    decide +kernel
  have not_numeric : ¬(Setting.mk "allow_alias" "true").Numeric := by
    rintro ⟨index, value_eq⟩
    rcases Numeral.repr_eq_cons index.toInt with ⟨char, more, repr_eq, numeric⟩
    rw [← value_eq] at repr_eq
    have char_eq : 't' = char := (List.cons.inj repr_eq).1
    rw [← char_eq] at numeric
    simp at numeric
  have determines := print_determines assembled written tokenized tokenized'
  refine ⟨tokenized, tokenized', print_eq, ?_, ?_⟩
  · apply determines.1 _ _ print_eq
    · rintro setting ⟨rfl⟩
      exact not_numeric
    · rintro setting ⟨rfl⟩
      exact not_numeric
  · exact (determines.2.2.2 ⟨"LOW", "1"⟩ (by decide) ⟨"LOW", 1, [], {}⟩ (by decide)).mpr
      ⟨rfl, rfl, rfl, rfl⟩

/-- An option and a value whose printed forms agree. -/
theorem print_ambiguous :
    let named : Enumeration := ⟨"Level", [⟨"LOW", "1"⟩], [], {}⟩
    let valued : Enumeration := ⟨"Level", [], [⟨"LOW", 1, [], {}⟩], {}⟩
    named.tokenized = true ∧ valued.tokenized = true ∧
      (Node.enum named).print = "enum Level \x7b\n  LOW = 1;\n\x7d\n" ∧
      (Node.enum valued).print = (Node.enum named).print ∧ named ≠ valued := by
  intro named valued
  rw [Node.print_eq_flatText, Node.print_eq_flatText]
  decide +kernel

end Enumeration

end ProtoSchema
