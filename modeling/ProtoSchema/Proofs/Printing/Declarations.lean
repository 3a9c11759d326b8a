import ProtoSchema.Proofs.Printing.Statements

/-!
# Reading declarations back

A declaration is printed as a block: a head below its comment, the lines of its members, and a
closing brace, `Item.block`. Members of one kind stand together, so a block is read kind by kind,
and where one kind ends is seen from the next line that does not belong to a comment. Options end in
front of a number or of a line without an equality sign, statements end in front of a head or the
closing brace, and blocks of one keyword end in front of those of another.

Messages stand in messages. That the lines of a message tell it from any other is shown for messages
whose nested messages have this property, `Message.items_unique`, and so for all of them.
-/

namespace ProtoSchema

open Text

namespace Item

/-- The head of a declaration without its comment. -/
def headLine (keyword name : List Char) : List Char :=
  keyword ++ (name ++ [' ', '\x7b'])

/-- The closing brace of a declaration. -/
def closeLine (width depth : Nat) : List Char :=
  pad width depth ++ ['\x7d']

/-- The lines of a declaration: its head below its comment, its body and its closing brace. -/
def block (width depth : Nat) (comment : Comment) (keyword name : List Char)
    (body : List (List Char)) : List (List Char) :=
  commented (pad width depth) comment (headLine keyword name) ++ (body ++ [closeLine width depth])

theorem lines_head {comment : Comment} (legible : comment.legible = true) (keyword : String)
    (keyword_whole : '\n' ∉ keyword.toList) {name : String}
    (identifier : isIdentifier name.toList = true) (width depth : Nat) :
    (head depth comment keyword name).lines width =
      commented (pad width depth) comment (headLine keyword.toList name.toList) := by
  apply lines_commented
  · simp [head, headLine]
  · exact legible
  · simp [headLine]
  · have name_whole : '\n' ∉ name.toList := (isWord_of_isIdentifier identifier).notMem (by decide)
    simp [headLine, keyword_whole, name_whole]

theorem lines_close (width depth : Nat) : (close depth).lines width = [closeLine width depth] := by
  have lines_eq : (close depth).lines width = commented (pad width depth) {} ['\x7d'] :=
    lines_commented (by simp [close, Comment.flat]) rfl (by simp) (by simp) width
  exact lines_eq

variable {width depth : Nat} {comment comment' : Comment} {keyword name name' : List Char}
  {body body' rest rest' : List (List Char)} {form : List Char → Prop}

theorem stands_headLine (nonempty : keyword ≠ []) (stands : Stands keyword) (name : List Char) :
    Stands (headLine keyword name) := by
  cases keyword with
  | nil => exact absurd rfl nonempty
  | cons first more => exact stands

/-- Lines of a declaration behind a certain keyword. -/
def IsBlock (width depth : Nat) (keyword : List Char) (lines : List (List Char)) : Prop :=
  keyword ≠ [] ∧ Stands keyword ∧
    ∃ comment name body, lines = block width depth comment keyword name body

theorem IsBlock.opens {lines : List (List Char)} (isBlock : IsBlock width depth keyword lines)
    (forms : ∀ name, form (headLine keyword name)) (rest : List (List Char)) :
    Opens form (lines ++ rest) := by
  rcases isBlock with ⟨nonempty, stands, comment, name, body, rfl⟩
  rw [block, List.append_assoc, opens_iff rfl (stands_headLine nonempty stands name)]
  exact forms name

theorem IsBlock.not_opens {lines : List (List Char)} (isBlock : IsBlock width depth keyword lines)
    (foreign : ∀ name, ¬form (headLine keyword name)) (rest : List (List Char)) :
    ¬Opens form (lines ++ rest) := by
  rcases isBlock with ⟨nonempty, stands, comment, name, body, rfl⟩
  rw [block, List.append_assoc, opens_iff rfl (stands_headLine nonempty stands name)]
  exact foreign name

/-- Declarations of one kind do not look like lines of another kind. -/
theorem not_opens_blocks {α : Type} {code : α → List (List Char)} {values : List α}
    (allBlocks : ∀ value ∈ values, IsBlock width depth keyword (code value))
    (foreign : ∀ name, ¬form (headLine keyword name)) (ends : ¬Opens form rest) :
    ¬Opens form (values.flatMap code ++ rest) :=
  not_opens_flatMap (fun value value_mem => (allBlocks value value_mem).not_opens foreign) ends

theorem opens_close : Opens form (closeLine width depth :: rest) ↔ form ['\x7d'] := by
  have lines_eq : [closeLine width depth] = commented (pad width depth) {} ['\x7d'] := rfl
  exact opens_iff lines_eq (by simp [Stands]) rest

/-- Declarations of the same kind are told apart by their heads and their bodies. -/
theorem block_unique (nonempty : keyword ≠ []) (stands : Stands keyword)
    (blocks_eq : block width depth comment keyword name body ++ rest =
      block width depth comment' keyword name' body' ++ rest') :
    comment = comment' ∧ name = name' ∧
      body ++ closeLine width depth :: rest = body' ++ closeLine width depth :: rest' := by
  simp only [block, List.append_assoc, List.singleton_append] at blocks_eq
  rcases commented_unique (stands_headLine nonempty stands name)
    (stands_headLine nonempty stands name') blocks_eq with ⟨comment_eq, head_eq, rest_eq⟩
  have name_eq := List.append_cancel_right (List.append_cancel_left head_eq)
  exact ⟨comment_eq, name_eq, rest_eq⟩

end Item

namespace Text

/-- A line starts with a character. -/
def StartsWith (char : Char) (body : List Char) : Prop :=
  body.head? = some char

theorem not_isStatement_headLine (keyword name : List Char) :
    ¬IsStatement (Item.headLine keyword name) := by
  simp [IsStatement, Item.headLine, List.getLast?_append]

theorem not_isStatement_close : ¬IsStatement ['\x7d'] := by
  simp [IsStatement]

theorem not_isSetting_close (form : List Char → Prop) : ¬IsSetting form ['\x7d'] := by
  rintro ⟨name, value, -, -, body_eq⟩
  have blank_mem : ' ' ∈ ['\x7d'] := by simp [body_eq]
  simp at blank_mem

end Text

/-- Statements end in front of a closing brace. -/
theorem Item.not_opens_statement_close {width depth : Nat} (rest : List (List Char)) :
    ¬Item.Opens IsStatement (Item.closeLine width depth :: rest) :=
  mt Item.opens_close.mp not_isStatement_close

namespace OneOf

theorem lines_items {oneof : OneOf} (legible : oneof.legible = true) (width depth : Nat) :
    (oneof.items depth).flatMap (Item.lines width) =
      Item.block width depth oneof.comment "oneof ".toList oneof.name.toList
        (oneof.fields.flatMap fun field => (field.item (depth + 1)).lines width) := by
  simp only [OneOf.legible, Bool.and_eq_true] at legible
  simp only [OneOf.items, List.flatMap_append, List.flatMap_singleton, List.flatMap_map,
    Item.lines_head legible.1.2 "oneof " (by decide) legible.1.1, Item.lines_close, Item.block,
    List.append_assoc]

theorem isBlock_items {oneof : OneOf} (legible : oneof.legible = true) (width depth : Nat) :
    Item.IsBlock width depth "oneof ".toList ((oneof.items depth).flatMap (Item.lines width)) :=
  ⟨by decide, by decide, _, _, _, lines_items legible width depth⟩

theorem delimits_items (width depth : Nat) :
    Delimits (fun oneof : OneOf => oneof.legible = true)
      fun oneof => (oneof.items depth).flatMap (Item.lines width) := by
  constructor
  intro oneof oneof' rest rest' legible legible' lines_eq
  rw [lines_items legible, lines_items legible'] at lines_eq
  rcases Item.block_unique (by decide) (by decide) lines_eq with ⟨comment_eq, name_eq, body_eq⟩
  simp only [OneOf.legible, Bool.and_eq_true, List.all_eq_true] at legible legible'
  have opens : ∀ field : OneOfField, field.legible = true → ∀ rest,
      Item.Opens IsStatement ((field.item (depth + 1)).lines width ++ rest) := by
    intro field legible rest
    rw [Item.opens_iff (OneOfField.lines_item legible width _) (OneOfField.body_stands legible)]
    exact isStatement_field _ _ _ _
  rcases (OneOfField.delimits_item width (depth + 1)).flatMap (Item.Opens IsStatement) opens
    legible.2 legible'.2 (Item.not_opens_statement_close rest)
    (Item.not_opens_statement_close rest') body_eq with ⟨fields_eq, close_eq⟩
  cases oneof
  cases oneof'
  rw [OneOf.mk.injEq]
  exact ⟨⟨String.toList_inj.mp name_eq, comment_eq, fields_eq⟩, (List.cons.inj close_eq).2⟩

end OneOf

namespace Enumeration

/-- What legibility says of an enum. -/
theorem of_legible {enumeration : Enumeration} (legible : enumeration.legible = true) :
    isIdentifier enumeration.name.toList = true ∧ enumeration.comment.legible = true ∧
      (∀ setting ∈ enumeration.options,
        setting.legible = true ∧ startsNoNumber setting.value.toList = true) ∧
      ∀ value ∈ enumeration.values, value.legible = true := by
  simp only [Enumeration.legible, Bool.and_eq_true, List.all_eq_true] at legible
  exact ⟨legible.1.1.1, legible.1.1.2, legible.1.2, legible.2⟩

theorem lines_items {enumeration : Enumeration} (legible : enumeration.legible = true)
    (width depth : Nat) :
    (enumeration.items depth).flatMap (Item.lines width) =
      Item.block width depth enumeration.comment "enum ".toList enumeration.name.toList
        ((enumeration.options.flatMap fun setting => (setting.item (depth + 1)).lines width) ++
          enumeration.values.flatMap fun value => (value.item (depth + 1)).lines width) := by
  rcases of_legible legible with ⟨identifier, comment_legible, -⟩
  simp only [Enumeration.items, List.flatMap_append, List.flatMap_singleton, List.flatMap_map,
    Item.lines_head comment_legible "enum " (by decide) identifier, Item.lines_close, Item.block,
    List.append_assoc]

theorem isBlock_items {enumeration : Enumeration} (legible : enumeration.legible = true)
    (width depth : Nat) :
    Item.IsBlock width depth "enum ".toList
      ((enumeration.items depth).flatMap (Item.lines width)) :=
  ⟨by decide, by decide, _, _, _, lines_items legible width depth⟩

/-- The options of an enum end where a line goes on like a number. -/
theorem not_opens_values {values : List EnumValue}
    (legible : ∀ value ∈ values, value.legible = true) (width depth : Nat)
    (rest : List (List Char)) :
    ¬Item.Opens (IsSetting fun text => startsNoNumber text = true)
      ((values.flatMap fun value => (value.item (depth + 1)).lines width) ++
        Item.closeLine width depth :: rest) := by
  apply not_opens_flatMap
  · intro value value_mem rest
    have value_legible := legible value value_mem
    rw [Item.opens_iff (EnumValue.lines_item value_legible width _)
      (EnumValue.body_stands value_legible)]
    exact EnumValue.not_isSetting_body value_legible
  · exact mt Item.opens_close.mp (not_isSetting_close _)

theorem delimits_items (width depth : Nat) :
    Delimits (fun enumeration : Enumeration => enumeration.legible = true)
      fun enumeration => (enumeration.items depth).flatMap (Item.lines width) := by
  constructor
  intro enumeration enumeration' rest rest' legible legible' lines_eq
  rw [lines_items legible, lines_items legible'] at lines_eq
  rcases Item.block_unique (by decide) (by decide) lines_eq with ⟨comment_eq, name_eq, body_eq⟩
  rcases of_legible legible with ⟨-, -, options_legible, values_legible⟩
  rcases of_legible legible' with ⟨-, -, options_legible', values_legible'⟩
  rw [List.append_assoc, List.append_assoc] at body_eq
  have opens_option : ∀ setting : Setting,
      setting.legible = true ∧ startsNoNumber setting.value.toList = true → ∀ rest,
      Item.Opens (IsSetting fun text => startsNoNumber text = true)
        ((setting.item (depth + 1)).lines width ++ rest) := by
    intro setting ⟨legible, noNumber⟩ rest
    rw [Item.opens_iff (Setting.lines_item legible width _) (Setting.body_stands legible)]
    apply Setting.isSetting_body legible
    cases value_eq : setting.value.toList with
    | nil => rfl
    | cons first more => simpa [startsNoNumber, value_eq] using noNumber
  rcases ((Setting.delimits_item width (depth + 1)).mono fun _ => And.left).flatMap _ opens_option
    options_legible options_legible' (not_opens_values values_legible width depth rest)
    (not_opens_values values_legible' width depth rest') body_eq with ⟨options_eq, values_lines_eq⟩
  have opens_value : ∀ value : EnumValue, value.legible = true → ∀ rest,
      Item.Opens IsStatement ((value.item (depth + 1)).lines width ++ rest) := by
    intro value legible rest
    rw [Item.opens_iff (EnumValue.lines_item legible width _) (EnumValue.body_stands legible)]
    exact isStatement_assigned _ _ _
  rcases (EnumValue.delimits_item width (depth + 1)).flatMap _ opens_value values_legible
    values_legible' (Item.not_opens_statement_close rest) (Item.not_opens_statement_close rest')
    values_lines_eq with ⟨values_eq, close_eq⟩
  cases enumeration
  cases enumeration'
  rw [Enumeration.mk.injEq]
  exact ⟨⟨String.toList_inj.mp name_eq, options_eq, values_eq, comment_eq⟩,
    (List.cons.inj close_eq).2⟩

end Enumeration

namespace Service

/-- What legibility says of a service. -/
theorem of_legible {service : Service} (legible : service.legible = true) :
    isIdentifier service.name.toList = true ∧ service.comment.legible = true ∧
      (∀ setting ∈ service.options, setting.legible = true) ∧
      ∀ rpc ∈ service.rpcs, rpc.legible = true := by
  simp only [Service.legible, Bool.and_eq_true, List.all_eq_true] at legible
  exact ⟨legible.1.1.1, legible.1.1.2, legible.1.2, legible.2⟩

theorem lines_items {service : Service} (legible : service.legible = true) (width depth : Nat) :
    (service.items depth).flatMap (Item.lines width) =
      Item.block width depth service.comment "service ".toList service.name.toList
        ((service.options.flatMap fun setting => (setting.item (depth + 1)).lines width) ++
          service.rpcs.flatMap fun rpc => (rpc.item (depth + 1)).lines width) := by
  rcases of_legible legible with ⟨identifier, comment_legible, -⟩
  simp only [Service.items, List.flatMap_append, List.flatMap_singleton, List.flatMap_map,
    Item.lines_head comment_legible "service " (by decide) identifier, Item.lines_close, Item.block,
    List.append_assoc]

theorem isBlock_items {service : Service} (legible : service.legible = true) (width depth : Nat) :
    Item.IsBlock width depth "service ".toList ((service.items depth).flatMap (Item.lines width)) :=
  ⟨by decide, by decide, _, _, _, lines_items legible width depth⟩

/-- The options of a service end where a line has no equality sign behind its first word. -/
theorem not_opens_rpcs {rpcs : List Rpc} (legible : ∀ rpc ∈ rpcs, rpc.legible = true)
    (width depth : Nat) (rest : List (List Char)) :
    ¬Item.Opens (IsSetting fun _ => True)
      ((rpcs.flatMap fun rpc => (rpc.item (depth + 1)).lines width) ++
        Item.closeLine width depth :: rest) := by
  apply not_opens_flatMap
  · intro rpc rpc_mem rest
    have rpc_legible := legible rpc rpc_mem
    rw [Item.opens_iff (Rpc.lines_item rpc_legible width _) rpc.body_stands]
    exact Rpc.not_isSetting_body rpc_legible _
  · exact mt Item.opens_close.mp (not_isSetting_close _)

theorem delimits_items (width depth : Nat) :
    Delimits (fun service : Service => service.legible = true)
      fun service => (service.items depth).flatMap (Item.lines width) := by
  constructor
  intro service service' rest rest' legible legible' lines_eq
  rw [lines_items legible, lines_items legible'] at lines_eq
  rcases Item.block_unique (by decide) (by decide) lines_eq with ⟨comment_eq, name_eq, body_eq⟩
  rcases of_legible legible with ⟨-, -, options_legible, rpcs_legible⟩
  rcases of_legible legible' with ⟨-, -, options_legible', rpcs_legible'⟩
  rw [List.append_assoc, List.append_assoc] at body_eq
  have opens_option : ∀ setting : Setting, setting.legible = true → ∀ rest,
      Item.Opens (IsSetting fun _ => True) ((setting.item (depth + 1)).lines width ++ rest) := by
    intro setting legible rest
    rw [Item.opens_iff (Setting.lines_item legible width _) (Setting.body_stands legible)]
    exact Setting.isSetting_body legible trivial
  rcases (Setting.delimits_item width (depth + 1)).flatMap _ opens_option options_legible
    options_legible' (not_opens_rpcs rpcs_legible width depth rest)
    (not_opens_rpcs rpcs_legible' width depth rest') body_eq with ⟨options_eq, rpcs_lines_eq⟩
  have opens_rpc : ∀ rpc : Rpc, rpc.legible = true → ∀ rest,
      Item.Opens (StartsWith 'r') ((rpc.item (depth + 1)).lines width ++ rest) := by
    intro rpc legible rest
    rw [Item.opens_iff (Rpc.lines_item legible width _) rpc.body_stands]
    rfl
  have closed : ∀ rest, ¬Item.Opens (StartsWith 'r') (Item.closeLine width depth :: rest) :=
    fun rest => mt Item.opens_close.mp (by simp [StartsWith])
  rcases (Rpc.delimits_item width (depth + 1)).flatMap _ opens_rpc rpcs_legible rpcs_legible'
    (closed rest) (closed rest') rpcs_lines_eq with ⟨rpcs_eq, close_eq⟩
  cases service
  cases service'
  rw [Service.mk.injEq]
  exact ⟨⟨String.toList_inj.mp name_eq, comment_eq, options_eq, rpcs_eq⟩,
    (List.cons.inj close_eq).2⟩

end Service

namespace Message

theorem itemsOfAll_eq_flatMap (depth : Nat) (messages : List Message) :
    Message.itemsOfAll depth messages = messages.flatMap (Message.items depth) := by
  induction messages with
  | nil => rfl
  | cons first rest ih => rw [Message.itemsOfAll, ih, List.flatMap_cons]

/-- What legibility says of a message. -/
theorem of_legible {message : Message} (legible : message.legible = true) :
    isIdentifier message.name.toList = true ∧ message.comment.legible = true ∧
      (∀ field ∈ message.fields, field.legible = true) ∧
      (∀ enumeration ∈ message.enums, enumeration.legible = true) ∧
      (∀ nested ∈ message.messages, nested.legible = true) ∧
      ∀ oneof ∈ message.oneofs, oneof.legible = true := by
  rcases message with ⟨name, comment, fields, enums, messages, oneofs⟩
  simp only [Message.legible, Bool.and_eq_true, List.all_eq_true, allLegible_iff] at legible
  exact ⟨legible.1.1.1.1.1, legible.1.1.1.1.2, legible.1.1.1.2, legible.1.1.2, legible.1.2,
    legible.2⟩

theorem lines_items {message : Message} (legible : message.legible = true) (width depth : Nat) :
    (message.items depth).flatMap (Item.lines width) =
      Item.block width depth message.comment "message ".toList message.name.toList
        ((message.fields.flatMap fun field => (field.item (depth + 1)).lines width) ++
          ((message.enums.flatMap fun enumeration =>
              (enumeration.items (depth + 1)).flatMap (Item.lines width)) ++
            ((message.messages.flatMap fun nested =>
                (nested.items (depth + 1)).flatMap (Item.lines width)) ++
              message.oneofs.flatMap fun oneof =>
                (oneof.items (depth + 1)).flatMap (Item.lines width)))) := by
  rcases of_legible legible with ⟨identifier, comment_legible, -⟩
  rcases message with ⟨name, comment, fields, enums, messages, oneofs⟩
  simp only [Message.items, itemsOfAll_eq_flatMap, List.flatMap_append, List.flatMap_singleton,
    List.flatMap_map, List.flatMap_assoc,
    Item.lines_head comment_legible "message " (by decide) identifier, Item.lines_close,
    Item.block, List.append_assoc]

theorem isBlock_items {message : Message} (legible : message.legible = true) (width depth : Nat) :
    Item.IsBlock width depth "message ".toList ((message.items depth).flatMap (Item.lines width)) :=
  ⟨by decide, by decide, _, _, _, lines_items legible width depth⟩

section

variable {message message' : Message} {form : List Char → Prop} {width depth : Nat}
  {rest rest' : List (List Char)}

theorem not_opens_oneofs (legible : message.legible = true) (closed : ¬form ['\x7d'])
    (noOneof : ∀ name, ¬form (Item.headLine "oneof ".toList name)) :
    ¬Item.Opens form
      ((message.oneofs.flatMap fun oneof => (oneof.items (depth + 1)).flatMap (Item.lines width)) ++
        Item.closeLine width depth :: rest) := by
  rcases of_legible legible with ⟨-, -, -, -, -, oneofs_legible⟩
  exact Item.not_opens_blocks
    (fun oneof oneof_mem => OneOf.isBlock_items (oneofs_legible oneof oneof_mem) width (depth + 1))
    noOneof (mt Item.opens_close.mp closed)

theorem not_opens_messages (legible : message.legible = true) (closed : ¬form ['\x7d'])
    (noOneof : ∀ name, ¬form (Item.headLine "oneof ".toList name))
    (noMessage : ∀ name, ¬form (Item.headLine "message ".toList name)) :
    ¬Item.Opens form
      ((message.messages.flatMap fun nested =>
          (nested.items (depth + 1)).flatMap (Item.lines width)) ++
        ((message.oneofs.flatMap fun oneof =>
            (oneof.items (depth + 1)).flatMap (Item.lines width)) ++
          Item.closeLine width depth :: rest)) := by
  rcases of_legible legible with ⟨-, -, -, -, messages_legible, -⟩
  exact Item.not_opens_blocks
    (fun nested nested_mem => isBlock_items (messages_legible nested nested_mem) width (depth + 1))
    noMessage (not_opens_oneofs legible closed noOneof)

theorem not_opens_enums (legible : message.legible = true) (closed : ¬form ['\x7d'])
    (noOneof : ∀ name, ¬form (Item.headLine "oneof ".toList name))
    (noMessage : ∀ name, ¬form (Item.headLine "message ".toList name))
    (noEnum : ∀ name, ¬form (Item.headLine "enum ".toList name)) :
    ¬Item.Opens form
      ((message.enums.flatMap fun enumeration =>
          (enumeration.items (depth + 1)).flatMap (Item.lines width)) ++
        ((message.messages.flatMap fun nested =>
            (nested.items (depth + 1)).flatMap (Item.lines width)) ++
          ((message.oneofs.flatMap fun oneof =>
              (oneof.items (depth + 1)).flatMap (Item.lines width)) ++
            Item.closeLine width depth :: rest))) := by
  rcases of_legible legible with ⟨-, -, -, enums_legible, -, -⟩
  exact Item.not_opens_blocks
    (fun enumeration enumeration_mem =>
      Enumeration.isBlock_items (enums_legible enumeration enumeration_mem) width (depth + 1))
    noEnum (not_opens_messages legible closed noOneof noMessage)

/-- A message is told from any other by its lines if its nested messages are. -/
theorem items_unique
    (nested_delimits : Delimits
      (fun nested : Message => nested.legible = true ∧
        (nested ∈ message.messages ∨ nested ∈ message'.messages))
      fun nested => (nested.items (depth + 1)).flatMap (Item.lines width))
    (legible : message.legible = true) (legible' : message'.legible = true)
    (lines_eq : (message.items depth).flatMap (Item.lines width) ++ rest =
      (message'.items depth).flatMap (Item.lines width) ++ rest') :
    message = message' ∧ rest = rest' := by
  rw [lines_items legible, lines_items legible'] at lines_eq
  rcases Item.block_unique (by decide) (by decide) lines_eq with ⟨comment_eq, name_eq, body_eq⟩
  simp only [List.append_assoc] at body_eq
  rcases of_legible legible with
    ⟨-, -, fields_legible, enums_legible, messages_legible, oneofs_legible⟩
  rcases of_legible legible' with
    ⟨-, -, fields_legible', enums_legible', messages_legible', oneofs_legible'⟩
  have opens_field : ∀ field : MessageField, field.legible = true → ∀ rest,
      Item.Opens IsStatement ((field.item (depth + 1)).lines width ++ rest) := by
    intro field legible rest
    rw [Item.opens_iff (MessageField.lines_item legible width _) (MessageField.body_stands legible)]
    exact (isStatement_field _ _ _ _).append _
  have noStatement := not_isStatement_headLine
  rcases (MessageField.delimits_item width (depth + 1)).flatMap _ opens_field
    fields_legible fields_legible'
    (not_opens_enums legible not_isStatement_close (noStatement _) (noStatement _) (noStatement _))
    (not_opens_enums legible' not_isStatement_close (noStatement _) (noStatement _) (noStatement _))
    body_eq with ⟨fields_eq, body_eq⟩
  rcases (Enumeration.delimits_items width (depth + 1)).flatMap (Item.Opens (StartsWith 'e'))
    (fun _ legible => (Enumeration.isBlock_items legible width (depth + 1)).opens fun _ => rfl)
    enums_legible enums_legible'
    (not_opens_messages legible (by simp [StartsWith]) (by simp [StartsWith, Item.headLine])
      (by simp [StartsWith, Item.headLine]))
    (not_opens_messages legible' (by simp [StartsWith]) (by simp [StartsWith, Item.headLine])
      (by simp [StartsWith, Item.headLine]))
    body_eq with ⟨enums_eq, body_eq⟩
  rcases nested_delimits.flatMap (Item.Opens (StartsWith 'm'))
    (fun _ isNested => (isBlock_items isNested.1 width (depth + 1)).opens fun _ => rfl)
    (fun nested nested_mem => ⟨messages_legible nested nested_mem, Or.inl nested_mem⟩)
    (fun nested nested_mem => ⟨messages_legible' nested nested_mem, Or.inr nested_mem⟩)
    (not_opens_oneofs legible (by simp [StartsWith]) (by simp [StartsWith, Item.headLine]))
    (not_opens_oneofs legible' (by simp [StartsWith]) (by simp [StartsWith, Item.headLine]))
    body_eq with ⟨messages_eq, body_eq⟩
  have closed : ∀ rest, ¬Item.Opens (StartsWith 'o') (Item.closeLine width depth :: rest) :=
    fun rest => mt Item.opens_close.mp (by simp [StartsWith])
  rcases (OneOf.delimits_items width (depth + 1)).flatMap (Item.Opens (StartsWith 'o'))
    (fun _ legible => (OneOf.isBlock_items legible width (depth + 1)).opens fun _ => rfl)
    oneofs_legible oneofs_legible' (closed rest) (closed rest') body_eq with
    ⟨oneofs_eq, close_eq⟩
  cases message
  cases message'
  rw [Message.mk.injEq]
  exact ⟨⟨String.toList_inj.mp name_eq, comment_eq, fields_eq, enums_eq, messages_eq, oneofs_eq⟩,
    (List.cons.inj close_eq).2⟩

end

theorem sizeOf_nested {message nested : Message} (nested_mem : nested ∈ message.messages) :
    sizeOf nested < sizeOf message := by
  rcases message with ⟨name, comment, fields, enums, messages, oneofs⟩
  have nested_lt : sizeOf nested < sizeOf messages := List.sizeOf_lt_of_mem nested_mem
  rw [Message.mk.sizeOf_spec]
  omega

theorem delimits_items_of_sizeOf_lt (width bound depth : Nat) :
    Delimits (fun message : Message => message.legible = true ∧ sizeOf message < bound)
      fun message => (message.items depth).flatMap (Item.lines width) := by
  induction bound generalizing depth with
  | zero => exact ⟨fun isValid => absurd isValid.2 (Nat.not_lt_zero _)⟩
  | succ bound ih =>
      constructor
      rintro message message' rest rest' ⟨legible, small⟩ ⟨legible', small'⟩ lines_eq
      refine items_unique ((ih (depth + 1)).mono ?_) legible legible' lines_eq
      rintro nested ⟨nested_legible, nested_mem | nested_mem⟩
      · have nested_small := sizeOf_nested nested_mem
        exact ⟨nested_legible, by omega⟩
      · have nested_small := sizeOf_nested nested_mem
        exact ⟨nested_legible, by omega⟩

theorem delimits_items (width depth : Nat) :
    Delimits (fun message : Message => message.legible = true)
      fun message => (message.items depth).flatMap (Item.lines width) := by
  constructor
  intro message message' rest rest' legible legible' lines_eq
  exact (delimits_items_of_sizeOf_lt width (sizeOf message + sizeOf message' + 1) depth).unique
    ⟨legible, by omega⟩ ⟨legible', by omega⟩ lines_eq

end Message

end ProtoSchema
