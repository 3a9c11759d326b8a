import ProtoSchema.Printing.Printer
import ProtoSchema.Proofs.Output.Retries
import ProtoSchema.Proofs.Printing.FlatText

/-!
# Printing through adapters

Printing writes the layout of a node piece by piece through one adapter per open block. Whatever the
sink does, the outcome is that of one write of the node's flat text: `printTo_eq_writeAll`. What
reaches a sink that takes everything, and what is left of it in a sink that does not, are then
statements about sinks alone.

A layout is described by what it sends to the sink from a given indentation and line state on:
`Layout.Prints`. Two special cases carry the walk over a schema. `Layout.PrintsText` is about
layouts without blocks, which may begin and end anywhere in a line. `Layout.PrintsItems` is about
layouts that begin and end at the start of a line, and only those may be followed or surrounded by a
block, because an adapter takes itself to be at the start of a line when its block is opened.
-/

namespace ProtoSchema

namespace Text

/-- Behind the text a line starts. -/
def EndsLine (text : String) : Prop :=
  ∀ start, startAfter start (bytes text) = true

theorem EndsLine.append {tail : String} (ends : EndsLine tail) (content : String) :
    EndsLine (content ++ tail) := by
  intro start
  rw [bytes_append, startAfter_append]
  exact ends _

theorem endsLine_statement (content : String) : EndsLine (content ++ ";\n") :=
  EndsLine.append (fun _ => rfl) content

end Text

namespace Writer

theorem sink_pop {depth : Nat} (writer : Writer (depth + 1)) : writer.pop.sink = writer.sink := by
  cases writer with
  | layer adapter below => rfl

end Writer

namespace Layout

/-- Below adapters whose widths add up to `indent`, all of them in the line state `start`, the
layout sends `output` to the sink and leaves the adapters in the line state `finish`. -/
def Prints (width : Nat) (layout : Layout) (indent : Nat) (start : Bool) (output : List UInt8)
    (finish : Bool) : Prop :=
  ∀ (widths : List Nat) (sink : Sink), widths.sum = indent →
    Outcome.Tracks Writer.sink (Writer.aligned widths finish)
      (layout.write width (Writer.aligned widths start sink)) (sink.writeAll output)

/-- The layout writes a text, whatever the indentation and the line state. -/
def PrintsText (width : Nat) (layout : Layout) (text : String) : Prop :=
  ∀ indent start, Prints width layout indent start
    (Text.indented indent start (Text.bytes text)) (Text.startAfter start (Text.bytes text))

/-- The layout writes whole lines, those of the given items, inside of `depth` blocks. -/
def PrintsItems (width : Nat) (layout : Layout) (depth : Nat) (items : List Item) : Prop :=
  Prints width layout (width * depth) true (Text.bytes (Item.renderAll width items)) true

variable {width indent depth : Nat} {start middle finish : Bool} {layout first second : Layout}

theorem prints_empty : Prints width empty indent start [] start := by
  intro widths sink _
  rw [Sink.writeAll_nil]
  exact Outcome.Tracks.done (Writer.sink_aligned widths start sink)

theorem Prints.append {output output' : List UInt8}
    (printsFirst : Prints width first indent start output middle)
    (printsSecond : Prints width second indent middle output' finish) :
    Prints width (first ++ second) indent start (output ++ output') finish := by
  intro widths sink sum_eq
  rw [Sink.writeAll_append]
  exact (printsFirst widths sink sum_eq).andThen fun sink => printsSecond widths sink sum_eq

/-- A block that is opened at the start of a line is its body, one width further in. -/
theorem Prints.block {body : Layout} {output : List UInt8}
    (prints : Prints width body (width + indent) true output finish) :
    Prints width (block body) indent true output finish := by
  intro widths sink sum_eq
  have inner := prints (width :: widths) sink (by rw [List.sum_cons, sum_eq])
  refine ⟨inner.halt_eq, ?_, ?_⟩
  · exact (Writer.sink_pop _).trans inner.below_eq
  · intro succeeded
    exact congrArg Writer.pop (inner.state_eq succeeded)

theorem printsText_empty : PrintsText width empty "" := by
  intro indent start
  exact prints_empty

theorem printsText_text (content : String) : PrintsText width (text content) content := by
  intro indent start widths sink sum_eq
  rw [← sum_eq]
  exact Writer.writeAll_tracks widths start (Text.bytes content) sink

theorem PrintsText.append {content content' : String} (printsFirst : PrintsText width first content)
    (printsSecond : PrintsText width second content') :
    PrintsText width (first ++ second) (content ++ content') := by
  intro indent start
  rw [Text.bytes_append, Text.indented_append, Text.startAfter_append]
  exact (printsFirst indent start).append (printsSecond indent _)

theorem printsText_each {α : Type} (members : List α) {layoutOf : α → Layout}
    {textOf : α → String} (prints : ∀ member, PrintsText width (layoutOf member) (textOf member)) :
    PrintsText width (each members layoutOf) (String.join (members.map textOf)) := by
  induction members with
  | nil => exact printsText_empty
  | cons member rest ih =>
      rw [List.map_cons, String.join_cons]
      exact (prints member).append ih

theorem printsText_pieces (contents : List String) :
    PrintsText width (pieces contents) (String.join contents) := by
  have prints : PrintsText width (pieces contents) (String.join (contents.map fun text => text)) :=
    printsText_each contents printsText_text
  rwa [List.map_id'] at prints

theorem printsItems_empty : PrintsItems width empty depth [] := by
  rw [PrintsItems, Item.renderAll_nil]
  exact prints_empty

theorem PrintsItems.append {items items' : List Item}
    (printsFirst : PrintsItems width first depth items)
    (printsSecond : PrintsItems width second depth items') :
    PrintsItems width (first ++ second) depth (items ++ items') := by
  rw [PrintsItems, Item.renderAll_append, Text.bytes_append]
  exact Prints.append printsFirst printsSecond

theorem PrintsText.congr {content content' : String} (prints : PrintsText width layout content)
    (content_eq : content = content') : PrintsText width layout content' := by
  rwa [content_eq] at prints

/-- A text that is at the start of a line before it and after it is an item. -/
theorem PrintsText.item_of_startAfter {content : String} (prints : PrintsText width layout content)
    (ends : Text.startAfter true (Text.bytes content) = true) :
    PrintsItems width layout depth [⟨depth, content⟩] := by
  have at_depth := prints (width * depth) true
  rw [ends] at at_depth
  rw [PrintsItems, Item.bytes_renderAll_singleton]
  exact at_depth

theorem PrintsText.item {content : String} (prints : PrintsText width layout content)
    (ends : Text.EndsLine content) : PrintsItems width layout depth [⟨depth, content⟩] :=
  prints.item_of_startAfter (ends true)

theorem printsItems_each {α : Type} (members : List α) {layoutOf : α → Layout}
    {itemsOf : α → List Item}
    (prints : ∀ member, PrintsItems width (layoutOf member) depth (itemsOf member)) :
    PrintsItems width (each members layoutOf) depth (members.flatMap itemsOf) := by
  induction members with
  | nil => exact printsItems_empty
  | cons member rest ih => exact (prints member).append ih

theorem printsItems_each_map {α : Type} (members : List α) {layoutOf : α → Layout}
    {itemOf : α → Item}
    (prints : ∀ member, PrintsItems width (layoutOf member) depth [itemOf member]) :
    PrintsItems width (each members layoutOf) depth (members.map itemOf) := by
  rw [List.map_eq_flatMap]
  exact printsItems_each members prints

theorem PrintsItems.block {body : Layout} {items : List Item}
    (prints : PrintsItems width body (depth + 1) items) :
    PrintsItems width (block body) depth items := by
  rw [PrintsItems, Nat.mul_succ, Nat.add_comm] at prints
  exact Prints.block prints

/-- A declaration writes its head, its body one block further in, and its closing brace. -/
theorem printsItems_declaration {body : Layout} {items : List Item} {comment : Comment}
    (printsComment : PrintsText width comment.layout comment.flat) (keyword name : String)
    (printsBody : PrintsItems width body (depth + 1) items) :
    PrintsItems width (declaration comment keyword name body) depth
      ([.head depth comment keyword name] ++ items ++ [.close depth]) := by
  have head : PrintsText width (comment.layout ++ pieces [keyword, name, " \x7b\n"])
      (comment.flat ++ keyword ++ name ++ " \x7b\n") :=
    (printsComment.append (printsText_pieces _)).congr (by simp [String.append_assoc])
  have head_ends : Text.EndsLine (comment.flat ++ keyword ++ name ++ " \x7b\n") :=
    Text.EndsLine.append (fun _ => rfl) _
  have close : PrintsItems width (line "\x7d") depth [.close depth] :=
    (printsText_text "\x7d\n").item fun _ => rfl
  exact ((head.item head_ends).append printsBody.block).append close

end Layout

open Layout

variable {width : Nat}

theorem Comment.layout_prints (comment : Comment) :
    PrintsText width comment.layout comment.flat := by
  apply printsText_each
  intro line
  exact (printsText_pieces _).congr (by simp [String.append_assoc])

theorem Setting.entry_prints (setting : Setting) : PrintsText width setting.entry setting.flat :=
  (printsText_pieces _).congr (by simp [Setting.flat, String.append_assoc])

theorem Setting.statement_prints (setting : Setting) (depth : Nat) :
    PrintsItems width setting.statement depth [setting.item depth] := by
  have prints : PrintsText width setting.statement (setting.flat ++ ";\n") :=
    (printsText_pieces _).congr (by simp [Setting.flat, String.append_assoc])
  exact prints.item (Text.endsLine_statement _)

/-- A separator before every setting but the first puts it between neighbours. -/
theorem Setting.intercalate_flat (first : Setting) (rest : List Setting) :
    ", ".intercalate (first.flat :: rest.map Setting.flat) =
      first.flat ++ String.join (rest.map fun setting => ", " ++ setting.flat) := by
  induction rest generalizing first with
  | nil => simp
  | cons second rest ih =>
      rw [List.map_cons, String.intercalate_cons_cons, ih]
      simp [String.append_assoc]

theorem Setting.list_prints (settings : List Setting) :
    PrintsText width (Setting.list settings) (Setting.flatList settings) := by
  cases settings with
  | nil => exact printsText_empty
  | cons first rest =>
      have entries : PrintsText width (.each rest fun setting => .text ", " ++ setting.entry)
          (String.join (rest.map fun setting => ", " ++ setting.flat)) :=
        printsText_each rest fun setting => (printsText_text ", ").append setting.entry_prints
      have prints := (((printsText_text " [").append first.entry_prints).append entries).append
        (printsText_text "]")
      exact prints.congr (by simp [Setting.flatList, Setting.intercalate_flat, String.append_assoc])

theorem MessageField.layout_prints (field : MessageField) (depth : Nat) :
    PrintsItems width field.layout depth [field.item depth] := by
  have mark : PrintsText width (if field.repeated then .text "repeated " else .empty)
      (if field.repeated then "repeated " else "") := by
    cases field.repeated
    · exact printsText_empty
    · exact printsText_text "repeated "
  have prints : PrintsText width field.layout (field.item depth).text :=
    ((((field.comment.layout_prints.append mark).append (printsText_pieces _)).append
      (Setting.list_prints field.options)).append (printsText_text ";\n")).congr
      (by simp [MessageField.item, String.append_assoc])
  exact prints.item (Text.endsLine_statement _)

theorem OneOfField.layout_prints (field : OneOfField) (depth : Nat) :
    PrintsItems width field.layout depth [field.item depth] := by
  have prints : PrintsText width field.layout (field.item depth).text :=
    (((field.comment.layout_prints.append (printsText_pieces _)).append
      (Setting.list_prints field.options)).append (printsText_text ";\n")).congr
      (by simp [OneOfField.item, String.append_assoc])
  exact prints.item (Text.endsLine_statement _)

theorem EnumValue.layout_prints (value : EnumValue) (depth : Nat) :
    PrintsItems width value.layout depth [value.item depth] := by
  have prints : PrintsText width value.layout (value.item depth).text :=
    (((value.comment.layout_prints.append (printsText_pieces _)).append
      (Setting.list_prints value.options)).append (printsText_text ";\n")).congr
      (by simp [EnumValue.item, String.append_assoc])
  exact prints.item (Text.endsLine_statement _)

theorem ReturnType.layout_prints (type : ReturnType) : PrintsText width type.layout type.flat :=
  (printsText_pieces _).congr (by simp [ReturnType.flat, String.append_assoc])

theorem Rpc.layout_prints (rpc : Rpc) (depth : Nat) :
    PrintsItems width rpc.layout depth [rpc.item depth] := by
  have prints : PrintsText width rpc.layout (rpc.item depth).text :=
    (((((rpc.comment.layout_prints.append (printsText_pieces _)).append
      rpc.input.layout_prints).append (printsText_text " returns ")).append
      rpc.output.layout_prints).append (printsText_text ";\n")).congr
      (by simp [Rpc.item, String.append_assoc])
  exact prints.item (Text.endsLine_statement _)

theorem OneOf.layout_prints (oneof : OneOf) (depth : Nat) :
    PrintsItems width oneof.layout depth (oneof.items depth) :=
  printsItems_declaration oneof.comment.layout_prints "oneof " oneof.name
    (printsItems_each_map oneof.fields fun field => field.layout_prints (depth + 1))

theorem Enumeration.layout_prints (enumeration : Enumeration) (depth : Nat) :
    PrintsItems width enumeration.layout depth (enumeration.items depth) := by
  have options : PrintsItems width (.each enumeration.options Setting.statement) (depth + 1)
      (enumeration.options.map (Setting.item (depth + 1))) :=
    printsItems_each_map _ fun setting => setting.statement_prints (depth + 1)
  have values : PrintsItems width (.each enumeration.values EnumValue.layout) (depth + 1)
      (enumeration.values.map (EnumValue.item (depth + 1))) :=
    printsItems_each_map _ fun value => value.layout_prints (depth + 1)
  have prints := printsItems_declaration enumeration.comment.layout_prints "enum "
    enumeration.name (options.append values)
  simpa [Enumeration.items, Enumeration.layout] using prints

theorem Service.layout_prints (service : Service) (depth : Nat) :
    PrintsItems width service.layout depth (service.items depth) := by
  have options : PrintsItems width (.each service.options Setting.statement) (depth + 1)
      (service.options.map (Setting.item (depth + 1))) :=
    printsItems_each_map _ fun setting => setting.statement_prints (depth + 1)
  have rpcs : PrintsItems width (.each service.rpcs Rpc.layout) (depth + 1)
      (service.rpcs.map (Rpc.item (depth + 1))) :=
    printsItems_each_map _ fun rpc => rpc.layout_prints (depth + 1)
  have prints := printsItems_declaration service.comment.layout_prints "service "
    service.name (options.append rpcs)
  simpa [Service.items, Service.layout] using prints

mutual

theorem Message.layout_prints (message : Message) (depth : Nat) :
    PrintsItems width message.layout depth (message.items depth) := by
  rcases message with ⟨name, comment, fields, enums, messages, oneofs⟩
  have ofFields : PrintsItems width (.each fields MessageField.layout) (depth + 1)
      (fields.map (MessageField.item (depth + 1))) :=
    printsItems_each_map _ fun field => field.layout_prints (depth + 1)
  have ofEnums : PrintsItems width (.each enums Enumeration.layout) (depth + 1)
      (enums.flatMap (Enumeration.items (depth + 1))) :=
    printsItems_each _ fun enumeration => enumeration.layout_prints (depth + 1)
  have ofMessages := Message.layoutAll_prints messages (depth + 1)
  have ofOneofs : PrintsItems width (.each oneofs OneOf.layout) (depth + 1)
      (oneofs.flatMap (OneOf.items (depth + 1))) :=
    printsItems_each _ fun oneof => oneof.layout_prints (depth + 1)
  have prints := printsItems_declaration comment.layout_prints "message " name
    (((ofFields.append ofEnums).append ofMessages).append ofOneofs)
  simpa [Message.items, Message.layout] using prints

theorem Message.layoutAll_prints (messages : List Message) (depth : Nat) :
    PrintsItems width (Message.layoutAll messages) depth (Message.itemsOfAll depth messages) := by
  cases messages with
  | nil => exact printsItems_empty
  | cons first rest =>
      exact (Message.layout_prints first depth).append (Message.layoutAll_prints rest depth)

end

theorem Dialect.layout_prints (dialect : Dialect) :
    PrintsItems width dialect.layout 0 [dialect.item] := by
  have prints : PrintsText width dialect.layout ("syntax = \"" ++ dialect.name ++ "\";\n") :=
    (printsText_pieces _).congr (by simp [String.append_assoc])
  exact prints.item (Text.EndsLine.append (fun _ => rfl) _)

theorem Package.layout_prints (package : Package) :
    PrintsItems width package.layout 0 [package.item] := by
  have prints : PrintsText width package.layout ("package " ++ package.name ++ ";\n") :=
    (printsText_pieces _).congr (by simp [String.append_assoc])
  exact prints.item (Text.endsLine_statement _)

theorem Import.layout_prints (statement : Import) :
    PrintsItems width statement.layout 0 [statement.item] := by
  have prints : PrintsText width statement.layout statement.item.text := by
    rcases statement with ⟨path, visibility⟩
    cases visibility <;>
      exact (printsText_pieces _).congr
        (by simp [Import.item, Visibility.keyword, ← String.append_assoc])
  exact prints.item (Text.EndsLine.append (fun _ => rfl) _)

theorem Comment.layout_printsItems (comment : Comment) :
    PrintsItems width comment.layout 0 [⟨0, comment.flat⟩] := by
  have ends : Text.startAfter true (Text.bytes comment.flat) = true := by
    cases comment.lines.eq_nil_or_concat with
    | inl lines_eq => simp [Comment.flat, lines_eq, Text.bytes]
    | inr snoc =>
        rcases snoc with ⟨lines, line, lines_eq⟩
        have flat_eq : comment.flat =
            String.join (lines.map fun line => "// " ++ line ++ "\n") ++ "// " ++ line ++ "\n" := by
          simp [Comment.flat, lines_eq, String.append_assoc]
        rw [flat_eq]
        exact Text.EndsLine.append (fun _ => rfl) _ true
  exact comment.layout_prints.item_of_startAfter ends

/-- A declaration of a file stands behind an empty line. -/
theorem printsItems_blank {layout : Layout} {items : List Item}
    (prints : PrintsItems width layout 0 items) :
    PrintsItems width (.line "" ++ layout) 0 (.blank :: items) := by
  have blank : PrintsItems width (.line "") 0 [.blank] :=
    (printsText_text "\n").item fun _ => rfl
  exact blank.append prints

theorem File.layout_prints (file : File) : PrintsItems width file.layout 0 file.items := by
  have package : PrintsItems width
      (if file.package.isEmpty then .empty else file.package.layout) 0
      (if file.package.name = "" then [] else [file.package.item]) := by
    by_cases unnamed : file.package.name = ""
    · simpa [Package.isEmpty, unnamed] using printsItems_empty
    · simpa [Package.isEmpty, unnamed] using file.package.layout_prints
  have imports : PrintsItems width (.each file.imports Import.layout) 0
      (file.imports.map Import.item) :=
    printsItems_each_map _ fun statement => statement.layout_prints
  have options : PrintsItems width (.each file.options Setting.statement) 0
      (file.options.map (Setting.item 0)) :=
    printsItems_each_map _ fun setting => setting.statement_prints 0
  have messages : PrintsItems width (.each file.messages fun message => .line "" ++ message.layout)
      0 (file.messages.flatMap fun message => .blank :: message.items 0) :=
    printsItems_each _ fun message => printsItems_blank (message.layout_prints 0)
  have enums : PrintsItems width
      (.each file.enums fun enumeration => .line "" ++ enumeration.layout) 0
      (file.enums.flatMap fun enumeration => .blank :: enumeration.items 0) :=
    printsItems_each _ fun enumeration => printsItems_blank (enumeration.layout_prints 0)
  have services : PrintsItems width (.each file.services fun service => .line "" ++ service.layout)
      0 (file.services.flatMap fun service => .blank :: service.items 0) :=
    printsItems_each _ fun service => printsItems_blank (service.layout_prints 0)
  have prints := ((((((file.comment.layout_printsItems.append file.dialect.layout_prints).append
    imports).append package).append options).append messages).append enums).append services
  exact prints

/-- A layout without blocks may leave its last line open if nothing follows. -/
theorem prints_of_text {layout : Layout} {text : String} (prints : PrintsText width layout text) :
    ∃ finish, Prints width layout 0 true
      (Text.bytes (Item.renderAll width [⟨0, text⟩])) finish := by
  refine ⟨Text.startAfter true (Text.bytes text), ?_⟩
  rw [Item.bytes_renderAll_singleton]
  exact prints 0 true

theorem Node.layout_prints (width : Nat) (node : Node) :
    ∃ finish, Prints width node.layout 0 true (Text.bytes (node.flatText width)) finish := by
  have ofItems : ∀ {layout items}, PrintsItems width layout 0 items →
      ∃ finish, Prints width layout 0 true (Text.bytes (Item.renderAll width items)) finish :=
    fun prints => ⟨true, prints⟩
  cases node with
  | file file => exact ofItems file.layout_prints
  | dialect dialect => exact ofItems dialect.layout_prints
  | imported statement => exact ofItems statement.layout_prints
  | package package => exact ofItems package.layout_prints
  | option setting => exact ofItems (setting.statement_prints 0)
  | message message => exact ofItems (message.layout_prints 0)
  | messageField field => exact ofItems (field.layout_prints 0)
  | oneof oneof => exact ofItems (oneof.layout_prints 0)
  | oneofField field => exact ofItems (field.layout_prints 0)
  | fieldOption setting => exact prints_of_text setting.entry_prints
  | enum enumeration => exact ofItems (enumeration.layout_prints 0)
  | enumValue value => exact ofItems (value.layout_prints 0)
  | enumValueOption setting => exact prints_of_text setting.entry_prints
  | service service => exact ofItems (service.layout_prints 0)
  | rpc rpc => exact ofItems (rpc.layout_prints 0)
  | returnType type => exact prints_of_text type.layout_prints
  | comment comment => exact ofItems comment.layout_printsItems

/-- Printing a node to any sink is one write of the flat text of the node. -/
theorem printTo_eq_writeAll (config : Config) (node : Node) (sink : Sink) :
    printTo config (some node) sink =
      sink.writeAll (Text.bytes (node.flatText config.indent.toNat)) := by
  rcases node.layout_prints config.indent.toNat with ⟨finish, prints⟩
  have tracks := prints [] sink rfl
  have halt_eq := tracks.halt_eq
  have sink_eq := tracks.below_eq
  simp only [printTo, Outcome.map]
  cases flat : sink.writeAll (Text.bytes (node.flatText config.indent.toNat)) with
  | mk state halt =>
      rw [flat] at halt_eq sink_eq
      exact congr (congrArg Outcome.mk sink_eq) halt_eq

/-- What a node prints to a sink that takes everything. -/
theorem rendering_some (config : Config) (node : Node) :
    rendering config (some node) = Text.bytes (node.flatText config.indent.toNat) := by
  rw [rendering, printTo_eq_writeAll, Sink.writeAll_of_le (by simp [Sink.capacity, Sink.room])]
  simp [Outcome.done]

theorem printTo_eq_writeAll_rendering (config : Config) (node : Option Node) (sink : Sink) :
    printTo config node sink = sink.writeAll (rendering config node) := by
  cases node with
  | none => simp [rendering, printTo, Outcome.done]
  | some node =>
      rw [rendering_some]
      exact printTo_eq_writeAll config node sink

/-- A node prints its flat text to every sink that takes all bytes, however few at a time. -/
theorem printTo_accepting_sink (config : Config) (node : Node) (sink : Sink)
    (unlimited : sink.limit = none) (progress : sink.chunk ≠ some 0) :
    printTo config (some node) sink =
      .done { sink with
        written := sink.written ++ Text.bytes (node.flatText config.indent.toNat) } := by
  have capacity_eq : sink.capacity = none := by
    simp [Sink.capacity, Sink.room, unlimited, progress]
  rw [printTo_eq_writeAll, Sink.writeAll_of_le (by simp [capacity_eq])]
  rfl

/-- A message in a message, with texts that break lines at both depths, goes out byte by byte. -/
theorem printTo_accepting_sink_nested :
    let inner : Message := ⟨"a\nb", ⟨["", "c\n\nd"]⟩, [], [], [], []⟩
    let outer : Message := ⟨"Outer", {}, [], [], [inner], []⟩
    let sink : Sink := { chunk := some 1 }
    printTo ⟨3⟩ (some (.message outer)) sink =
      .done { sink with written := (Text.bytes ("message Outer \x7b\n   // \n   // c\n\n   d\n" ++
        "   message a\n   b \x7b\n   \x7d\n\x7d\n")).toArray } := by
  intro inner outer sink
  have printed := printTo_accepting_sink ⟨3⟩ (.message outer) sink rfl (by decide)
  rw [printed]
  decide +kernel

/-- A sink of limited capacity keeps the beginning of what is printed. Printing comes to a halt
exactly if something is left over, with the failure of the sink. If the sink interrupts instead of
failing, then the call is made again for ever, and no number of calls brings in what is left. -/
theorem printTo_limited_sink (config : Config) (node : Option Node) (sink : Sink) (limit : Nat)
    (fresh : sink.written = #[]) (limited : sink.limit = some limit)
    (progress : sink.chunk ≠ some 0) :
    let output := rendering config node
    let outcome := printTo config node sink
    outcome.state = { sink with written := (output.take (min limit output.length)).toArray } ∧
      (outcome.halt = none ↔ output.length ≤ limit) ∧
      (limit < output.length →
        outcome.halt = some (match sink.refusal with
          | .fail error => if error.kind = .interrupted then .endless else .failed error
          | .stall => .failed ⟨.writeZero, "failed to write whole buffer"⟩)) ∧
      (outcome.halt = some .endless →
        ∀ calls, outcome.state.writeWithin calls (output.drop limit) = none) := by
  intro output outcome
  have outcome_eq : outcome = sink.writeAll output :=
    printTo_eq_writeAll_rendering config node sink
  have capacity_eq : sink.capacity = some limit := by
    simp [Sink.capacity, Sink.room, fresh, limited, progress]
  have hold_eq : ∀ content, sink.hold content = { sink with written := content.toArray } := by
    intro content
    simp [Sink.hold, fresh]
  rw [outcome_eq]
  by_cases fits : output.length ≤ limit
  · rw [Sink.writeAll_of_le (by simpa [capacity_eq] using fits), hold_eq]
    refine ⟨?_, ?_, ?_, ?_⟩
    · simp [Outcome.done, Nat.min_eq_right fits]
    · simp [Outcome.done, fits]
    · intro overflow
      omega
    · intro endless
      cases endless
  · have overflow : limit < output.length := by omega
    have again := Sink.writeAll_leftover capacity_eq overflow
    rw [Sink.writeAll_of_lt capacity_eq overflow] at again ⊢
    refine ⟨?_, ?_, ?_, ?_⟩
    · simp [Outcome.halted, hold_eq, Nat.min_eq_left (Nat.le_of_lt overflow)]
    · simp [Outcome.halted, fits]
    · intro _
      rw [Outcome.halted, Sink.obstacle_of_progress progress]
      cases sink.refusal <;> rfl
    · -- What is left over meets the same obstacle again.
      intro endless
      apply Sink.halt_eq_endless_iff.mp
      rw [again]
      exact endless

/-- The capacity ends inside the second indentation of a nested field, and the sink takes nothing
more without saying why. -/
theorem printTo_limited_sink_stall :
    let inner : Message := ⟨"B", {}, [.singular ScalarType.bool "x" 1], [], [], []⟩
    let outer : Message := ⟨"A", {}, [], [], [inner], []⟩
    let sink : Sink := { limit := some 29, chunk := some 4, refusal := .stall }
    let outcome := printTo {} (some (.message outer)) sink
    outcome.state.written.toList = Text.bytes "message A \x7b\n  message B \x7b\n   " ∧
      outcome.halt = some (.failed ⟨.writeZero, "failed to write whole buffer"⟩) := by
  intro inner outer sink
  have printed := printTo_limited_sink {} (some (.message outer)) sink 29 rfl rfl (by decide)
  refine ⟨?_, printed.2.2.1 (by decide +kernel)⟩
  rw [printed.1]
  decide +kernel

/-- Not every error of a full sink is passed on. Four bytes of a comment are written, and the sink
interrupts whatever else is offered to it. -/
theorem printTo_interrupted_endless :
    let error : WriteError := ⟨.interrupted, "interrupted"⟩
    let sink : Sink := { limit := some 4, refusal := .fail error }
    let node : Node := .comment ⟨["note"]⟩
    let outcome := printTo {} (some node) sink
    4 < (rendering {} (some node)).length ∧
      outcome.state.written.toList = Text.bytes "// n" ∧
      outcome.halt = some .endless ∧ outcome.halt ≠ some (.failed error) ∧
      ∀ calls, outcome.state.writeWithin calls (Text.bytes "ote\n") = none := by
  intro error sink node outcome
  have halt_eq : outcome.halt = some .endless := by decide +kernel
  refine ⟨by decide +kernel, by decide +kernel, halt_eq, ?_, ?_⟩
  · rw [halt_eq]
    simp
  · apply Sink.halt_eq_endless_iff.mp
    decide +kernel

end ProtoSchema
