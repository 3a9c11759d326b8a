import ProtoSchema.Codec.Kind
import ProtoSchema.Proofs.Codec.Records

/-!
# Round trip

Every value of every kind is read back from the JSON text that is written for it, if the containers
of that text are nested no deeper than a reader goes.

For each type there is one statement, `Decoder.Restores`: a reader gives back what a writer wrote
whenever it has room for the depth of it. For a record it follows from what each of its fields
carries; messages need an induction on the room, since they hold messages.
-/

namespace ProtoSchema

open RecordField

/-- With room for the depth of a written value, a reader gives the value back. -/
def Decoder.Restores {α : Type} (read : Nat → Decoder α) (toJson : α → Json) : Prop :=
  ∀ (room : Nat) (value : α), (toJson value).depth ≤ room →
    read room (toJson value).toDoc = .ok value

namespace Decoder

theorem integer_int {least greatest value : Int} (expected : Expected)
    (bounds : -9223372036854775808 ≤ least ∧ greatest ≤ 18446744073709551615)
    (inRange : least ≤ value ∧ value ≤ greatest) :
    integer least greatest expected (Json.int value).toDoc = .ok value := by
  rw [Json.toDoc, Numeral.number_ofInt (by omega) (by omega), integer, if_pos inRange]

theorem unsigned32_int (value : UInt32) :
    unsigned32 (Json.int value.toNat).toDoc = .ok value := by
  have bound := value.toNat_lt
  rw [unsigned32, integer_int _ (by omega) (by omega)]
  simp [Except.map]

theorem signed32_int (value : Int32) : signed32 (Json.int value.toInt).toDoc = .ok value := by
  have least := value.le_toInt
  have greatest := value.toInt_lt
  rw [signed32, integer_int _ (by omega) (by omega)]
  simp [Except.map]

theorem unsigned64_int (value : UInt64) :
    unsigned64 (Json.int value.toNat).toDoc = .ok value := by
  have bound := value.toNat_lt
  rw [unsigned64, integer_int _ (by omega) (by omega)]
  simp [Except.map]

theorem items_map {α : Type} {read : Decoder α} {toJson : α → Json} {values : List α}
    (restored : ∀ value ∈ values, read (toJson value).toDoc = .ok value) :
    items read (Json.itemDocs (values.map toJson)) = .ok values := by
  induction values with
  | nil => rfl
  | cons value rest ih =>
      rw [List.map_cons, Json.itemDocs, items, restored value List.mem_cons_self,
        ih fun value value_mem => restored value (List.mem_cons_of_mem _ value_mem)]
      rfl

theorem list_arr {α : Type} {room : Nat} {read : Decoder α} {toJson : α → Json} {values : List α}
    (opens : 0 < room) (restored : ∀ value ∈ values, read (toJson value).toDoc = .ok value) :
    list room read (Json.arr (values.map toJson)).toDoc = .ok values := by
  rw [Json.toDoc, list, if_neg (by omega), items_map restored]
  rfl

end Decoder

namespace RecordField

variable {α : Type}

theorem carries_required (name : String) {read : Decoder α} {json : Json} {value : α}
    (read_eq : read json.toDoc = .ok value) : (required name read).Carries [(name, json)] value :=
  .present read_eq

theorem carries_optional (name : String) (fallback : α) {read : Decoder α} {json : Json} {value : α}
    (read_eq : read json.toDoc = .ok value) :
    (optional name fallback read).Carries [(name, json)] value :=
  .present read_eq

theorem carries_text (name text : String) :
    (required name .text).Carries [(name, .str text)] text :=
  carries_required name rfl

theorem carries_boolean (name : String) (value : Bool) :
    (optional name false .boolean).Carries [(name, .bool value)] value :=
  carries_optional name false rfl

theorem carries_unsigned32 (name : String) (value : UInt32) :
    (required name .unsigned32).Carries [(name, .int value.toNat)] value :=
  carries_required name (Decoder.unsigned32_int value)

theorem carries_restored {read : Nat → Decoder α} {toJson : α → Json}
    (restores : Decoder.Restores read toJson) (name : String) (value : α) {room : Nat}
    (fits : Json.memberDepth [(name, toJson value)] ≤ room) :
    (required name (read room)).Carries [(name, toJson value)] value := by
  rw [Json.memberDepth, Nat.max_le] at fits
  exact carries_required name (restores room value fits.1)

/-- A list is left out if it is empty, which is its default. -/
theorem carries_list {read : Decoder α} {toJson : α → Json} {itemRoom : Nat}
    (restored : ∀ value, (toJson value).depth ≤ itemRoom → read (toJson value).toDoc = .ok value)
    (name : String) (values : List α) {room : Nat} (enough : room ≤ itemRoom + 1)
    (fits : Json.memberDepth (Json.listMember name (values.map toJson)) ≤ room) :
    (optional name [] (.list room read)).Carries
      (Json.listMember name (values.map toJson)) values := by
  cases values with
  | nil => exact .absent rfl
  | cons first rest =>
      rw [Json.memberDepth_listMember name (by simp)] at fits
      refine .present (Decoder.list_arr (by omega) ?_)
      intro value value_mem
      apply restored
      have json_mem : toJson value ∈ (first :: rest).map toJson := List.mem_map_of_mem value_mem
      have depth_le := Json.depth_le_itemDepth json_mem
      omega

end RecordField

theorem Comment.restores : Decoder.Restores Comment.read Comment.toJson := by
  intro room comment fits
  rw [Comment.toJson, Json.depth] at fits
  rw [Comment.read, Comment.toJson, Decoder.list_arr (by omega) fun _ _ => rfl]
  rfl

theorem Comment.carries (comment : Comment) {room : Nat}
    (fits : Json.memberDepth comment.member ≤ room) :
    (Comment.field room).Carries comment.member comment := by
  rcases comment with ⟨lines⟩
  cases lines with
  | nil => exact .absent rfl
  | cons first rest =>
      refine .present (Comment.restores room ⟨first :: rest⟩ ?_)
      simpa [Comment.member, Comment.toJson, Json.listMember, Json.memberDepth] using fits

theorem Setting.restores (title : String) :
    Decoder.Restores (Setting.read title) Setting.toJson := by
  intro room setting fits
  have written : Row.Written (room - 1) _ _ _ :=
    .cons (fun _ => carries_text "name" setting.name)
      (.cons (fun _ => carries_text "value" setting.value) .nil)
  have distinct : ["name", "value"].Nodup := by decide
  exact written.record_eq rfl distinct fits _ _

theorem Setting.carries (title : String) (settings : List Setting) {room : Nat}
    (fits : Json.memberDepth (Setting.member settings) ≤ room) :
    (Setting.field title room).Carries (Setting.member settings) settings :=
  carries_list (Setting.restores title (room - 1)) "options" settings (by omega) fits

theorem ScalarType.restores : Decoder.Restores ScalarType.read ScalarType.toJson := by
  intro room scalar _
  cases scalar <;> rfl

theorem Dialect.read_toJson (dialect : Dialect) :
    Dialect.read dialect.toJson.toDoc = .ok dialect := by
  cases dialect
  rfl

theorem Package.read_toJson (package : Package) :
    Package.read package.toJson.toDoc = .ok package := rfl

/-- The package is left out if it is empty, which is the default. -/
theorem Package.carries (package : Package) :
    (optional "package" {} Package.read).Carries (Json.textMember "package" package.name)
      package := by
  rcases package with ⟨name⟩
  by_cases empty : name = ""
  · subst empty
    exact .absent rfl
  · have member_eq : Json.textMember "package" name = [("package", .str name)] := by
      simp [Json.textMember, empty]
    rw [member_eq]
    exact .present rfl

theorem Visibility.restores : Decoder.Restores Visibility.read Visibility.toJson := by
  intro room visibility _
  cases visibility <;> rfl

theorem Import.restores : Decoder.Restores Import.read Import.toJson := by
  intro room statement fits
  have visibility_eq := Visibility.restores (room - 1) statement.visibility (Nat.zero_le _)
  have written : Row.Written (room - 1) _ _ _ :=
    .cons (fun _ => carries_text "path" statement.path)
    (.cons (fun _ => carries_optional "visibility" .unspecified visibility_eq) .nil)
  have distinct : ["path", "visibility"].Nodup := by decide
  exact written.record_eq rfl distinct fits _ _

theorem MessageField.restores : Decoder.Restores MessageField.read MessageField.toJson := by
  intro room field fits
  have written : Row.Written (room - 1) _ _ _ :=
    .cons (fun _ => carries_boolean "repeated" field.repeated)
    (.cons (fun _ => carries_text "type" field.typeName)
    (.cons (fun _ => carries_text "name" field.name)
    (.cons (fun _ => carries_unsigned32 "index" field.index)
    (.cons (Setting.carries Setting.fieldTitle field.options)
    (.cons field.comment.carries .nil)))))
  have distinct : ["repeated", "type", "name", "index", "options", "comment"].Nodup := by decide
  refine written.record_eq ?_ distinct fits _ _
  simp [MessageField.toJson]

theorem OneOfField.restores : Decoder.Restores OneOfField.read OneOfField.toJson := by
  intro room field fits
  have written : Row.Written (room - 1) _ _ _ :=
    .cons (fun _ => carries_text "type" field.typeName)
    (.cons (fun _ => carries_text "name" field.name)
    (.cons (fun _ => carries_unsigned32 "index" field.index)
    (.cons field.comment.carries
    (.cons (Setting.carries Setting.plainTitle field.options) .nil))))
  have distinct : ["type", "name", "index", "comment", "options"].Nodup := by decide
  refine written.record_eq ?_ distinct fits _ _
  simp [OneOfField.toJson]

theorem OneOf.restores : Decoder.Restores OneOf.read OneOf.toJson := by
  intro room oneof fits
  have written : Row.Written (room - 1) _ _ _ :=
    .cons (fun _ => carries_text "name" oneof.name)
    (.cons oneof.comment.carries
    (.cons (carries_list (OneOfField.restores (room - 2)) "fields" oneof.fields (by omega)) .nil))
  have distinct : ["name", "comment", "fields"].Nodup := by decide
  refine written.record_eq ?_ distinct fits _ _
  simp [OneOf.toJson]

theorem EnumValue.restores : Decoder.Restores EnumValue.read EnumValue.toJson := by
  intro room value fits
  have index_eq := Decoder.signed32_int value.index
  have written : Row.Written (room - 1) _ _ _ :=
    .cons (fun _ => carries_text "name" value.name)
    (.cons (fun _ => carries_required "index" index_eq)
    (.cons (Setting.carries Setting.enumValueTitle value.options)
    (.cons value.comment.carries .nil)))
  have distinct : ["name", "index", "options", "comment"].Nodup := by decide
  refine written.record_eq ?_ distinct fits _ _
  simp [EnumValue.toJson]

theorem Enumeration.restores : Decoder.Restores Enumeration.read Enumeration.toJson := by
  intro room enumeration fits
  have written : Row.Written (room - 1) _ _ _ :=
    .cons (fun _ => carries_text "name" enumeration.name)
    (.cons (Setting.carries Setting.plainTitle enumeration.options)
    (.cons (carries_list (EnumValue.restores (room - 2)) "fields" enumeration.values (by omega))
    (.cons enumeration.comment.carries .nil)))
  have distinct : ["name", "options", "fields", "comment"].Nodup := by decide
  refine written.record_eq ?_ distinct fits _ _
  simp [Enumeration.toJson]

namespace Message

theorem listToJson_eq_map (messages : List Message) :
    listToJson messages = messages.map toJson := by
  induction messages with
  | nil => rfl
  | cons message rest ih => rw [listToJson, ih, List.map_cons]

theorem depth_pos (message : Message) : 0 < message.toJson.depth := by
  rcases message with ⟨name, comment, fields, enums, messages, oneofs⟩
  rw [toJson, Json.depth]
  omega

/-- A message is read back if the messages in its body are. -/
theorem readWith_toJson {room : Nat} {nested : Decoder Message}
    (restored : ∀ message : Message, message.toJson.depth ≤ room - 2 →
      nested message.toJson.toDoc = .ok message)
    (message : Message) (fits : message.toJson.depth ≤ room) :
    readWith room nested message.toJson.toDoc = .ok message := by
  rcases message with ⟨name, comment, fields, enums, messages, oneofs⟩
  have written : Row.Written (room - 1) (recordFields room nested) _ _ :=
    .cons (fun _ => carries_text "name" name)
    (.cons comment.carries
    (.cons (carries_list (MessageField.restores (room - 2)) "fields" fields (by omega))
    (.cons (carries_list (Enumeration.restores (room - 2)) "enums" enums (by omega))
    (.cons (carries_list restored "messages" messages (by omega))
    (.cons (carries_list (OneOf.restores (room - 2)) "oneofs" oneofs (by omega)) .nil)))))
  have distinct : ["name", "comment", "fields", "enums", "messages", "oneofs"].Nodup := by decide
  refine written.record_eq ?_ distinct fits _ _
  simp [toJson, listToJson_eq_map]

theorem restores : Decoder.Restores read toJson := by
  intro room
  induction room using read.induct with
  | case1 =>
      apply readWith_toJson
      intro message fits
      exact absurd message.depth_pos (by omega)
  | case2 =>
      apply readWith_toJson
      intro message fits
      exact absurd message.depth_pos (by omega)
  | case3 room ih => exact readWith_toJson ih

end Message

theorem ReturnType.restores : Decoder.Restores ReturnType.read ReturnType.toJson := by
  intro room type fits
  have written : Row.Written (room - 1) _ _ _ :=
    .cons (fun _ => carries_text "name" type.name)
    (.cons (fun _ => carries_boolean "streamable" type.streamed) .nil)
  have distinct : ["name", "streamable"].Nodup := by decide
  exact written.record_eq rfl distinct fits _ _

theorem Rpc.restores : Decoder.Restores Rpc.read Rpc.toJson := by
  intro room rpc fits
  have written : Row.Written (room - 1) _ _ _ :=
    .cons (fun _ => carries_text "name" rpc.name)
    (.cons rpc.comment.carries
    (.cons (carries_restored ReturnType.restores "input" rpc.input)
    (.cons (carries_restored ReturnType.restores "output" rpc.output) .nil)))
  have distinct : ["name", "comment", "input", "output"].Nodup := by decide
  refine written.record_eq ?_ distinct fits _ _
  simp [Rpc.toJson]

theorem Service.restores : Decoder.Restores Service.read Service.toJson := by
  intro room service fits
  have written : Row.Written (room - 1) _ _ _ :=
    .cons (fun _ => carries_text "name" service.name)
    (.cons service.comment.carries
    (.cons (Setting.carries Setting.plainTitle service.options)
    (.cons (carries_list (Rpc.restores (room - 2)) "rpcs" service.rpcs (by omega)) .nil)))
  have distinct : ["name", "comment", "options", "rpcs"].Nodup := by decide
  refine written.record_eq ?_ distinct fits _ _
  simp [Service.toJson]

theorem File.restores : Decoder.Restores File.read File.toJson := by
  intro room file fits
  have written : Row.Written (room - 1) _ _ _ :=
    .cons (fun _ => carries_optional "syntax" .proto3 file.dialect.read_toJson)
    (.cons (fun _ => file.package.carries)
    (.cons file.comment.carries
    (.cons (carries_list (Import.restores (room - 2)) "imports" file.imports (by omega))
    (.cons (Setting.carries Setting.plainTitle file.options)
    (.cons (carries_list (Message.restores (room - 2)) "messages" file.messages (by omega))
    (.cons (carries_list (Enumeration.restores (room - 2)) "enums" file.enums (by omega))
    (.cons (carries_list (Service.restores (room - 2)) "services" file.services (by omega))
    .nil)))))))
  have distinct : ["syntax", "package", "comment", "imports", "options", "messages", "enums",
      "services"].Nodup := by decide
  refine written.record_eq ?_ distinct fits _ _
  simp [File.toJson]

theorem Config.restores : Decoder.Restores Config.read Config.toJson := by
  intro room config fits
  have indent_eq := Decoder.unsigned64_int config.indent
  have written : Row.Written (room - 1) _ _ _ :=
    .cons (fun _ => carries_optional "indent" defaultIndent indent_eq) .nil
  have distinct : ["indent"].Nodup := by decide
  exact written.record_eq rfl distinct fits _ _

namespace TypeDecl

theorem read_tagged {room : Nat} {kind : DeclKind} {json : Json} {decl : TypeDecl}
    (fits : (Json.obj [(tagName, .str kind.word), (contentName, json)]).depth ≤ room)
    (read_eq : kind.readDecl (room - 1) json.toDoc = .ok decl) :
    read room (Json.obj [(tagName, .str kind.word), (contentName, json)]).toDoc = .ok decl := by
  rw [Json.depth] at fits
  have tag_eq : DeclKind.read (room - 1) (Json.str kind.word).toDoc = .ok kind := by
    cases kind <;> rfl
  have found_eq : Found.addAll (room - 1)
      (Json.memberDocs [(tagName, .str kind.word), (contentName, json)]) .nothing =
        .ok (.both decl) := by
    simp [Json.memberDocs, Found.addAll, Found.addTag, Found.addContent, tag_eq, readNow, read_eq,
      tagName, contentName, Except.mapError, bind, Except.bind, pure, Except.pure]
  rw [Json.toDoc, read, if_neg (by omega), found_eq]
  rfl

theorem restores : Decoder.Restores read toJson := by
  intro room decl fits
  cases decl with
  | message declared =>
      have depth_le : declared.toJson.depth ≤ room - 1 := by
        simp only [toJson, Json.depth, Json.memberDepth] at fits
        omega
      apply read_tagged fits
      exact congrArg (Except.map TypeDecl.message) (Message.restores (room - 1) declared depth_le)
  | enum declared =>
      have depth_le : declared.toJson.depth ≤ room - 1 := by
        simp only [toJson, Json.depth, Json.memberDepth] at fits
        omega
      apply read_tagged fits
      exact congrArg (Except.map TypeDecl.enum) (Enumeration.restores (room - 1) declared depth_le)

end TypeDecl

namespace Kind

theorem restores (kind : Kind) :
    Decoder.Restores (fun room => kind.decode room) kind.toJson := by
  cases kind with
  | file => exact File.restores
  | dialect => exact fun _ dialect _ => dialect.read_toJson
  | imported => exact Import.restores
  | package => exact fun _ package _ => package.read_toJson
  | option => exact Setting.restores _
  | message => exact Message.restores
  | messageField => exact MessageField.restores
  | oneof => exact OneOf.restores
  | oneofField => exact OneOfField.restores
  | fieldOption => exact Setting.restores _
  | enum => exact Enumeration.restores
  | enumValue => exact EnumValue.restores
  | enumValueOption => exact Setting.restores _
  | service => exact Service.restores
  | rpc => exact Rpc.restores
  | returnType => exact ReturnType.restores
  | comment => exact Comment.restores
  | typeDecl => exact TypeDecl.restores
  | scalarType => exact ScalarType.restores
  | visibility => exact Visibility.restores
  | config => exact Config.restores

/-- Every value of every kind is read back from its JSON text. -/
theorem read_write (kind : Kind) (value : kind.Value)
    (nests : (kind.toJson value).depth ≤ Decoder.maxNesting) :
    kind.read (kind.write value) = .ok value := by
  have decode_eq : kind.decode Decoder.maxNesting (kind.toJson value).toDoc = .ok value :=
    kind.restores Decoder.maxNesting value nests
  have doc_eq : kind.readDoc (kind.toJson value).toDoc = .ok value := by
    rw [readDoc, decode_eq]
    rfl
  rw [read, write, Decoder.ofText, Document.ofText_render]
  simp only [doc_eq, if_true]

/-- A field with escapes in its texts and the greatest number, as deep in messages as can be
read. -/
theorem read_write_deepest :
    let field : MessageField := ⟨true, "\"\\\x00", "é😀\x7f\n", 4294967295, [], {}⟩
    let around (message : Message) : Message := ⟨"", {}, [], [], [message], []⟩
    let message : Message := Nat.repeat around 62 ⟨"A", ⟨["", "/\t"]⟩, [field], [], [], []⟩
    (Kind.message.toJson message).depth = 127 ∧
      Kind.message.read (Kind.message.write message) = .ok message := by
  intro field around message
  have depth_eq : (Kind.message.toJson message).depth = 127 := by decide +kernel
  exact ⟨depth_eq, read_write .message message (Nat.le_of_eq depth_eq)⟩

end Kind

end ProtoSchema
