import ProtoSchema.Proofs.Codec.RecordForms
import ProtoSchema.Proofs.Codec.RoundTrip

/-!
# Normalization

Whatever spelling a text uses, what is written for the value it is read as is read as that value
again: `Kind.read_write_of_read`. A reader goes only so deep into a text, and the written text must
not lie deeper, since nothing would read it then.

`Decoder.Keeps` says this of one type: an accepted document yields a value whose written form is
nested no deeper than the document, and no deeper than the reader had room for. A record is written
from its values, and each of them was either read from a part of the document or is a default, which
`RecordField.Source` says. Every default is written without a container.
-/

namespace ProtoSchema

open RecordField

namespace Doc

mutual

/-- How deep containers are nested in a document. -/
def depth : Doc → Nat
  | arr items _ => itemDepth items + 1
  | obj members _ => memberDepth members + 1
  | _ => 0

/-- The greatest depth of items. -/
def itemDepth : List Doc → Nat
  | [] => 0
  | item :: rest => max item.depth (itemDepth rest)

/-- The greatest depth of the values of members. -/
def memberDepth : List (Option String × Doc) → Nat
  | [] => 0
  | (_, value) :: rest => max value.depth (memberDepth rest)

end

theorem depth_le_itemDepth {item : Doc} {items : List Doc} (item_mem : item ∈ items) :
    item.depth ≤ itemDepth items := by
  induction items with
  | nil => cases item_mem
  | cons first rest ih =>
      rw [itemDepth]
      rcases List.mem_cons.mp item_mem with rfl | item_mem
      · exact Nat.le_max_left _ _
      · exact Nat.le_trans (ih item_mem) (Nat.le_max_right _ _)

end Doc

mutual

/-- The document of a value is nested as deep as the value. -/
theorem Json.depth_toDoc (json : Json) : json.toDoc.depth = json.depth := by
  cases json with
  | null => rfl
  | bool value => rfl
  | int value => rfl
  | str value => rfl
  | arr items => rw [toDoc, Doc.depth, depth, Json.itemDepth_itemDocs items]
  | obj members => rw [toDoc, Doc.depth, depth, Json.memberDepth_memberDocs members]

theorem Json.itemDepth_itemDocs (items : List Json) :
    Doc.itemDepth (itemDocs items) = itemDepth items := by
  cases items with
  | nil => rfl
  | cons item rest =>
      rw [itemDocs, Doc.itemDepth, itemDepth, Json.depth_toDoc item, Json.itemDepth_itemDocs rest]

theorem Json.memberDepth_memberDocs (members : List (String × Json)) :
    Doc.memberDepth (memberDocs members) = memberDepth members := by
  cases members with
  | nil => rfl
  | cons member rest =>
      rcases member with ⟨name, value⟩
      rw [memberDocs, Doc.memberDepth, memberDepth, Json.depth_toDoc value,
        Json.memberDepth_memberDocs rest]

end

theorem Json.itemDepth_le {items : List Json} {bound : Nat}
    (each : ∀ item ∈ items, item.depth ≤ bound) : itemDepth items ≤ bound := by
  induction items with
  | nil => exact Nat.zero_le _
  | cons first rest ih =>
      rw [itemDepth, Nat.max_le]
      exact ⟨each first List.mem_cons_self,
        ih fun item item_mem => each item (List.mem_cons_of_mem _ item_mem)⟩

/-- What is written for an accepted document is nested no deeper than the document, and no deeper
than the reader had room for. -/
def Decoder.Keeps {α : Type} (room : Nat) (read : Decoder α) (toJson : α → Json) : Prop :=
  ∀ (doc : Doc) (value : α), read doc = .ok value → (toJson value).depth ≤ min room doc.depth

/-- The value of a field is the default, or it was read from a document of at most the given
depth. -/
def RecordField.Source (field : RecordField) (depth : Nat) (value : field.Value) : Prop :=
  field.fallback = some value ∨ ∃ doc, doc.depth ≤ depth ∧ field.read doc = .ok value

/-- Every value of a row comes from a document of at most the given depth or is a default. -/
def Row.Sourced (depth : Nat) : (fields : List RecordField) → Row fields → Prop
  | [], _ => True
  | field :: fields, (value, row) => field.Source depth value ∧ Row.Sourced depth fields row

/-- Every value found so far comes from a document of at most the given depth. -/
def Slots.Sourced (depth : Nat) : (fields : List RecordField) → Slots fields → Prop
  | [], _ => True
  | field :: fields, (slot, slots) =>
    (∀ value, slot = some value → field.Source depth value) ∧ Slots.Sourced depth fields slots

namespace Slots

variable {depth : Nat}

theorem sourced_empty (fields : List RecordField) : Sourced depth fields (empty fields) := by
  induction fields with
  | nil => trivial
  | cons field fields ih => exact ⟨fun value slot_eq => absurd slot_eq (by simp), ih⟩

theorem Sourced.put {name : String} {doc : Doc} (nests : doc.depth ≤ depth)
    {fields : List RecordField} {slots slots' : Slots fields} (sourced : Sourced depth fields slots)
    (put_eq : put name doc fields slots = .ok slots') : Sourced depth fields slots' := by
  induction fields with
  | nil => trivial
  | cons field fields ih =>
      rcases slots.eq_cons with ⟨slot, slots, rfl⟩
      rcases sourced with ⟨slot_sourced, sourced⟩
      rw [put_cons] at put_eq
      split at put_eq
      · cases slot with
        | some value => cases put_eq
        | none =>
            rcases Except.map_eq_ok put_eq with ⟨value, read_eq, rfl⟩
            refine ⟨?_, sourced⟩
            rintro _ ⟨⟩
            exact .inr ⟨doc, nests, read_eq⟩
      · rcases Except.map_eq_ok put_eq with ⟨rest, rest_eq, rfl⟩
        exact ⟨slot_sourced, ih sourced rest_eq⟩

theorem Sourced.putAll {fields : List RecordField} {members : List (Option String × Doc)}
    (nests : Doc.memberDepth members ≤ depth) {slots slots' : Slots fields}
    (sourced : Sourced depth fields slots) (putAll_eq : putAll fields members slots = .ok slots') :
    Sourced depth fields slots' := by
  induction members generalizing slots with
  | nil =>
      cases putAll_eq
      exact sourced
  | cons member rest ih =>
      rcases member with ⟨_ | name, doc⟩
      · cases putAll_eq
      · rw [Doc.memberDepth, Nat.max_le] at nests
        rcases Except.bind_eq_ok putAll_eq with ⟨middle, put_eq, rest_eq⟩
        exact ih nests.2 (sourced.put nests.1 put_eq) rest_eq

theorem Sourced.complete {fields : List RecordField} {slots : Slots fields} {row : Row fields}
    (sourced : Sourced depth fields slots) (complete_eq : slots.complete fields = .ok row) :
    Row.Sourced depth fields row := by
  induction fields with
  | nil => trivial
  | cons field fields ih =>
      rcases slots.eq_cons with ⟨slot, slots, rfl⟩
      rcases sourced with ⟨slot_sourced, sourced⟩
      rcases Row.of_complete_cons complete_eq with ⟨value, rest, value_eq, rest_eq, rfl⟩
      refine ⟨?_, ih sourced rest_eq⟩
      cases slot with
      | some found => exact slot_sourced value value_eq
      | none => exact .inl value_eq

end Slots

namespace Row

theorem sourced_ofItems {depth position : Nat} {expected : Expected} {fields : List RecordField}
    {docs : List Doc} {ending : Ending} {row : Row fields} (nests : Doc.itemDepth docs ≤ depth)
    (ofItems_eq : ofItems expected position fields docs ending = .ok row) :
    Sourced depth fields row := by
  induction fields generalizing position docs with
  | nil => trivial
  | cons field fields ih =>
      cases docs with
      | nil =>
          cases ending with
          | broken => cases ofItems_eq
          | closed =>
              rw [ofItems_closed] at ofItems_eq
              split at ofItems_eq
              · rename_i value fallback_eq
                rcases Except.map_eq_ok ofItems_eq with ⟨rest, rest_eq, rfl⟩
                exact ⟨.inl fallback_eq, ih nests rest_eq⟩
              · cases ofItems_eq
      | cons doc docs =>
          rw [Doc.itemDepth, Nat.max_le] at nests
          rw [ofItems_item] at ofItems_eq
          rcases Except.bind_eq_ok ofItems_eq with ⟨value, read_eq, map_eq⟩
          rcases Except.map_eq_ok map_eq with ⟨rest, rest_eq, rfl⟩
          exact ⟨.inr ⟨doc, nests.1, read_eq⟩, ih nests.2 rest_eq⟩

end Row

theorem Decoder.mismatch_ne_ok {α : Type} (doc : Doc) (expected : Expected) (value : α) :
    mismatch doc expected ≠ .ok value := by
  rw [mismatch]
  cases doc.shape? <;> simp

/-- An accepted record is opened, and its values come from the documents in it. -/
theorem Decoder.record_eq_ok {α : Type} {room : Nat} {title : String} {fields : List RecordField}
    {build : Row fields → α} {doc : Doc} {value : α}
    (record_eq : record room title fields build doc = .ok value) :
    ∃ row depth, value = build row ∧ 0 < room ∧ doc.depth = depth + 1 ∧
      Row.Sourced depth fields row := by
  unfold record at record_eq
  split at record_eq
  · rename_i items ending
    split at record_eq
    · cases record_eq
    · rename_i opens
      rcases Except.map_eq_ok record_eq with ⟨row, ofItems_eq, rfl⟩
      exact ⟨row, _, rfl, Nat.pos_of_ne_zero opens, rfl,
        Row.sourced_ofItems (Nat.le_refl _) ofItems_eq⟩
  · rename_i members ending
    split at record_eq
    · cases record_eq
    · rename_i opens
      rcases Except.map_eq_ok record_eq with ⟨row, ofMembers_eq, rfl⟩
      rcases Except.bind_eq_ok ofMembers_eq with ⟨slots, putAll_eq, complete_eq⟩
      have sourced : Slots.Sourced (Doc.memberDepth members) fields slots :=
        (Slots.sourced_empty fields).putAll (Nat.le_refl _) putAll_eq
      cases ending with
      | closed =>
          exact ⟨row, _, rfl, Nat.pos_of_ne_zero opens, rfl, sourced.complete complete_eq⟩
      | broken => cases complete_eq
  · exact absurd record_eq (mismatch_ne_ok _ _ _)

namespace Decoder

variable {α : Type}

theorem items_eq_ok {read : Decoder α} {docs : List Doc} {values : List α}
    (items_eq : items read docs = .ok values) {value : α} (value_mem : value ∈ values) :
    ∃ doc ∈ docs, read doc = .ok value := by
  induction docs generalizing values with
  | nil =>
      cases items_eq
      cases value_mem
  | cons doc docs ih =>
      rcases Except.bind_eq_ok items_eq with ⟨first, read_eq, bind_eq⟩
      rcases Except.bind_eq_ok bind_eq with ⟨rest, rest_eq, values_eq⟩
      cases values_eq
      rcases List.mem_cons.mp value_mem with rfl | value_mem
      · exact ⟨doc, List.mem_cons_self, read_eq⟩
      · rcases ih rest_eq value_mem with ⟨found, found_mem, found_eq⟩
        exact ⟨found, List.mem_cons_of_mem _ found_mem, found_eq⟩

/-- An accepted list is opened, and its values come from the documents in it. -/
theorem list_eq_ok {room : Nat} {read : Decoder α} {doc : Doc} {values : List α}
    (list_eq : list room read doc = .ok values) :
    0 < room ∧ ∃ depth, doc.depth = depth + 1 ∧
      ∀ value ∈ values, ∃ item, item.depth ≤ depth ∧ read item = .ok value := by
  unfold list at list_eq
  split at list_eq
  · rename_i docs ending
    split at list_eq
    · cases list_eq
    · rename_i opens
      rcases Except.bind_eq_ok list_eq with ⟨found, items_eq, ending_eq⟩
      cases ending with
      | broken => cases ending_eq
      | closed =>
          cases ending_eq
          refine ⟨Nat.pos_of_ne_zero opens, Doc.itemDepth docs, rfl, ?_⟩
          intro value value_mem
          rcases items_eq_ok items_eq value_mem with ⟨item, item_mem, read_eq⟩
          exact ⟨item, Doc.depth_le_itemDepth item_mem, read_eq⟩
  · exact absurd list_eq (mismatch_ne_ok _ _ _)

end Decoder

namespace RecordField.Source

variable {α : Type} {name : String} {room depth : Nat}

theorem list {itemRoom : Nat} {read : Decoder α} {toJson : α → Json}
    (keeps : Decoder.Keeps itemRoom read toJson) {values : List α}
    (source : (optional name [] (.list room read)).Source depth values)
    (less : itemRoom ≤ room - 1) :
    Json.memberDepth (Json.listMember name (values.map toJson)) ≤ min room depth := by
  rcases source with fallback_eq | ⟨doc, nests, read_eq⟩
  · cases fallback_eq
    exact Nat.zero_le _
  · rcases Decoder.list_eq_ok read_eq with ⟨opens, inside, depth_eq, sources⟩
    have items_le : Json.itemDepth (values.map toJson) ≤ min itemRoom inside := by
      apply Json.itemDepth_le
      intro json json_mem
      rcases List.mem_map.mp json_mem with ⟨value, value_mem, rfl⟩
      rcases sources value value_mem with ⟨item, item_le, item_eq⟩
      have json_le := keeps item value item_eq
      omega
    cases values with
    | nil => exact Nat.zero_le _
    | cons first rest =>
        rw [Json.memberDepth_listMember name (by simp)]
        omega

theorem required {read : Decoder α} {toJson : α → Json}
    (keeps : Decoder.Keeps room read toJson) {value : α}
    (source : (RecordField.required name read).Source depth value) :
    (toJson value).depth ≤ min room depth := by
  rcases source with fallback_eq | ⟨doc, nests, read_eq⟩
  · cases fallback_eq
  · have json_le := keeps doc value read_eq
    omega

end RecordField.Source

/-- A record whose members are written no deeper than the documents its values come from is written
no deeper than the document that holds them, since both add one container. -/
theorem Decoder.keeps_record {α : Type} {room : Nat} {title : String} {fields : List RecordField}
    {build : Row fields → α} {toJson : α → Json}
    (members_le : ∀ row depth, Row.Sourced depth fields row →
      ∃ members, toJson (build row) = .obj members ∧
        Json.memberDepth members ≤ min (room - 1) depth) :
    Keeps room (record room title fields build) toJson := by
  intro doc value record_eq
  rcases record_eq_ok record_eq with ⟨row, depth, rfl, opens, depth_eq, sourced⟩
  rcases members_le row depth sourced with ⟨members, toJson_eq, depth_le⟩
  rw [toJson_eq, Json.depth, depth_eq]
  omega

theorem Comment.keeps (room : Nat) : Decoder.Keeps room (Comment.read room) Comment.toJson := by
  intro doc comment read_eq
  rcases Except.map_eq_ok read_eq with ⟨lines, list_eq, rfl⟩
  rcases Decoder.list_eq_ok list_eq with ⟨opens, depth, depth_eq, -⟩
  have flat : Json.itemDepth ((Comment.mk lines).lines.map Json.str) ≤ 0 := by
    apply Json.itemDepth_le
    intro json json_mem
    rcases List.mem_map.mp json_mem with ⟨line, -, rfl⟩
    exact Nat.le_refl _
  rw [Comment.toJson, Json.depth]
  omega

theorem Comment.member_le {comment : Comment} {room depth : Nat}
    (source : (Comment.field room).Source depth comment) :
    Json.memberDepth comment.member ≤ min room depth := by
  rcases source with fallback_eq | ⟨doc, nests, read_eq⟩
  · cases fallback_eq
    exact Nat.zero_le _
  · have json_le := Comment.keeps room doc comment read_eq
    have member_le : Json.memberDepth comment.member ≤ comment.toJson.depth := by
      rw [Comment.member, Json.listMember, Comment.toJson]
      split <;> simp [Json.memberDepth]
    omega

theorem Setting.keeps (title : String) (room : Nat) :
    Decoder.Keeps room (Setting.read title room) Setting.toJson := by
  apply Decoder.keeps_record
  intro row depth sourced
  exact ⟨_, rfl, Nat.zero_le _⟩

theorem Setting.member_le {title : String} {settings : List Setting} {room depth : Nat}
    (source : (Setting.field title room).Source depth settings) :
    Json.memberDepth (Setting.member settings) ≤ min room depth :=
  RecordField.Source.list (Setting.keeps title (room - 1)) source (Nat.le_refl _)

theorem Import.keeps (room : Nat) : Decoder.Keeps room (Import.read room) Import.toJson := by
  apply Decoder.keeps_record
  intro row depth sourced
  exact ⟨_, rfl, Nat.zero_le _⟩

theorem MessageField.keeps (room : Nat) :
    Decoder.Keeps room (MessageField.read room) MessageField.toJson := by
  apply Decoder.keeps_record
  intro row depth sourced
  rcases row with ⟨repeated, typeName, name, index, options, comment, ⟨⟩⟩
  rcases sourced with ⟨-, -, -, -, options_source, comment_source, -⟩
  have options_le := Setting.member_le options_source
  have comment_le := Comment.member_le comment_source
  refine ⟨_, rfl, ?_⟩
  simp only [Json.memberDepth_append, Json.memberDepth, Json.depth]
  omega

theorem OneOfField.keeps (room : Nat) :
    Decoder.Keeps room (OneOfField.read room) OneOfField.toJson := by
  apply Decoder.keeps_record
  intro row depth sourced
  rcases row with ⟨typeName, name, index, comment, options, ⟨⟩⟩
  rcases sourced with ⟨-, -, -, comment_source, options_source, -⟩
  have comment_le := Comment.member_le comment_source
  have options_le := Setting.member_le options_source
  refine ⟨_, rfl, ?_⟩
  simp only [Json.memberDepth_append, Json.memberDepth, Json.depth]
  omega

theorem OneOf.keeps (room : Nat) : Decoder.Keeps room (OneOf.read room) OneOf.toJson := by
  apply Decoder.keeps_record
  intro row depth sourced
  rcases row with ⟨name, comment, fields, ⟨⟩⟩
  rcases sourced with ⟨-, comment_source, fields_source, -⟩
  have comment_le := Comment.member_le comment_source
  have fields_le := fields_source.list (OneOfField.keeps (room - 2)) (by omega)
  refine ⟨_, rfl, ?_⟩
  simp only [Json.memberDepth_append, Json.memberDepth, Json.depth]
  omega

theorem EnumValue.keeps (room : Nat) :
    Decoder.Keeps room (EnumValue.read room) EnumValue.toJson := by
  apply Decoder.keeps_record
  intro row depth sourced
  rcases row with ⟨name, index, options, comment, ⟨⟩⟩
  rcases sourced with ⟨-, -, options_source, comment_source, -⟩
  have options_le := Setting.member_le options_source
  have comment_le := Comment.member_le comment_source
  refine ⟨_, rfl, ?_⟩
  simp only [Json.memberDepth_append, Json.memberDepth, Json.depth]
  omega

theorem Enumeration.keeps (room : Nat) :
    Decoder.Keeps room (Enumeration.read room) Enumeration.toJson := by
  apply Decoder.keeps_record
  intro row depth sourced
  rcases row with ⟨name, options, values, comment, ⟨⟩⟩
  rcases sourced with ⟨-, options_source, values_source, comment_source, -⟩
  have options_le := Setting.member_le options_source
  have values_le := values_source.list (EnumValue.keeps (room - 2)) (by omega)
  have comment_le := Comment.member_le comment_source
  refine ⟨_, rfl, ?_⟩
  simp only [Json.memberDepth_append, Json.memberDepth, Json.depth]
  omega

namespace Message

theorem listMember_le {room itemRoom depth : Nat} {nested : Decoder Message}
    (nested_keeps : Decoder.Keeps itemRoom nested toJson) {name : String} {messages : List Message}
    (source : (optional name [] (.list room nested)).Source depth messages)
    (less : itemRoom ≤ room - 1) :
    Json.memberDepth (Json.listMember name (listToJson messages)) ≤ min room depth := by
  rw [listToJson_eq_map]
  exact source.list nested_keeps less

/-- A message is written no deeper than its document if the messages in its body are. -/
theorem readWith_keeps {room : Nat} {nested : Decoder Message}
    (nested_keeps : Decoder.Keeps (room - 2) nested toJson) :
    Decoder.Keeps room (readWith room nested) toJson := by
  apply Decoder.keeps_record
  intro row depth sourced
  rcases row with ⟨name, comment, fields, enums, messages, oneofs, ⟨⟩⟩
  rcases sourced with
    ⟨-, comment_source, fields_source, enums_source, messages_source, oneofs_source, -⟩
  have comment_le := Comment.member_le comment_source
  have fields_le := fields_source.list (MessageField.keeps (room - 2)) (by omega)
  have enums_le := enums_source.list (Enumeration.keeps (room - 2)) (by omega)
  have messages_le := listMember_le nested_keeps messages_source (by omega)
  have oneofs_le := oneofs_source.list (OneOf.keeps (room - 2)) (by omega)
  refine ⟨_, rfl, ?_⟩
  simp only [Json.memberDepth_append, Json.memberDepth, Json.depth]
  omega

theorem noRoom_keeps (room : Nat) : Decoder.Keeps room noRoom toJson := by
  intro doc message read_eq
  cases read_eq

theorem keeps (room : Nat) : Decoder.Keeps room (read room) toJson := by
  induction room using read.induct with
  | case1 => exact readWith_keeps (noRoom_keeps _)
  | case2 => exact readWith_keeps (noRoom_keeps _)
  | case3 room ih => exact readWith_keeps ih

end Message

theorem ReturnType.keeps (room : Nat) :
    Decoder.Keeps room (ReturnType.read room) ReturnType.toJson := by
  apply Decoder.keeps_record
  intro row depth sourced
  exact ⟨_, rfl, Nat.zero_le _⟩

theorem Rpc.keeps (room : Nat) : Decoder.Keeps room (Rpc.read room) Rpc.toJson := by
  apply Decoder.keeps_record
  intro row depth sourced
  rcases row with ⟨name, comment, input, output, ⟨⟩⟩
  rcases sourced with ⟨-, comment_source, input_source, output_source, -⟩
  have comment_le := Comment.member_le comment_source
  have input_le := input_source.required (ReturnType.keeps (room - 1))
  have output_le := output_source.required (ReturnType.keeps (room - 1))
  refine ⟨_, rfl, ?_⟩
  simp only [Json.memberDepth_append, Json.memberDepth, Json.depth]
  omega

theorem Service.keeps (room : Nat) : Decoder.Keeps room (Service.read room) Service.toJson := by
  apply Decoder.keeps_record
  intro row depth sourced
  rcases row with ⟨name, comment, options, rpcs, ⟨⟩⟩
  rcases sourced with ⟨-, comment_source, options_source, rpcs_source, -⟩
  have comment_le := Comment.member_le comment_source
  have options_le := Setting.member_le options_source
  have rpcs_le := rpcs_source.list (Rpc.keeps (room - 2)) (by omega)
  refine ⟨_, rfl, ?_⟩
  simp only [Json.memberDepth_append, Json.memberDepth, Json.depth]
  omega

theorem File.keeps (room : Nat) : Decoder.Keeps room (File.read room) File.toJson := by
  apply Decoder.keeps_record
  intro row depth sourced
  rcases row with ⟨dialect, package, comment, imports, options, messages, enums, services, ⟨⟩⟩
  rcases sourced with ⟨-, -, comment_source, imports_source, options_source, messages_source,
    enums_source, services_source, -⟩
  have package_le : Json.memberDepth (Json.textMember "package" package.name) ≤ 0 := by
    rw [Json.textMember]
    split <;> simp [Json.memberDepth, Json.depth]
  have comment_le := Comment.member_le comment_source
  have imports_le := imports_source.list (Import.keeps (room - 2)) (by omega)
  have options_le := Setting.member_le options_source
  have messages_le := messages_source.list (Message.keeps (room - 2)) (by omega)
  have enums_le := enums_source.list (Enumeration.keeps (room - 2)) (by omega)
  have services_le := services_source.list (Service.keeps (room - 2)) (by omega)
  refine ⟨_, rfl, ?_⟩
  simp only [Json.memberDepth_append, Json.memberDepth, Json.depth, Dialect.toJson]
  omega

theorem Config.keeps (room : Nat) : Decoder.Keeps room (Config.read room) Config.toJson := by
  apply Decoder.keeps_record
  intro row depth sourced
  exact ⟨_, rfl, Nat.zero_le _⟩

namespace TypeDecl

theorem readDecl_keeps {room : Nat} {kind : DeclKind} {doc : Doc} {decl : TypeDecl}
    (read_eq : kind.readDecl room doc = .ok decl) :
    decl.toJson.depth ≤ min room doc.depth + 1 := by
  cases kind with
  | message =>
      rcases Except.map_eq_ok read_eq with ⟨declared, declared_eq, rfl⟩
      have declared_le := Message.keeps room doc declared declared_eq
      simp only [toJson, Json.depth, Json.memberDepth]
      omega
  | enum =>
      rcases Except.map_eq_ok read_eq with ⟨declared, declared_eq, rfl⟩
      have declared_le := Enumeration.keeps room doc declared declared_eq
      simp only [toJson, Json.depth, Json.memberDepth]
      omega

theorem readNow_eq_ok {room : Nat} {kind : DeclKind} {doc : Doc} {decl : TypeDecl}
    (read_eq : readNow room kind doc = .ok decl) : kind.readDecl room doc = .ok decl := by
  rw [readNow] at read_eq
  cases readDecl_eq : kind.readDecl room doc with
  | error problem =>
      rw [readDecl_eq] at read_eq
      cases read_eq
  | ok found =>
      rw [readDecl_eq] at read_eq
      exact read_eq

/-- What has been found so far lies in documents of at most the given depth. -/
def Found.Keeps (room depth : Nat) : Found → Prop
  | content doc => doc.depth ≤ depth
  | both decl => decl.toJson.depth ≤ min room depth + 1
  | _ => True

variable {room depth : Nat}

theorem Found.Keeps.addTag {found found' : Found} (keeps : found.Keeps room depth) {doc : Doc}
    (addTag_eq : found.addTag room doc = .ok found') : found'.Keeps room depth := by
  cases found with
  | nothing =>
      rcases Except.bind_eq_ok addTag_eq with ⟨kind, -, found_eq⟩
      cases found_eq
      trivial
  | content decl =>
      rcases Except.bind_eq_ok addTag_eq with ⟨kind, -, bind_eq⟩
      rcases Except.bind_eq_ok bind_eq with ⟨declared, read_eq, found_eq⟩
      cases found_eq
      have decl_le := readDecl_keeps read_eq
      have nests : decl.depth ≤ depth := keeps
      change declared.toJson.depth ≤ _
      omega
  | tag kind => cases addTag_eq
  | both decl => cases addTag_eq

theorem Found.Keeps.addContent {found found' : Found} {doc : Doc} (nests : doc.depth ≤ depth)
    (addContent_eq : found.addContent room doc = .ok found') : found'.Keeps room depth := by
  cases found with
  | nothing =>
      rw [Found.addContent] at addContent_eq
      split at addContent_eq
      · cases addContent_eq
        exact nests
      · cases addContent_eq
  | tag kind =>
      rcases Except.bind_eq_ok addContent_eq with ⟨declared, read_eq, found_eq⟩
      cases found_eq
      have decl_le := readDecl_keeps (readNow_eq_ok read_eq)
      change declared.toJson.depth ≤ _
      omega
  | content decl => cases addContent_eq
  | both decl => cases addContent_eq

theorem Found.Keeps.addAll {found found' : Found} (keeps : found.Keeps room depth)
    {members : List (Option String × Doc)} (nests : Doc.memberDepth members ≤ depth)
    (addAll_eq : found.addAll room members = .ok found') : found'.Keeps room depth := by
  induction members generalizing found with
  | nil =>
      cases addAll_eq
      exact keeps
  | cons member rest ih =>
      rcases member with ⟨_ | name, doc⟩
      · cases addAll_eq
      · rw [Doc.memberDepth, Nat.max_le] at nests
        rw [Found.addAll] at addAll_eq
        split at addAll_eq
        · rcases Except.bind_eq_ok addAll_eq with ⟨middle, addTag_eq, rest_eq⟩
          exact ih (keeps.addTag addTag_eq) nests.2 rest_eq
        · split at addAll_eq
          · rcases Except.bind_eq_ok addAll_eq with ⟨middle, addContent_eq, rest_eq⟩
            exact ih (Found.Keeps.addContent nests.1 addContent_eq) nests.2 rest_eq
          · split at addAll_eq
            · exact ih keeps nests.2 addAll_eq
            · cases addAll_eq

theorem ofItems_keeps {ending : Ending} {docs : List Doc} {decl : TypeDecl}
    (ofItems_eq : ofItems room ending docs = .ok decl) :
    decl.toJson.depth ≤ min room (Doc.itemDepth docs) + 1 := by
  match docs with
  | [] => cases ending <;> cases ofItems_eq
  | [tag] =>
      rcases Except.bind_eq_ok ofItems_eq with ⟨kind, -, ending_eq⟩
      cases ending <;> cases ending_eq
  | tag :: content :: rest =>
      rcases Except.bind_eq_ok ofItems_eq with ⟨kind, -, bind_eq⟩
      rcases Except.bind_eq_ok bind_eq with ⟨declared, read_eq, ending_eq⟩
      have decl_le := readDecl_keeps (readNow_eq_ok read_eq)
      split at ending_eq
      · cases ending_eq
        simp only [Doc.itemDepth]
        omega
      · cases ending_eq

theorem keeps (room : Nat) : Decoder.Keeps room (read room) toJson := by
  intro doc decl read_eq
  unfold read at read_eq
  split at read_eq
  · split at read_eq
    · cases read_eq
    · have decl_le := ofItems_keeps read_eq
      rw [Doc.depth]
      omega
  · rename_i members ending
    split at read_eq
    · cases read_eq
    · rcases Except.bind_eq_ok read_eq with ⟨found, addAll_eq, ending_eq⟩
      have nothing_keeps : Found.nothing.Keeps (room - 1) (Doc.memberDepth members) := trivial
      have found_keeps := nothing_keeps.addAll (Nat.le_refl _) addAll_eq
      cases ending with
      | broken => cases ending_eq
      | closed =>
          cases found with
          | both declared =>
              cases ending_eq
              have decl_le : decl.toJson.depth ≤ _ := found_keeps
              rw [Doc.depth]
              omega
          | nothing => cases ending_eq
          | tag kind => cases ending_eq
          | content doc => cases ending_eq
  · exact absurd read_eq (Decoder.mismatch_ne_ok _ _ _)

end TypeDecl

namespace Kind

theorem keeps (kind : Kind) (room : Nat) :
    Decoder.Keeps room (kind.decode room) kind.toJson := by
  cases kind with
  | file => exact File.keeps room
  | dialect => exact fun _ _ _ => Nat.zero_le _
  | imported => exact Import.keeps room
  | package => exact fun _ _ _ => Nat.zero_le _
  | option => exact Setting.keeps _ room
  | message => exact Message.keeps room
  | messageField => exact MessageField.keeps room
  | oneof => exact OneOf.keeps room
  | oneofField => exact OneOfField.keeps room
  | fieldOption => exact Setting.keeps _ room
  | enum => exact Enumeration.keeps room
  | enumValue => exact EnumValue.keeps room
  | enumValueOption => exact Setting.keeps _ room
  | service => exact Service.keeps room
  | rpc => exact Rpc.keeps room
  | returnType => exact ReturnType.keeps room
  | comment => exact Comment.keeps room
  | typeDecl => exact TypeDecl.keeps room
  | scalarType => exact fun _ _ _ => Nat.zero_le _
  | visibility => exact fun _ _ _ => Nat.zero_le _
  | config => exact Config.keeps room

/-- Reading what was written is decoding the document of it. -/
theorem read_write_of_decode {kind : Kind} {value : kind.Value}
    (decode_eq : kind.decode Decoder.maxNesting (kind.toJson value).toDoc = .ok value) :
    kind.read (kind.write value) = .ok value := by
  rw [read_eq_ok_iff, write, Document.ofText_render]
  exact ⟨decode_eq, rfl⟩

/-- Whatever text a value is read from, the text that is written for the value is nested no deeper
and is read as the value again. -/
theorem read_write_of_read (kind : Kind) (text : String) (value : kind.Value)
    (read_eq : kind.read text = .ok value) :
    (Document.ofText (kind.write value)).root.depth ≤ (Document.ofText text).root.depth ∧
      kind.read (kind.write value) = .ok value := by
  have depth_le := kind.keeps Decoder.maxNesting _ value (read_eq_ok_iff.mp read_eq).1
  constructor
  · rw [write, Document.ofText_render, Json.depth_toDoc]
    omega
  · apply read_write_of_decode
    apply kind.restores
    omega

/-- The declaration comes before its tag and in positional form, the tag is an object, a member that
nobody reads is nested deepest, and a name is spelled by an escape. -/
theorem read_write_of_read_mixed :
    let text := " \x7b\"decl\": [\"M\", [], [[true,\"string\",\"\\u006E\",7]]],\n" ++
      "\"x\" : [[[[[-0]]]]], \"kind\":\x7b\"message\":null\x7d\x7d"
    let value : TypeDecl := .message ⟨"M", {}, [⟨true, "string", "n", 7, [], {}⟩], [], [], []⟩
    Kind.typeDecl.read text = .ok value ∧
      (Document.ofText (Kind.typeDecl.write value)).root.depth ≤
        (Document.ofText text).root.depth ∧
      Kind.typeDecl.read (Kind.typeDecl.write value) = .ok value := by
  intro text value
  have read_eq : Kind.typeDecl.read text = .ok value := by decide +kernel
  exact ⟨read_eq, read_write_of_read .typeDecl text value read_eq⟩

end Kind

end ProtoSchema
