import ProtoSchema.Proofs.Codec.Normalization

/-!
# Room to spare

A reader is told how many containers it may still open. As long as this is enough for the document,
it does not matter how much it is: messages and enums are read from a document in the same way with
any amount of room that is not less than the depth of the document, `Message.roomy` and
`Enumeration.roomy`.

The fields of a record have readers that depend on the room as well. Their values are of the same
types for any amount of room, and `Slots.across` and `Row.across` carry them over from one to
another.
-/

namespace ProtoSchema

open RecordField

/-- For documents of at most the given depth, all amounts of room that are enough are as good. -/
def Decoder.Roomy {α : Type} (depth : Nat) (read : Nat → Decoder α) : Prop :=
  ∀ room room' doc, doc.depth ≤ depth → doc.depth ≤ room → doc.depth ≤ room' →
    read room doc = read room' doc

/-- A field whose reader depends on the room. -/
structure RoomyField where
  name : String
  Value : Type
  fallback : Option Value
  read : Nat → Decoder Value

namespace RoomyField

/-- The field for an amount of room. -/
@[reducible] def within (room : Nat) (field : RoomyField) : RecordField :=
  ⟨field.name, field.Value, field.fallback, field.read room⟩

/-- A field that opens no container. -/
def flat (field : RecordField) : RoomyField :=
  ⟨field.name, field.Value, field.fallback, fun _ => field.read⟩

/-- A field that takes a default, whatever room there is. -/
def optional {α : Type} (name : String) (fallback : α) (read : Nat → Decoder α) : RoomyField :=
  ⟨name, α, some fallback, read⟩

/-- All readers are indifferent to spare room. -/
def AllRoomy (depth : Nat) (fields : List RoomyField) : Prop :=
  ∀ field ∈ fields, Decoder.Roomy depth field.read

variable {depth : Nat} {fields : List RoomyField}

theorem AllRoomy.nil : AllRoomy depth [] := by
  intro field field_mem
  cases field_mem

theorem AllRoomy.cons {field : RoomyField} (roomy : Decoder.Roomy depth field.read)
    (rest : AllRoomy depth fields) : AllRoomy depth (field :: fields) :=
  List.forall_mem_cons.mpr ⟨roomy, rest⟩

theorem AllRoomy.flat {field : RecordField} (rest : AllRoomy depth fields) :
    AllRoomy depth (RoomyField.flat field :: fields) :=
  cons (fun _ _ _ _ _ _ => rfl) rest

end RoomyField

open RoomyField (within AllRoomy)

/-- The same slots for another amount of room: the types of the values do not depend on it. -/
def Slots.across {room room' : Nat} : (fields : List RoomyField) →
    Slots (fields.map (within room)) → Slots (fields.map (within room'))
  | [], _ => ()
  | _ :: fields, (slot, slots) => (slot, across fields slots)

/-- The same row for another amount of room. -/
def Row.across {room room' : Nat} : (fields : List RoomyField) →
    Row (fields.map (within room)) → Row (fields.map (within room'))
  | [], _ => ()
  | _ :: fields, (value, row) => (value, across fields row)

section

variable {depth room room' : Nat} {fields : List RoomyField} (roomy : AllRoomy depth fields)

namespace Slots

theorem across_empty (fields : List RoomyField) :
    across fields (empty (fields.map (within room))) = empty (fields.map (within room')) := by
  induction fields with
  | nil => rfl
  | cons field fields ih => exact congrArg (Prod.mk none) ih

include roomy in
theorem put_across {doc : Doc} (nests : doc.depth ≤ depth) (fits : doc.depth ≤ room)
    (fits' : doc.depth ≤ room') (name : String) (slots : Slots (fields.map (within room))) :
    put name doc (fields.map (within room')) (across fields slots) =
      (put name doc (fields.map (within room)) slots).map (across fields) := by
  induction fields with
  | nil =>
      change (if doc.wellFormed then _ else _) = Except.map _ (if doc.wellFormed then _ else _)
      split <;> rfl
  | cons field fields ih =>
      rw [AllRoomy, List.forall_mem_cons] at roomy
      rcases slots.eq_cons with ⟨slot, slots, rfl⟩
      have read_eq : (field.within room').read doc = (field.within room).read doc :=
        roomy.1 room' room doc nests fits' fits
      let slot' : Option (field.within room').Value := slot
      change put name doc (field.within room' :: fields.map (within room'))
          (cons slot' (across fields slots)) =
        (put name doc (field.within room :: fields.map (within room)) (cons slot slots)).map _
      rw [put_cons, put_cons, ih roomy.2, read_eq]
      split
      · cases slot with
        | some value => rfl
        | none => cases (field.within room).read doc <;> rfl
      · cases put name doc (fields.map (within room)) slots <;> rfl

include roomy in
theorem putAll_across {members : List (Option String × Doc)}
    (nests : Doc.memberDepth members ≤ depth) (fits : Doc.memberDepth members ≤ room)
    (fits' : Doc.memberDepth members ≤ room') (slots : Slots (fields.map (within room))) :
    putAll (fields.map (within room')) members (across fields slots) =
      (putAll (fields.map (within room)) members slots).map (across fields) := by
  induction members generalizing slots with
  | nil => rfl
  | cons member rest ih =>
      rcases member with ⟨_ | name, doc⟩
      · rfl
      · rw [Doc.memberDepth, Nat.max_le] at nests fits fits'
        rw [putAll_member, putAll_member, put_across roomy nests.1 fits.1 fits'.1]
        cases put name doc (fields.map (within room)) slots with
        | error problem => rfl
        | ok slots => exact ih nests.2 fits.2 fits'.2 slots

theorem complete_across (slots : Slots (fields.map (within room))) :
    (across fields slots).complete (fields.map (within room')) =
      (slots.complete (fields.map (within room))).map (Row.across fields) := by
  induction fields with
  | nil => rfl
  | cons field fields ih =>
      rcases slots.eq_cons with ⟨slot, slots, rfl⟩
      let slot' : Option (field.within room').Value := slot
      change (cons slot' (across fields slots)).complete
          (field.within room' :: fields.map (within room')) =
        ((cons slot slots).complete (field.within room :: fields.map (within room))).map _
      rw [Row.complete_slots_cons, Row.complete_slots_cons, ih]
      cases slot <|> field.fallback with
      | none => rfl
      | some value => cases slots.complete (fields.map (within room)) <;> rfl

end Slots

namespace Row

include roomy

theorem ofMembers_across {members : List (Option String × Doc)}
    (nests : Doc.memberDepth members ≤ depth) (fits : Doc.memberDepth members ≤ room)
    (fits' : Doc.memberDepth members ≤ room') (ending : Ending) :
    ofMembers (fields.map (within room')) members ending =
      (ofMembers (fields.map (within room)) members ending).map (across fields) := by
  rw [ofMembers, ofMembers, ← Slots.across_empty fields,
    Slots.putAll_across roomy nests fits fits']
  cases Slots.putAll (fields.map (within room)) members (Slots.empty _) with
  | error problem => rfl
  | ok slots =>
      cases ending with
      | closed => exact Slots.complete_across slots
      | broken => rfl

theorem ofItems_across {docs : List Doc} (nests : Doc.itemDepth docs ≤ depth)
    (fits : Doc.itemDepth docs ≤ room) (fits' : Doc.itemDepth docs ≤ room') (expected : Expected)
    (position : Nat) (ending : Ending) :
    ofItems expected position (fields.map (within room')) docs ending =
      (ofItems expected position (fields.map (within room)) docs ending).map (across fields) := by
  induction fields generalizing docs position with
  | nil => cases docs <;> cases ending <;> rfl
  | cons field fields ih =>
      rw [AllRoomy, List.forall_mem_cons] at roomy
      cases docs with
      | nil =>
          cases ending with
          | broken => rfl
          | closed =>
              change ofItems expected position
                  (field.within room' :: fields.map (within room')) [] .closed =
                (ofItems expected position
                  (field.within room :: fields.map (within room)) [] .closed).map _
              rw [ofItems_closed, ofItems_closed, ih roomy.2 nests fits fits']
              rcases field with ⟨name, Value, _ | value, read⟩
              · rfl
              · cases ofItems expected (position + 1) (fields.map (within room)) [] .closed <;> rfl
      | cons doc docs =>
          rw [Doc.itemDepth, Nat.max_le] at nests fits fits'
          have read_eq : (field.within room').read doc = (field.within room).read doc :=
            roomy.1 room' room doc nests.1 fits'.1 fits.1
          change ofItems expected position
              (field.within room' :: fields.map (within room')) (doc :: docs) ending =
            (ofItems expected position
              (field.within room :: fields.map (within room)) (doc :: docs) ending).map _
          rw [ofItems_item, ofItems_item, ih roomy.2 nests.2 fits.2 fits'.2, read_eq]
          cases (field.within room).read doc with
          | error problem => rfl
          | ok value =>
              cases ofItems expected (position + 1) (fields.map (within room)) docs ending <;> rfl

end Row

end

namespace Decoder

variable {α : Type} {depth : Nat}

theorem items_congr {read read' : Decoder α} {docs : List Doc}
    (alike : ∀ doc ∈ docs, read doc = read' doc) : items read docs = items read' docs := by
  induction docs with
  | nil => rfl
  | cons doc docs ih =>
      rw [List.forall_mem_cons] at alike
      rw [items, items, alike.1, ih alike.2]

/-- A list is read one container further out than its items. -/
theorem Roomy.list {item : Nat → Decoder α}
    (roomy : ∀ inner < depth, Roomy inner fun room => item (room + 1)) :
    Roomy depth fun room => list room (item room) := by
  intro room room' doc nests fits fits'
  cases doc with
  | arr docs ending =>
      rw [Doc.depth] at nests fits fits'
      rcases Nat.exists_eq_add_of_le' (Nat.le_of_add_left_le fits) with ⟨room, rfl⟩
      rcases Nat.exists_eq_add_of_le' (Nat.le_of_add_left_le fits') with ⟨room', rfl⟩
      have alike : ∀ doc ∈ docs, item (room + 1) doc = item (room' + 1) doc := by
        intro doc doc_mem
        have doc_le := Doc.depth_le_itemDepth doc_mem
        exact roomy (Doc.itemDepth docs) nests room room' doc doc_le (by omega) (by omega)
      simp only [Decoder.list, items_congr alike, Nat.succ_ne_zero, if_false]
  | _ => rfl

/-- A record is read one container further out than its fields. -/
theorem Roomy.record {fields : List RoomyField} (roomy : ∀ inner < depth, AllRoomy inner fields)
    (title : String) {build : (room : Nat) → Row (fields.map (within (room - 1))) → α}
    (build_eq : ∀ room room' row, build room' (Row.across fields row) = build room row) :
    Roomy depth fun room =>
      Decoder.record room title (fields.map (within (room - 1))) (build room) := by
  have map_eq : ∀ {room} room' (result : Except ReadError (Row (fields.map (within (room - 1))))),
      result.map (build room) = (result.map (Row.across fields)).map (build room') := by
    intro room room' result
    cases result with
    | error problem => rfl
    | ok row => exact congrArg Except.ok (build_eq room room' row).symm
  intro room room' doc nests fits fits'
  cases doc with
  | arr docs ending =>
      rw [Doc.depth] at nests fits fits'
      have items_eq := Row.ofItems_across (roomy (Doc.itemDepth docs) nests) (Nat.le_refl _)
        (Nat.le_sub_one_of_lt fits) (Nat.le_sub_one_of_lt fits')
        (.elements title fields.length) 0 ending
      simp only [Decoder.record, List.length_map]
      rw [if_neg (by omega), if_neg (by omega), items_eq, map_eq]
  | obj members ending =>
      rw [Doc.depth] at nests fits fits'
      have members_eq := Row.ofMembers_across (roomy (Doc.memberDepth members) nests)
        (Nat.le_refl _) (Nat.le_sub_one_of_lt fits) (Nat.le_sub_one_of_lt fits') ending
      simp only [Decoder.record]
      rw [if_neg (by omega), if_neg (by omega), members_eq, map_eq]
  | _ => rfl

end Decoder

open Decoder (Roomy)

theorem Comment.roomy (depth : Nat) : Roomy depth Comment.read := by
  have lines_roomy : Roomy depth fun room => Decoder.list room .text :=
    Decoder.Roomy.list fun _ _ _ _ _ _ _ _ => rfl
  intro room room' doc nests fits fits'
  exact congrArg (Except.map Comment.mk) (lines_roomy room room' doc nests fits fits')

theorem Setting.roomy (title : String) (depth : Nat) : Roomy depth (Setting.read title) := by
  have roomy : ∀ inner < depth, AllRoomy inner
      [.flat (required "name" .text), .flat (required "value" .text)] :=
    fun _ _ => .flat <| .flat .nil
  apply Decoder.Roomy.record roomy title
  intro room room' row
  rfl

namespace RoomyField

/-- A list of items that are read one container further in. -/
def list {α : Type} (name : String) (read : Nat → Decoder α) : RoomyField :=
  .optional name [] fun room => .list room (read (room - 1))

/-- The comment of a record. -/
def comment : RoomyField :=
  .optional "comment" {} Comment.read

/-- The settings of a record. -/
def options (title : String) : RoomyField :=
  .list "options" (Setting.read title)

namespace AllRoomy

variable {depth : Nat} {fields : List RoomyField} (rest : AllRoomy depth fields)

include rest

theorem list {α : Type} {name : String} {read : Nat → Decoder α}
    (roomy : ∀ inner, Roomy inner read) : AllRoomy depth (RoomyField.list name read :: fields) :=
  .cons (Decoder.Roomy.list fun inner _ => roomy inner) rest

theorem comment : AllRoomy depth (RoomyField.comment :: fields) :=
  .cons (Comment.roomy depth) rest

theorem options {title : String} : AllRoomy depth (RoomyField.options title :: fields) :=
  rest.list (Setting.roomy title)

end AllRoomy

end RoomyField

theorem MessageField.roomy (depth : Nat) : Roomy depth MessageField.read := by
  have roomy : ∀ inner < depth, AllRoomy inner
      [.flat (optional "repeated" false .boolean), .flat (required "type" .text),
        .flat (required "name" .text), .flat (required "index" .unsigned32),
        .options Setting.fieldTitle, .comment] :=
    fun _ _ => .flat <| .flat <| .flat <| .flat <| .options <| .comment .nil
  apply Decoder.Roomy.record roomy "MessageField"
  intro room room' row
  rfl

theorem OneOfField.roomy (depth : Nat) : Roomy depth OneOfField.read := by
  have roomy : ∀ inner < depth, AllRoomy inner
      [.flat (required "type" .text), .flat (required "name" .text),
        .flat (required "index" .unsigned32), .comment, .options Setting.plainTitle] :=
    fun _ _ => .flat <| .flat <| .flat <| .comment <| .options .nil
  apply Decoder.Roomy.record roomy "OneOfField"
  intro room room' row
  rfl

theorem OneOf.roomy (depth : Nat) : Roomy depth OneOf.read := by
  have roomy : ∀ inner < depth, AllRoomy inner
      [.flat (required "name" .text), .comment, .list "fields" OneOfField.read] :=
    fun _ _ => .flat <| .comment <| .list .nil OneOfField.roomy
  apply Decoder.Roomy.record roomy "OneOf"
  intro room room' row
  rfl

theorem EnumValue.roomy (depth : Nat) : Roomy depth EnumValue.read := by
  have roomy : ∀ inner < depth, AllRoomy inner
      [.flat (required "name" .text), .flat (required "index" .signed32),
        .options Setting.enumValueTitle, .comment] :=
    fun _ _ => .flat <| .flat <| .options <| .comment .nil
  apply Decoder.Roomy.record roomy "EnumField"
  intro room room' row
  rfl

theorem Enumeration.roomy (depth : Nat) : Roomy depth Enumeration.read := by
  have roomy : ∀ inner < depth, AllRoomy inner
      [.flat (required "name" .text), .options Setting.plainTitle, .list "fields" EnumValue.read,
        .comment] :=
    fun _ _ => .flat <| .options <| .list (.comment .nil) EnumValue.roomy
  apply Decoder.Roomy.record roomy "Enum"
  intro room room' row
  rfl

namespace Message

/-- What reads the messages in the body of a message. -/
def nested : Nat → Decoder Message
  | 0 => noRoom
  | 1 => noRoom
  | room + 2 => read room

theorem read_eq_readWith (room : Nat) : read room = readWith room (nested (room - 1 + 1)) := by
  match room with
  | 0 => rfl
  | 1 => rfl
  | room + 2 => rfl

theorem roomy (depth : Nat) : Roomy depth Message.read := by
  -- The messages in the body lie two containers further in, the list and its items.
  induction depth using Nat.strongRecOn with
  | ind depth ih =>
      have messages_roomy : ∀ inner < depth,
          Roomy inner fun room => Decoder.list room (nested (room + 1)) := by
        intro inner inner_lt
        apply Decoder.Roomy.list
        intro inmost inmost_lt
        exact ih inmost (Nat.lt_trans inmost_lt inner_lt)
      have roomy : ∀ inner < depth, AllRoomy inner
          [.flat (required "name" .text), .comment, .list "fields" MessageField.read,
            .list "enums" Enumeration.read,
            .optional "messages" [] fun room => .list room (nested (room + 1)),
            .list "oneofs" OneOf.read] :=
        fun inner inner_lt => .flat <| .comment <|
          .list (.list (.cons (messages_roomy inner inner_lt) <| .list .nil OneOf.roomy)
            Enumeration.roomy) MessageField.roomy
      have readWith_roomy : Roomy depth fun room => readWith room (nested (room - 1 + 1)) := by
        apply Decoder.Roomy.record roomy "Message"
        intro room room' row
        rfl
      intro room room' doc nests fits fits'
      rw [read_eq_readWith, read_eq_readWith]
      exact readWith_roomy room room' doc nests fits fits'

end Message

end ProtoSchema
