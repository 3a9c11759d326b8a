import Mathlib.Order.Basic
import ProtoSchema.Codec.Record
import ProtoSchema.Proofs.Json.WrittenText

/-!
# Records read back

A record is written as an object whose members come in the order of its fields. For each field there
is a part of the object: one member under the name of the field, or nothing if the value is the
default. `Row.Written` says this of all fields at once, and an object of this form is read as the
row of values it was written for, provided that the names of the fields are distinct and that its
containers are not nested too deep.
-/

namespace ProtoSchema

namespace Except

variable {ε α β : Type}

/-- A result that is turned into an accepted one was accepted. -/
theorem map_eq_ok {f : α → β} {result : Except ε α} {value : β}
    (map_eq : result.map f = .ok value) : ∃ found, result = .ok found ∧ f found = value := by
  cases result with
  | error problem => cases map_eq
  | ok found => exact ⟨found, rfl, Except.ok.inj map_eq⟩

/-- A problem stays what it is when a result is turned into another one. -/
theorem map_eq_error {f : α → β} {result : Except ε α} {problem : ε}
    (map_eq : result.map f = .error problem) : result = .error problem := by
  cases result with
  | error found => exact congrArg _ (Except.error.inj map_eq)
  | ok value => cases map_eq

/-- Of two steps that are accepted one after the other, each is accepted. -/
theorem bind_eq_ok {next : α → Except ε β} {result : Except ε α} {value : β}
    (bind_eq : result.bind next = .ok value) :
    ∃ found, result = .ok found ∧ next found = .ok value := by
  cases result with
  | error problem => cases bind_eq
  | ok found => exact ⟨found, rfl, bind_eq⟩

end Except

namespace Json

theorem memberDepth_append (members others : List (String × Json)) :
    memberDepth (members ++ others) = max (memberDepth members) (memberDepth others) := by
  induction members with
  | nil => simp [memberDepth]
  | cons member rest ih => simp [memberDepth, ih, Nat.max_assoc]

theorem depth_le_itemDepth {item : Json} {items : List Json} (item_mem : item ∈ items) :
    item.depth ≤ itemDepth items := by
  induction items with
  | nil => cases item_mem
  | cons first rest ih =>
      rw [itemDepth]
      rcases List.mem_cons.mp item_mem with rfl | item_mem
      · exact Nat.le_max_left _ _
      · exact Nat.le_trans (ih item_mem) (Nat.le_max_right _ _)

/-- The member of a list that is not empty holds one container around the items. -/
theorem memberDepth_listMember (name : String) {items : List Json} (ne_nil : items ≠ []) :
    memberDepth (listMember name items) = itemDepth items + 1 := by
  simp [listMember, ne_nil, memberDepth, depth]

theorem mem_memberDocs {members : List (String × Json)} {member : Option String × Doc}
    (member_mem : member ∈ memberDocs members) :
    ∃ name json, (name, json) ∈ members ∧ member = (some name, json.toDoc) := by
  induction members with
  | nil => cases member_mem
  | cons first rest ih =>
      rcases first with ⟨name, json⟩
      rw [memberDocs, List.mem_cons] at member_mem
      rcases member_mem with rfl | member_mem
      · exact ⟨name, json, List.mem_cons_self, rfl⟩
      · rcases ih member_mem with ⟨name, json, rest_mem, rfl⟩
        exact ⟨name, json, List.mem_cons_of_mem _ rest_mem, rfl⟩

end Json

namespace Slots

variable {field : RecordField} {fields : List RecordField}

/-- A slot before others. -/
def cons (slot : Option field.Value) (slots : Slots fields) : Slots (field :: fields) :=
  (slot, slots)

theorem eq_cons (slots : Slots (field :: fields)) :
    ∃ slot rest, slots = cons slot rest :=
  ⟨slots.1, slots.2, rfl⟩

theorem empty_cons : empty (field :: fields) = cons none (empty fields) := rfl

theorem put_cons (name : String) (doc : Doc) (slot : Option field.Value) (slots : Slots fields) :
    put name doc (field :: fields) (cons slot slots) =
      if field.name = name then
        match slot with
        | some _ => .error (.duplicateField name)
        | none => (field.read doc).map fun value => cons (some value) slots
      else
        (put name doc fields slots).map (cons slot) := rfl

theorem put_first {doc : Doc} {value : field.Value} (read_eq : field.read doc = .ok value)
    (slots : Slots fields) :
    put field.name doc (field :: fields) (cons none slots) = .ok (cons (some value) slots) := by
  rw [put_cons, if_pos rfl, read_eq]
  rfl

theorem put_other {name : String} (name_ne : field.name ≠ name) (doc : Doc)
    (slot : Option field.Value) (slots : Slots fields) :
    put name doc (field :: fields) (cons slot slots) =
      (put name doc fields slots).map (cons slot) := by
  rw [put_cons, if_neg name_ne]

theorem putAll_member (name : String) (doc : Doc) (rest : List (Option String × Doc))
    (slots : Slots fields) :
    putAll fields ((some name, doc) :: rest) slots =
      (put name doc fields slots).bind (putAll fields rest) := rfl

/-- Members of other names pass by the first slot. -/
theorem putAll_others {members : List (Option String × Doc)}
    (others : ∀ member ∈ members, member.1 ≠ some field.name) (slot : Option field.Value)
    (slots : Slots fields) :
    putAll (field :: fields) members (cons slot slots) =
      (putAll fields members slots).map (cons slot) := by
  induction members generalizing slots with
  | nil => rfl
  | cons member rest ih =>
      rcases member with ⟨_ | name, doc⟩
      · rfl
      · have name_ne : field.name ≠ name := by
          rintro rfl
          exact others _ List.mem_cons_self rfl
        have rest_others : ∀ member ∈ rest, member.1 ≠ some field.name :=
          fun member member_mem => others member (List.mem_cons_of_mem _ member_mem)
        rw [putAll_member, putAll_member, put_other name_ne]
        cases put name doc fields slots with
        | error problem => rfl
        | ok slots => exact ih rest_others slots

end Slots

namespace Row

variable {field : RecordField} {fields : List RecordField}

/-- The value of a field before others. -/
def cons (value : field.Value) (row : Row fields) : Row (field :: fields) :=
  (value, row)

theorem ofItems_item (expected : Expected) (position : Nat) (item : Doc) (items : List Doc)
    (ending : Ending) :
    ofItems expected position (field :: fields) (item :: items) ending =
      (field.read item).bind fun value =>
        (ofItems expected (position + 1) fields items ending).map (cons value) := by
  cases ending <;> rfl

theorem ofItems_closed (expected : Expected) (position : Nat) :
    ofItems expected position (field :: fields) [] .closed =
      match field.fallback with
      | some value => (ofItems expected (position + 1) fields [] .closed).map (cons value)
      | none => .error (.tooShort position expected) := rfl

theorem complete_slots_cons (slot : Option field.Value) (slots : Slots fields) :
    (Slots.cons slot slots).complete (field :: fields) =
      match slot <|> field.fallback with
      | some value => (slots.complete fields).map (cons value)
      | none => .error (.missingField field.name) := rfl

/-- A completed row has a value for each field, found or a default. -/
theorem of_complete_cons {slot : Option field.Value} {slots : Slots fields}
    {row : Row (field :: fields)}
    (complete_eq : (Slots.cons slot slots).complete (field :: fields) = .ok row) :
    ∃ value rest, (slot <|> field.fallback) = some value ∧
      slots.complete fields = .ok rest ∧ cons value rest = row := by
  rw [complete_slots_cons] at complete_eq
  split at complete_eq
  · rename_i value value_eq
    rcases Except.map_eq_ok complete_eq with ⟨rest, rest_eq, rfl⟩
    exact ⟨value, rest, value_eq, rest_eq, rfl⟩
  · cases complete_eq

theorem complete_cons {slot : Option field.Value} {slots : Slots fields} {value : field.Value}
    {row : Row fields} (slot_eq : (slot <|> field.fallback) = some value)
    (complete_eq : slots.complete fields = .ok row) :
    (Slots.cons slot slots).complete (field :: fields) = .ok (cons value row) := by
  rw [complete_slots_cons, slot_eq, complete_eq]
  rfl

end Row

/-- A part of a written object from which a field is read as a value. -/
inductive RecordField.Carries (field : RecordField) : List (String × Json) → field.Value → Prop
  | present {json : Json} {value : field.Value} (read_eq : field.read json.toDoc = .ok value) :
      Carries field [(field.name, json)] value
  | absent {value : field.Value} (fallback_eq : field.fallback = some value) :
      Carries field [] value

/-- The parts of a written object from which the fields of a record are read as a row, if the
containers in each part are nested at most `room` deep. -/
inductive Row.Written (room : Nat) :
    (fields : List RecordField) → List (List (String × Json)) → Row fields → Prop
  | nil : Written room [] [] ()
  | cons {field : RecordField} {fields : List RecordField} {part : List (String × Json)}
      {parts : List (List (String × Json))} {value : field.Value} {row : Row fields}
      (carries : Json.memberDepth part ≤ room → field.Carries part value)
      (rest : Written room fields parts row) :
      Written room (field :: fields) (part :: parts) (Row.cons value row)

namespace Row

/-- Every member of a written object is named after a field. -/
theorem Written.name_mem {room : Nat} {fields : List RecordField}
    {parts : List (List (String × Json))} {row : Row fields}
    (written : Written room fields parts row)
    (fits : Json.memberDepth parts.flatten ≤ room) {member : String × Json}
    (member_mem : member ∈ parts.flatten) : member.1 ∈ fields.map RecordField.name := by
  induction written with
  | nil => cases member_mem
  | cons carries _ ih =>
      rw [List.flatten_cons, Json.memberDepth_append, Nat.max_le] at fits
      rw [List.flatten_cons, List.mem_append] at member_mem
      rw [List.map_cons, List.mem_cons]
      rcases member_mem with member_mem | member_mem
      · cases carries fits.1 with
        | present read_eq =>
            left
            rw [List.mem_singleton.mp member_mem]
        | absent fallback_eq => cases member_mem
      · right
        exact ih fits.2 member_mem

theorem Written.putAll_complete {room : Nat} {fields : List RecordField}
    {parts : List (List (String × Json))} {row : Row fields}
    (written : Written room fields parts row)
    (distinct : (fields.map RecordField.name).Nodup)
    (fits : Json.memberDepth parts.flatten ≤ room) :
    ∃ slots, Slots.putAll fields (Json.memberDocs parts.flatten) (Slots.empty fields) = .ok slots ∧
      Slots.complete fields slots = .ok row := by
  induction written with
  | nil => exact ⟨(), rfl, rfl⟩
  | @cons field fields part parts value row carries written ih =>
      rw [List.flatten_cons, Json.memberDepth_append, Nat.max_le] at fits
      rw [List.map_cons, List.nodup_cons] at distinct
      rcases ih distinct.2 fits.2 with ⟨slots, putAll_eq, complete_eq⟩
      have others : ∀ member ∈ Json.memberDocs parts.flatten, member.1 ≠ some field.name := by
        intro member member_mem same
        rcases Json.mem_memberDocs member_mem with ⟨name, json, written_mem, rfl⟩
        cases same
        exact distinct.1 (written.name_mem fits.2 written_mem)
      cases carries fits.1 with
      | present read_eq =>
          refine ⟨Slots.cons (some value) slots, ?_, complete_cons rfl complete_eq⟩
          rw [List.flatten_cons, List.singleton_append, Json.memberDocs, Slots.putAll_member,
            Slots.empty_cons, Slots.put_first read_eq]
          change Slots.putAll (field :: fields) _ _ = _
          rw [Slots.putAll_others others, putAll_eq]
          rfl
      | absent fallback_eq =>
          refine ⟨Slots.cons none slots, ?_, complete_cons (by simp [fallback_eq]) complete_eq⟩
          rw [List.flatten_cons, List.nil_append, Slots.empty_cons, Slots.putAll_others others,
            putAll_eq]
          rfl

end Row

/-- A record is read back from the object that was written for it. -/
theorem Row.Written.record_eq {α : Type} {room : Nat} {fields : List RecordField}
    {parts : List (List (String × Json))} {row : Row fields}
    (written : Row.Written (room - 1) fields parts row) {json : Json}
    (json_eq : json = .obj parts.flatten) (distinct : (fields.map RecordField.name).Nodup)
    (fits : json.depth ≤ room) (title : String) (build : Row fields → α) :
    Decoder.record room title fields build json.toDoc = .ok (build row) := by
  subst json_eq
  rw [Json.depth] at fits
  rcases written.putAll_complete distinct (by omega) with ⟨slots, putAll_eq, complete_eq⟩
  rw [Json.toDoc, Decoder.record, if_neg (by omega), Row.ofMembers, putAll_eq]
  simp only [bind, Except.bind, complete_eq, Except.map]

end ProtoSchema
