import ProtoSchema.Proofs.Codec.RecordForms
import ProtoSchema.Proofs.Json.Composition

/-!
# The two forms of records

A record may be given by an object or, without the names of its fields, by an array of their values.
The two forms agree: from values for the first fields of a record they are read as the same record,
with the same defaults for the fields that are left out; a value that cannot be read is the same
problem in both; and a field that is left out without having a default is named by the one form and
counted by the other: `Kind.read_positional`.

Both forms first fill the slots of the leading fields, `Slots.ofItems`, and then take defaults for
the others. They differ only in what they say about a slot that stays empty, `Slots.complete` and
`Slots.completeFrom`.
-/

namespace ProtoSchema

namespace Slots

/-- Reads documents in order into the slots of the leading fields. -/
def ofItems : (fields : List RecordField) → List Doc → Except ReadError (Slots fields)
  | [], _ => .ok ()
  | field :: fields, [] => .ok (empty (field :: fields))
  | field :: fields, doc :: docs =>
    (field.read doc).bind fun value =>
      (ofItems fields docs).map fun slots => (some value, slots)

/-- The values found, with the defaults of the fields that did not occur. A field without either is
reported by its position, which is counted from `position` on. -/
def completeFrom (expected : Expected) :
    (position : Nat) → (fields : List RecordField) → Slots fields → Except ReadError (Row fields)
  | _, [], _ => .ok ()
  | position, field :: fields, (slot, slots) =>
    match slot <|> field.fallback with
    | some value => (completeFrom expected (position + 1) fields slots).map fun row => (value, row)
    | none => .error (.tooShort position expected)

variable {field : RecordField} {fields : List RecordField}

theorem ofItems_cons (doc : Doc) (docs : List Doc) :
    ofItems (field :: fields) (doc :: docs) =
      (field.read doc).bind fun value => (ofItems fields docs).map (cons (some value)) := rfl

theorem completeFrom_cons (expected : Expected) (position : Nat) (slot : Option field.Value)
    (slots : Slots fields) :
    completeFrom expected position (field :: fields) (cons slot slots) =
      match slot <|> field.fallback with
      | some value => (completeFrom expected (position + 1) fields slots).map (Row.cons value)
      | none => .error (.tooShort position expected) := rfl

/-- The members that give documents to the leading fields. -/
def members (fields : List RecordField) (docs : List Doc) : List (Option String × Doc) :=
  ((fields.map RecordField.name).zip docs).map fun member => (some member.1, member.2)

theorem putAll_members (distinct : (fields.map RecordField.name).Nodup) (docs : List Doc) :
    putAll fields (members fields docs) (empty fields) = ofItems fields docs := by
  induction fields generalizing docs with
  | nil => rfl
  | cons field fields ih =>
      rw [List.map_cons, List.nodup_cons] at distinct
      cases docs with
      | nil => rfl
      | cons doc docs =>
          have others : ∀ member ∈ members fields docs, member.1 ≠ some field.name := by
            intro member member_mem same
            rcases List.mem_map.mp member_mem with ⟨pair, pair_mem, rfl⟩
            have name_eq : pair.1 = field.name := Option.some.inj same
            exact distinct.1 (name_eq ▸ (List.of_mem_zip pair_mem).1)
          rw [members, List.map_cons, List.zip_cons_cons, List.map_cons, ← members, ofItems_cons,
            putAll_member, empty_cons, put_cons, if_pos rfl]
          cases field.read doc with
          | error problem => rfl
          | ok value =>
              change putAll (field :: fields) _ (cons (some value) (empty fields)) = _
              rw [putAll_others others, ih distinct.2]
              rfl

theorem ofItems_nil (fields : List RecordField) : ofItems fields [] = .ok (empty fields) := by
  cases fields <;> rfl

/-- A document that its field does not accept is the problem, if those before it are accepted. -/
theorem ofItems_problem {before after : List RecordField} {earlier later : List Doc} {doc : Doc}
    (position_eq : before.length = earlier.length)
    (accepted : ∀ pair ∈ before.zip earlier, ∃ value, pair.1.read pair.2 = .ok value)
    {problem : ReadError} (read_eq : field.read doc = .error problem) :
    ofItems (before ++ field :: after) (earlier ++ doc :: later) = .error problem := by
  induction before generalizing earlier with
  | nil =>
      cases earlier with
      | nil =>
          rw [List.nil_append, List.nil_append, ofItems_cons, read_eq]
          rfl
      | cons item earlier => cases position_eq
  | cons first before ih =>
      cases earlier with
      | nil => cases position_eq
      | cons item earlier =>
          rw [List.zip_cons_cons, List.forall_mem_cons] at accepted
          rcases accepted with ⟨⟨value, item_eq⟩, accepted⟩
          rw [List.cons_append, List.cons_append, ofItems_cons, item_eq]
          simp only [Except.bind, ih (Nat.succ.inj position_eq) accepted]
          rfl

/-- The fields that are left out get their defaults in the same way, and it depends on nothing else
whether there are enough of them. -/
theorem completeFrom_eq_ok_iff (expected : Expected) (position : Nat) {slots : Slots fields}
    {row : Row fields} :
    completeFrom expected position fields slots = .ok row ↔ complete fields slots = .ok row := by
  induction fields generalizing position with
  | nil => rfl
  | cons field fields ih =>
      rcases slots.eq_cons with ⟨slot, slots, rfl⟩
      rw [completeFrom_cons, Row.complete_slots_cons]
      cases slot <|> field.fallback with
      | none => simp
      | some value =>
          constructor
          · intro map_eq
            rcases Except.map_eq_ok map_eq with ⟨rest, rest_eq, rfl⟩
            simp only [(ih (position + 1)).mp rest_eq, Except.map]
          · intro map_eq
            rcases Except.map_eq_ok map_eq with ⟨rest, rest_eq, rfl⟩
            simp only [(ih (position + 1)).mpr rest_eq, Except.map]

section

variable {slot : Option field.Value} {slots : Slots fields} {value : field.Value}
  (slot_eq : (slot <|> field.fallback) = some value) {problem : ReadError}

include slot_eq

theorem complete_cons_error (complete_eq : complete fields slots = .error problem) :
    complete (field :: fields) (cons slot slots) = .error problem := by
  rw [Row.complete_slots_cons, slot_eq, complete_eq]
  rfl

theorem completeFrom_cons_error {expected : Expected} {position : Nat}
    (complete_eq : completeFrom expected (position + 1) fields slots = .error problem) :
    completeFrom expected position (field :: fields) (cons slot slots) = .error problem := by
  rw [completeFrom_cons, slot_eq, complete_eq]
  rfl

end

/-- If the documents are accepted but leave out a field that has no default, the first such field
is the problem. -/
theorem ofItems_lacking {before after : List RecordField} {docs : List Doc}
    (shorter : docs.length ≤ before.length)
    (accepted : ∀ pair ∈ before.zip docs, ∃ value, pair.1.read pair.2 = .ok value)
    (defaulted : ∀ other ∈ before.drop docs.length, other.fallback.isSome = true)
    (required : field.fallback = none) (expected : Expected) (position : Nat) :
    ∃ slots, ofItems (before ++ field :: after) docs = .ok slots ∧
      complete _ slots = .error (.missingField field.name) ∧
      completeFrom expected position _ slots =
        .error (.tooShort (position + before.length) expected) := by
  induction before generalizing docs position with
  | nil =>
      rw [List.length_nil, Nat.le_zero, List.length_eq_zero_iff] at shorter
      subst shorter
      refine ⟨_, ofItems_nil _, ?_, ?_⟩
      · rw [List.nil_append, empty_cons, Row.complete_slots_cons, required]
        rfl
      · rw [List.nil_append, empty_cons, completeFrom_cons, required]
        rfl
  | cons first before ih =>
      rw [List.length_cons, ← Nat.add_assoc, Nat.add_right_comm]
      cases docs with
      | nil =>
          rw [List.length_nil, List.drop_zero, List.forall_mem_cons] at defaulted
          rcases Option.isSome_iff_exists.mp defaulted.1 with ⟨value, value_eq⟩
          have slot_eq : (none <|> first.fallback) = some value := value_eq
          have none_given : ([] : List Doc).length ≤ before.length := Nat.zero_le _
          rcases ih none_given (by simp) defaulted.2 (position + 1) with
            ⟨slots, slots_eq, missing, counted⟩
          rw [ofItems_nil] at slots_eq
          cases slots_eq
          exact ⟨cons none _, ofItems_nil _, complete_cons_error slot_eq missing,
            completeFrom_cons_error slot_eq counted⟩
      | cons doc docs =>
          rw [List.zip_cons_cons, List.forall_mem_cons] at accepted
          rcases accepted with ⟨⟨value, read_eq⟩, accepted⟩
          rcases ih (Nat.le_of_succ_le_succ shorter) accepted defaulted (position + 1) with
            ⟨slots, slots_eq, missing, counted⟩
          have items_eq : ofItems (first :: (before ++ field :: after)) (doc :: docs) =
              .ok (cons (some value) slots) := by
            rw [ofItems_cons, read_eq, slots_eq]
            rfl
          exact ⟨cons (some value) slots, items_eq, complete_cons_error rfl missing,
            completeFrom_cons_error rfl counted⟩

theorem completeFrom_empty (expected : Expected) (position : Nat) :
    completeFrom expected position fields (empty fields) =
      Row.ofItems expected position fields [] .closed := by
  induction fields generalizing position with
  | nil => rfl
  | cons field fields ih =>
      rw [empty_cons, completeFrom_cons, Row.ofItems_closed, ← ih (position + 1)]
      cases field.fallback <;> rfl

end Slots

namespace Row

variable {fields : List RecordField}

theorem ofMembers_members (distinct : (fields.map RecordField.name).Nodup) (docs : List Doc) :
    ofMembers fields (Slots.members fields docs) .closed =
      (Slots.ofItems fields docs).bind (Slots.complete fields) := by
  rw [ofMembers, Slots.putAll_members distinct]
  rfl

theorem ofItems_eq (expected : Expected) (position : Nat) {docs : List Doc}
    (fits : docs.length ≤ fields.length) :
    ofItems expected position fields docs .closed =
      (Slots.ofItems fields docs).bind (Slots.completeFrom expected position fields) := by
  induction fields generalizing docs position with
  | nil =>
      rw [List.length_nil, Nat.le_zero, List.length_eq_zero_iff] at fits
      subst fits
      rfl
  | cons field fields ih =>
      cases docs with
      | nil => exact (Slots.completeFrom_empty expected position).symm
      | cons doc docs =>
          rw [ofItems_item, Slots.ofItems_cons, ih (position + 1) (Nat.le_of_succ_le_succ fits)]
          cases field.read doc with
          | error problem => rfl
          | ok value => cases Slots.ofItems fields docs <;> rfl

end Row

namespace Decoder.RecordForm

variable {α : Type} {room : Nat} {decoder : Decoder α} (form : RecordForm room decoder)
  (opens : 0 < room)

include opens

theorem decode_arr {docs : List Doc} (fits : docs.length ≤ form.fields.length) :
    decoder (.arr docs .closed) =
      ((Slots.ofItems form.fields docs).bind
        (Slots.completeFrom (.elements form.title form.fields.length) 0 form.fields)).map
          form.build := by
  rw [← Row.ofItems_eq _ _ fits]
  refine (congrFun form.decoder_eq _).trans ?_
  rw [record, if_neg (by omega)]

theorem decode_obj (docs : List Doc) :
    decoder (.obj (Slots.members form.fields docs) .closed) =
      ((Slots.ofItems form.fields docs).bind (Slots.complete form.fields)).map form.build := by
  rw [← Row.ofMembers_members form.distinct]
  refine (congrFun form.decoder_eq _).trans ?_
  rw [record, if_neg (by omega)]

/-- The two forms are read as the same values. -/
theorem decode_arr_eq_ok_iff {docs : List Doc} (fits : docs.length ≤ form.fields.length)
    {value : α} :
    decoder (.arr docs .closed) = .ok value ↔
      decoder (.obj (Slots.members form.fields docs) .closed) = .ok value := by
  rw [form.decode_arr opens fits, form.decode_obj opens]
  cases Slots.ofItems form.fields docs with
  | error problem => rfl
  | ok slots =>
      constructor
      · intro map_eq
        rcases Except.map_eq_ok map_eq with ⟨row, row_eq, rfl⟩
        have complete_eq := (Slots.completeFrom_eq_ok_iff _ _).mp row_eq
        simp only [Except.bind, complete_eq, Except.map]
      · intro map_eq
        rcases Except.map_eq_ok map_eq with ⟨row, row_eq, rfl⟩
        have complete_eq := (Slots.completeFrom_eq_ok_iff
          (.elements form.title form.fields.length) 0).mpr row_eq
        simp only [Except.bind, complete_eq, Except.map]

end Decoder.RecordForm

/-- A field accepts the value that a text holds. -/
def RecordField.Accepts (field : RecordField) (text : String) : Prop :=
  ∃ value, field.read (Document.ofText text).root = .ok value

theorem RecordField.required_accepts {α : Type} {read : Decoder α} {text : String} {value : α}
    (read_eq : read (Document.ofText text).root = .ok value) (name : String) :
    (RecordField.required name read).Accepts text :=
  ⟨value, read_eq⟩

theorem RecordField.optional_accepts {α : Type} {read : Decoder α} {text : String} {value : α}
    (read_eq : read (Document.ofText text).root = .ok value) (name : String) (fallback : α) :
    (RecordField.optional name fallback read).Accepts text :=
  ⟨value, read_eq⟩

theorem RecordField.Accepts.read_of_mem_zip {fields : List RecordField} {texts : List String}
    (accepted : ∀ pair ∈ fields.zip texts, pair.1.Accepts pair.2) :
    ∀ pair ∈ fields.zip (texts.map fun text => (Document.ofText text).root),
      ∃ value, pair.1.read pair.2 = .ok value := by
  rw [List.zip_map_right, List.forall_mem_map]
  exact accepted

namespace Kind

theorem errorInText_tooShort (kind : Kind) (length : Nat) (expected : Expected) :
    kind.errorInText (.tooShort length expected) = .tooShort length expected :=
  kind.errorInText_eq rfl

theorem read_eq_error_of_decode {kind : Kind} {text : String} {doc : Doc} {complete : Bool}
    (text_eq : Document.ofText text = ⟨doc, complete⟩) {problem : ReadError}
    (decode_eq : kind.decode Decoder.maxNesting doc = .error problem) :
    kind.read text = .error (kind.errorInText problem) := by
  apply read_eq_error
  rw [text_eq, readDoc, decode_eq]
  rfl

/-- The values of the leading fields of a record may be given in an array or under the names of the
fields in an object. Both texts are read as the same record or as none. The first value that its
field does not accept is the same problem in both. If all values are accepted, but a field is left
out that has no default, then the object misses the first such field by its name, and the array
ends at its position. -/
theorem read_positional (kind : Kind) (isRecord : (kind.form? Decoder.maxNesting).isSome = true)
    (texts : List String) (complete : ∀ text ∈ texts, (Document.ofText text).complete = true) :
    let form := (kind.form? Decoder.maxNesting).get isRecord
    let array := Document.arrayText texts
    let object := Document.objectText ((form.fields.map RecordField.name).zip texts)
    texts.length ≤ form.fields.length →
      (∀ value, kind.read array = .ok value ↔ kind.read object = .ok value) ∧
      (∀ before field after earlier text later problem,
        form.fields = before ++ field :: after → texts = earlier ++ text :: later →
        before.length = earlier.length → (∀ pair ∈ before.zip earlier, pair.1.Accepts pair.2) →
        field.read (Document.ofText text).root = .error problem →
        kind.read array = .error (kind.errorInText problem) ∧
          kind.read object = .error (kind.errorInText problem)) ∧
      (∀ before field after, form.fields = before ++ field :: after →
        texts.length ≤ before.length → (∀ pair ∈ before.zip texts, pair.1.Accepts pair.2) →
        (∀ other ∈ before.drop texts.length, other.fallback.isSome = true) →
        field.fallback = none →
        kind.read object = .error (.missingField field.name) ∧
          kind.read array =
            .error (.tooShort before.length (.elements form.title form.fields.length))) := by
  intro form array object fits
  let docs := texts.map fun text => (Document.ofText text).root
  have docs_fit : docs.length ≤ form.fields.length := by simpa [docs] using fits
  have array_eq : Document.ofText array = ⟨.arr docs .closed, true⟩ :=
    Document.ofText_arrayText complete
  have object_eq : Document.ofText object =
      ⟨.obj (Slots.members form.fields docs) .closed, true⟩ := by
    rw [Slots.members, List.zip_map_right, List.map_map]
    exact Document.ofText_objectText fun member member_mem =>
      complete member.2 (List.of_mem_zip member_mem).2
  have decode_arr := form.decode_arr (by decide) docs_fit
  have decode_obj := form.decode_obj (by decide) docs
  refine ⟨?_, ?_, ?_⟩
  · intro value
    rw [read_eq_ok_iff, read_eq_ok_iff, array_eq, object_eq]
    exact and_congr_left fun _ => form.decode_arr_eq_ok_iff (by decide) docs_fit
  · intro before field after earlier text later problem fields_eq texts_eq position_eq accepted
      read_eq
    have items_eq : Slots.ofItems form.fields docs = .error problem := by
      simp only [docs, texts_eq, List.map_append, List.map_cons]
      rw [fields_eq]
      exact Slots.ofItems_problem (by simpa using position_eq)
        (RecordField.Accepts.read_of_mem_zip accepted) read_eq
    rw [items_eq] at decode_arr decode_obj
    exact ⟨read_eq_error_of_decode array_eq decode_arr,
      read_eq_error_of_decode object_eq decode_obj⟩
  · intro before field after fields_eq shorter accepted defaulted required
    have lacking : ∃ slots, Slots.ofItems form.fields docs = .ok slots ∧
        Slots.complete form.fields slots = .error (.missingField field.name) ∧
        Slots.completeFrom (.elements form.title form.fields.length) 0 form.fields slots =
          .error (.tooShort before.length (.elements form.title form.fields.length)) := by
      generalize Expected.elements form.title form.fields.length = expected
      rw [fields_eq, ← Nat.zero_add before.length]
      exact Slots.ofItems_lacking (by simpa [docs] using shorter)
        (RecordField.Accepts.read_of_mem_zip accepted) (by simpa [docs] using defaulted) required
        expected 0
    rcases lacking with ⟨slots, items_eq, missing, counted⟩
    simp only [items_eq, Except.bind, missing, counted] at decode_arr decode_obj
    have array_error := read_eq_error_of_decode array_eq decode_arr
    have object_error := read_eq_error_of_decode object_eq decode_obj
    rw [errorInText_tooShort] at array_error
    rw [errorInText_missingField] at object_error
    exact ⟨object_error, array_error⟩

/-- A procedure that ends behind its comment, in texts with blanks and an escape, and one whose
input lacks its name, so that its output is not looked at. -/
theorem read_positional_rpc :
    (Kind.rpc.read "[\"m\" , [\"\\u0063\"]]" = .error (.tooShort 2 (.elements "Rpc" 4)) ∧
      Kind.rpc.read "\x7b\"name\":\"m\" ,\"comment\": [\"\\u0063\"]\x7d" =
        .error (.missingField "input")) ∧
    (Kind.rpc.read "[\"m\",[],\x7b\x7d,3]" = .error (.missingField "name") ∧
      Kind.rpc.read "\x7b\"name\":\"m\",\"comment\":[],\"input\":\x7b\x7d,\"output\":3\x7d" =
        .error (.missingField "name")) := by
  let name := RecordField.required "name" .text
  let comment := RecordField.optional "comment" {} (Comment.read 126)
  let input := RecordField.required "input" (ReturnType.read 126)
  let output := RecordField.required "output" (ReturnType.read 126)
  have accepted : ∀ {nameText commentText : String}, name.Accepts nameText →
      comment.Accepts commentText →
      ∀ pair ∈ [name, comment].zip [nameText, commentText], pair.1.Accepts pair.2 := by
    intro nameText commentText name_accepts comment_accepts
    exact List.forall_mem_cons.mpr ⟨name_accepts, List.forall_mem_singleton.mpr comment_accepts⟩
  have names_eq : ((Kind.rpc.form? Decoder.maxNesting).get rfl).fields.map RecordField.name =
      ["name", "comment", "input", "output"] := rfl
  constructor
  · have name_eq : Decoder.text (Document.ofText "\"m\" ").root = .ok "m" := by decide +kernel
    have comment_eq : Comment.read 126 (Document.ofText " [\"\\u0063\"]").root = .ok ⟨["c"]⟩ := by
      decide +kernel
    have lacks := (read_positional .rpc rfl ["\"m\" ", " [\"\\u0063\"]"] (by decide +kernel)
      (by decide)).2.2 [name, comment] input [output] rfl (by decide)
      (accepted (RecordField.required_accepts name_eq _)
        (RecordField.optional_accepts comment_eq _ _)) (by simp) rfl
    rw [names_eq] at lacks
    exact ⟨lacks.2, lacks.1⟩
  · have name_eq : Decoder.text (Document.ofText "\"m\"").root = .ok "m" := by decide +kernel
    have comment_eq : Comment.read 126 (Document.ofText "[]").root = .ok ⟨[]⟩ := by decide +kernel
    have input_eq : ReturnType.read 126 (Document.ofText "\x7b\x7d").root =
        .error (.missingField "name") := by decide +kernel
    have fails := (read_positional .rpc rfl ["\"m\"", "[]", "\x7b\x7d", "3"] (by decide +kernel)
      (by decide)).2.1 [name, comment] input [output] ["\"m\"", "[]"] "\x7b\x7d" ["3"]
      (.missingField "name") rfl rfl rfl (accepted (RecordField.required_accepts name_eq _)
        (RecordField.optional_accepts comment_eq _ _)) input_eq
    rw [names_eq] at fails
    exact fails

end Kind

end ProtoSchema
