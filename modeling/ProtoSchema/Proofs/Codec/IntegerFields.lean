import ProtoSchema.Proofs.Codec.MemberOrder
import ProtoSchema.Proofs.Codec.Positional
import ProtoSchema.Proofs.Json.IntegerRange

/-!
# Fields that hold an integer

Four kinds are records with a field that holds an integer of limited range: the numbers of fields
and enum values and the width of an indentation. An integer literal given for such a field is
accepted exactly if its value is in the range of the field, and then the field holds that value; a
value out of range, a value beyond 64 bits and minus zero each have an answer of their own:
`Kind.read_integerLiteral`.

The rest of the record has to be acceptable for this. It is, if the record is accepted with some
other value for the field. Given that, the reader of the field alone decides, `FieldAt.Decides`. In
an object the members behind the field are read after it. They do not depend on its value: since
they are accepted, the member of the field can as well come last.
-/

namespace ProtoSchema

/-- Where a field stands among the fields of a record. -/
inductive FieldAt (field : RecordField) : List RecordField → Type 1
  | here (fields : List RecordField) : FieldAt field (field :: fields)
  | there (other : RecordField) {fields : List RecordField} (spot : FieldAt field fields) :
      FieldAt field (other :: fields)

namespace FieldAt

variable {field : RecordField} {fields : List RecordField}

/-- The number of fields before the field. -/
def position {fields : List RecordField} : FieldAt field fields → Nat
  | here _ => 0
  | there _ spot => spot.position + 1

/-- The value of the field. -/
def get {fields : List RecordField} : FieldAt field fields → Row fields → field.Value
  | here _, (value, _) => value
  | there _ spot, (_, row) => spot.get row

/-- Puts a value into the slot of the field. -/
def fill (value : field.Value) {fields : List RecordField} :
    FieldAt field fields → Slots fields → Slots fields
  | here _, (_, slots) => (some value, slots)
  | there _ spot, (slot, slots) => (slot, spot.fill value slots)

theorem mem (spot : FieldAt field fields) : field ∈ fields := by
  induction spot with
  | here => exact List.mem_cons_self
  | there other _ ih => exact List.mem_cons_of_mem _ ih

theorem getElem?_position (spot : FieldAt field fields) : fields[spot.position]? = some field := by
  induction spot with
  | here => rfl
  | there other spot ih => simpa [position] using ih

theorem name_ne {other : RecordField} (spot : FieldAt field fields)
    (distinct : ((other :: fields).map RecordField.name).Nodup) : other.name ≠ field.name := by
  rw [List.map_cons, List.nodup_cons] at distinct
  intro name_eq
  apply distinct.1
  rw [name_eq]
  exact List.mem_map_of_mem spot.mem

theorem find?_name (spot : FieldAt field fields) (distinct : (fields.map RecordField.name).Nodup) :
    fields.find? (·.name == field.name) = some field := by
  induction spot with
  | here => simp
  | there other spot ih =>
      have name_ne := spot.name_ne distinct
      rw [List.map_cons, List.nodup_cons] at distinct
      simpa [name_ne] using ih distinct.2

/-- Where a member was put into the slot of the field, another one can be put instead. -/
theorem put_fill (spot : FieldAt field fields) (distinct : (fields.map RecordField.name).Nodup)
    {doc other : Doc} {slots filled : Slots fields}
    (put_eq : Slots.put field.name doc fields slots = .ok filled) {value : field.Value}
    (read_eq : field.read other = .ok value) :
    Slots.put field.name other fields slots = .ok (spot.fill value filled) := by
  induction spot with
  | here fields =>
      rcases slots.eq_cons with ⟨slot, slots, rfl⟩
      rcases Slots.of_put_first put_eq with ⟨rfl, found, -, rfl⟩
      exact Slots.put_first read_eq slots
  | there first spot ih =>
      have name_ne := spot.name_ne distinct
      rw [List.map_cons, List.nodup_cons] at distinct
      rcases slots.eq_cons with ⟨slot, slots, rfl⟩
      rw [Slots.put_other name_ne] at put_eq ⊢
      rcases Except.map_eq_ok put_eq with ⟨rest, rest_eq, rfl⟩
      rw [ih distinct.2 rest_eq]
      rfl

theorem complete_fill (spot : FieldAt field fields) {slots : Slots fields} {row : Row fields}
    (complete_eq : slots.complete fields = .ok row) (value : field.Value) :
    ∃ row', (spot.fill value slots).complete fields = .ok row' ∧ spot.get row' = value := by
  induction spot with
  | here fields =>
      rcases slots.eq_cons with ⟨slot, slots, rfl⟩
      rcases Row.of_complete_cons complete_eq with ⟨found, rest, -, rest_eq, -⟩
      exact ⟨Row.cons value rest, Row.complete_cons rfl rest_eq, rfl⟩
  | there first spot ih =>
      rcases slots.eq_cons with ⟨slot, slots, rfl⟩
      rcases Row.of_complete_cons complete_eq with ⟨found, rest, slot_eq, rest_eq, -⟩
      rcases ih rest_eq with ⟨row', row_eq, get_eq⟩
      exact ⟨Row.cons found row', Row.complete_cons slot_eq row_eq, get_eq⟩

theorem putAll_fill (spot : FieldAt field fields) (distinct : (fields.map RecordField.name).Nodup)
    {before after : List (Option String × Doc)} {doc other : Doc} {slots filled : Slots fields}
    (putAll_eq : Slots.putAll fields (before ++ (some field.name, doc) :: after) slots = .ok filled)
    {value : field.Value} (read_eq : field.read other = .ok value) :
    Slots.putAll fields (before ++ (some field.name, other) :: after) slots =
      .ok (spot.fill value filled) := by
  -- With the member at the end, no other member is read behind it.
  have perm : ∀ doc, (before ++ (some field.name, doc) :: after).Perm
      ((before ++ after) ++ [(some field.name, doc)]) := by
    intro doc
    exact List.perm_middle.trans (List.perm_append_singleton _ _).symm
  have last_eq := Slots.putAll_perm (perm doc) putAll_eq
  rw [Slots.putAll_append] at last_eq
  rcases Except.bind_eq_ok last_eq with ⟨others, others_eq, last_eq⟩
  rw [Slots.putAll_member] at last_eq
  rcases Except.bind_eq_ok last_eq with ⟨filled', put_eq, filled_eq⟩
  cases filled_eq
  apply Slots.putAll_perm (perm other).symm
  rw [Slots.putAll_append, others_eq]
  change Slots.putAll fields [(some field.name, other)] others = _
  rw [Slots.putAll_member, spot.put_fill distinct put_eq read_eq]
  rfl

theorem ofItems_get (spot : FieldAt field fields) {expected : Expected} {start : Nat}
    {before after : List Doc} {doc other : Doc} {ending : Ending} {row : Row fields}
    (length_eq : before.length = spot.position)
    (ofItems_eq : Row.ofItems expected start fields (before ++ doc :: after) ending = .ok row)
    {value : field.Value} (read_eq : field.read other = .ok value) :
    ∃ row', Row.ofItems expected start fields (before ++ other :: after) ending = .ok row' ∧
      spot.get row' = value := by
  induction spot generalizing start before with
  | here fields =>
      rw [position, List.length_eq_zero_iff] at length_eq
      subst length_eq
      rw [List.nil_append, Row.ofItems_item] at ofItems_eq ⊢
      rcases Except.bind_eq_ok ofItems_eq with ⟨found, -, map_eq⟩
      rcases Except.map_eq_ok map_eq with ⟨rest, rest_eq, -⟩
      refine ⟨Row.cons value rest, ?_, rfl⟩
      rw [read_eq, rest_eq]
      rfl
  | there first spot ih =>
      cases before with
      | nil => cases length_eq
      | cons item before =>
          rw [List.cons_append, Row.ofItems_item] at ofItems_eq ⊢
          rcases Except.bind_eq_ok ofItems_eq with ⟨found, item_eq, map_eq⟩
          rcases Except.map_eq_ok map_eq with ⟨rest, rest_eq, -⟩
          rcases ih (Nat.succ.inj length_eq) rest_eq with ⟨row', row_eq, get_eq⟩
          refine ⟨Row.cons found row', ?_, get_eq⟩
          rw [item_eq, row_eq]
          rfl

/-- Among documents of which one is accepted, the reader of the field decides: what it accepts is
the value of the field, and its problem is the problem of the whole. -/
structure Decides {α : Type} (spot : FieldAt field fields) (build : Row fields → α)
    (outer : Doc → Except ReadError α) : Prop where
  accepts : ∀ {doc other : Doc} {sample : α} {value : field.Value}, outer doc = .ok sample →
    field.read other = .ok value → ∃ row, outer other = .ok (build row) ∧ spot.get row = value
  rejects : ∀ {doc other : Doc} {sample : α} {problem : ReadError}, outer doc = .ok sample →
    field.read other = .error problem → outer other = .error problem

end FieldAt

/-- A document as a function of the value of one field, in either form of a record. -/
inductive Doc.Surrounds (name : String) (position : Nat) : (Doc → Doc) → Prop
  | member (before after : List (Option String × Doc)) :
      Surrounds name position fun doc => .obj (before ++ (some name, doc) :: after) .closed
  | item (before after : List Doc) (length_eq : before.length = position) :
      Surrounds name position fun doc => .arr (before ++ doc :: after) .closed

namespace FieldAt

variable {α : Type} {field : RecordField} {fields : List RecordField} {build : Row fields → α}
  (spot : FieldAt field fields)

theorem ofMembers_get (distinct : (fields.map RecordField.name).Nodup)
    {before after : List (Option String × Doc)} {doc other : Doc} {row : Row fields}
    (ofMembers_eq : Row.ofMembers fields (before ++ (some field.name, doc) :: after) .closed =
      .ok row)
    {value : field.Value} (read_eq : field.read other = .ok value) :
    ∃ row', Row.ofMembers fields (before ++ (some field.name, other) :: after) .closed = .ok row' ∧
      spot.get row' = value := by
  rcases Except.bind_eq_ok ofMembers_eq with ⟨slots, putAll_eq, complete_eq⟩
  rcases spot.complete_fill complete_eq value with ⟨row', row_eq, get_eq⟩
  refine ⟨row', ?_, get_eq⟩
  rw [Row.ofMembers, spot.putAll_fill distinct putAll_eq read_eq]
  exact row_eq

theorem Decides.of_rows {spot : FieldAt field fields} {rows : Doc → Except ReadError (Row fields)}
    (reads : Decoder.ReadsThrough (fun doc => (rows doc).map build) field.read)
    (replaces : ∀ {doc other row value}, rows doc = .ok row → field.read other = .ok value →
      ∃ row', rows other = .ok row' ∧ spot.get row' = value) :
    spot.Decides build fun doc => (rows doc).map build where
  accepts := by
    intro doc other sample value map_eq read_eq
    rcases Except.map_eq_ok map_eq with ⟨row, row_eq, -⟩
    rcases replaces row_eq read_eq with ⟨row', row_eq', get_eq⟩
    refine ⟨row', ?_, get_eq⟩
    rw [row_eq']
    rfl
  rejects map_eq read_eq := reads.rejects map_eq read_eq

/-- In either form of a record the reader of a field decides. -/
theorem record_decides (distinct : (fields.map RecordField.name).Nodup) {room : Nat}
    (opens : 0 < room) (title : String) {context : Doc → Doc}
    (surrounds : Doc.Surrounds field.name spot.position context) :
    spot.Decides build fun doc => Decoder.record room title fields build (context doc) := by
  have room_ne : room ≠ 0 := by omega
  cases surrounds with
  | member before after =>
      have place : Decoder.Place field.read (Decoder.record room title fields build) _ :=
        .member room title field.name (spot.find?_name distinct) before after .closed .here
      have reads := place.readsThrough
      simp only [Decoder.record, if_neg room_ne] at reads ⊢
      apply Decides.of_rows reads
      intro doc other row value row_eq read_eq
      exact spot.ofMembers_get distinct row_eq read_eq
  | item before after length_eq =>
      have found : fields[before.length]? = some field := by
        rw [length_eq]
        exact spot.getElem?_position
      have place : Decoder.Place field.read (Decoder.record room title fields build) _ :=
        .position room title before after found .closed .here
      have reads := place.readsThrough
      simp only [Decoder.record, if_neg room_ne] at reads ⊢
      apply Decides.of_rows reads
      intro doc other row value row_eq read_eq
      exact spot.ofItems_get length_eq row_eq read_eq

end FieldAt

namespace Document

/-- A text of a record, and the same with `shown` as the value of one field. The field is found by
its name if the record is an object, and by its position if it is an array. -/
inductive Replaced (name : String) (position : Nat) (shown : String) : String → String → Prop
  | member (before after : List MemberText) (given replaced : MemberText)
      (given_name : given.name = name) (replaced_name : replaced.name = name)
      (replaced_value : replaced.value = shown) :
      Replaced name position shown (closedText (before ++ given :: after))
        (closedText (before ++ replaced :: after))
  | item (before after : List String) (given : String)
      (complete : ∀ text ∈ before ++ given :: after, (ofText text).complete = true)
      (length_eq : before.length = position) :
      Replaced name position shown (arrayText (before ++ given :: after))
        (arrayText (before ++ shown :: after))

theorem Replaced.surrounds {name : String} {position : Nat} {shown text text' : String}
    (replaced : Replaced name position shown text text')
    (shown_complete : (ofText shown).complete = true) :
    ∃ context doc, Doc.Surrounds name position context ∧ ofText text = ⟨context doc, true⟩ ∧
      ofText text' = ⟨context (ofText shown).root, true⟩ := by
  cases replaced with
  | member before after given replaced given_name replaced_name replaced_value =>
      refine ⟨_, given.doc, .member (before.map MemberText.entry) (after.map MemberText.entry),
        ?_, ?_⟩
      · rw [ofText_closedText, List.map_append, List.map_cons, MemberText.entry, given_name]
      · rw [ofText_closedText, List.map_append, List.map_cons, MemberText.entry, replaced_name,
          MemberText.doc, replaced_value]
  | item before after given complete length_eq =>
      have complete' : ∀ text ∈ before ++ shown :: after, (ofText text).complete = true := by
        simp only [List.forall_mem_append, List.forall_mem_cons] at complete ⊢
        exact ⟨complete.1, shown_complete, complete.2.2⟩
      refine ⟨_, (ofText given).root, .item (before.map fun text => (ofText text).root)
        (after.map fun text => (ofText text).root) (by simpa using length_eq), ?_, ?_⟩
      · rw [ofText_arrayText complete, List.map_append, List.map_cons]
      · rw [ofText_arrayText complete', List.map_append, List.map_cons]

end Document

namespace Decoder

variable {least greatest : Int} {expected : Expected}

/-- An integer in range survives in a type that holds the range. -/
theorem integer_map {β : Type} {ofInt : Int → β} {toInt : β → Int}
    (inverse : ∀ value, least ≤ value → value ≤ greatest → toInt (ofInt value) = value)
    (doc : Doc) :
    ((integer least greatest expected doc).map ofInt).map toInt =
      integer least greatest expected doc := by
  have mismatch_map : ((mismatch doc expected : Except ReadError Int).map ofInt).map toInt =
      mismatch doc expected := by
    rw [mismatch]
    split <;> rfl
  rw [integer.eq_def]
  split
  · split
    · rename_i inside
      simp only [Except.map, inverse _ inside.1 inside.2]
    · rfl
  · exact mismatch_map

theorem unsigned32_toNat (doc : Doc) :
    (unsigned32 doc).map (fun number => (number.toNat : Int)) =
      integer 0 4294967295 .unsigned32 doc := by
  apply integer_map
  intro value nonneg small
  rw [UInt32.toNat_ofNat_of_lt']
  · omega
  · change value.toNat < 4294967296
    omega

theorem signed32_toInt (doc : Doc) :
    (signed32 doc).map Int32.toInt = integer (-2147483648) 2147483647 .signed32 doc := by
  apply integer_map
  intro value great small
  exact Int32.toInt_ofInt_of_le great (by omega)

theorem unsigned64_toNat (doc : Doc) :
    (unsigned64 doc).map (fun number => (number.toNat : Int)) =
      integer 0 18446744073709551615 .unsigned64 doc := by
  apply integer_map
  intro value nonneg small
  rw [UInt64.toNat_ofNat_of_lt']
  · omega
  · change value.toNat < 18446744073709551616
    omega

/-- An integer is read from a literal that fits into 64 bits, and a double from every other one. -/
theorem integer_literal {literal : IntegerLiteral} (short : literal.digits.length ≤ 308)
    (least greatest : Int) (expected : Expected) :
    let result := integer least greatest expected (.number literal.numeral.number)
    (literal.text = "-0" ∨ ¬ literal.Fits →
      ∃ value, literal.numeral.double? = some value ∧
        result = .error (.invalidType (.fractional value) expected)) ∧
    (literal.text ≠ "-0" → literal.Fits →
      result = if least ≤ literal.value ∧ literal.value ≤ greatest then .ok literal.value
        else .error (.outOfRange literal.value expected)) := by
  intro result
  constructor
  · intro unfit
    rcases IntegerLiteral.number_of_not_fits short unfit with ⟨value, value_eq, number_eq⟩
    refine ⟨value, value_eq, ?_⟩
    simp only [result, number_eq]
    rfl
  · intro notMinusZero fits
    simp only [result, IntegerLiteral.number_of_fits notMinusZero fits]
    rfl

end Decoder

namespace Kind

/-- A field that holds an integer: its name and position, its range, what is said to be expected
there, and the integer that a value has in it. -/
structure IntegerField (kind : Kind) where
  name : String
  position : Nat
  least : Int
  greatest : Int
  expected : Expected
  number : kind.Value → Int

/-- The field for an integer, for the kinds that have one. -/
def integerField? : (kind : Kind) → Option kind.IntegerField
  | messageField => some ⟨"index", 3, 0, 4294967295, .unsigned32, fun field => field.index.toNat⟩
  | oneofField => some ⟨"index", 2, 0, 4294967295, .unsigned32, fun field => field.index.toNat⟩
  | enumValue =>
    some ⟨"index", 1, -2147483648, 2147483647, .signed32, fun value => value.index.toInt⟩
  | config =>
    some ⟨"indent", 0, 0, 18446744073709551615, .unsigned64, fun config => config.indent.toNat⟩
  | _ => none

namespace IntegerField

variable {kind : Kind} {integerField : kind.IntegerField}
  (isField : kind.integerField? = some integerField)

include isField

/-- The ranges are within 64 bits. -/
theorem range_le : -2 ^ 63 ≤ integerField.least ∧ integerField.greatest ≤ 2 ^ 64 - 1 := by
  cases kind <;> cases isField <;> decide

/-- The field is one of the fields of the record, and its reader reads an integer in its range. -/
theorem exists_spot :
    ∃ (form : Decoder.RecordForm Decoder.maxNesting (kind.decode Decoder.maxNesting))
      (field : RecordField) (spot : FieldAt field form.fields) (toInt : field.Value → Int),
      field.name = integerField.name ∧ spot.position = integerField.position ∧
      (∀ doc, (field.read doc).map toInt = Decoder.integer integerField.least
        integerField.greatest integerField.expected doc) ∧
      ∀ row, integerField.number (form.build row) = toInt (spot.get row) := by
  cases kind <;> cases isField
  case messageField =>
    let toInt : UInt32 → Int := fun number => number.toNat
    exact ⟨(messageField.form? _).get rfl, _, .there _ (.there _ (.there _ (.here _))), toInt, rfl,
      rfl, Decoder.unsigned32_toNat, fun _ => rfl⟩
  case oneofField =>
    let toInt : UInt32 → Int := fun number => number.toNat
    exact ⟨(oneofField.form? _).get rfl, _, .there _ (.there _ (.here _)), toInt, rfl, rfl,
      Decoder.unsigned32_toNat, fun _ => rfl⟩
  case enumValue =>
    exact ⟨(enumValue.form? _).get rfl, _, .there _ (.here _), Int32.toInt, rfl, rfl,
      Decoder.signed32_toInt, fun _ => rfl⟩
  case config =>
    let toInt : UInt64 → Int := fun number => number.toNat
    exact ⟨(config.form? _).get rfl, _, .here _, toInt, rfl, rfl, Decoder.unsigned64_toNat,
      fun _ => rfl⟩

/-- With another value in place of the one it was accepted with, the record holds that value if it
is an integer in range, and otherwise its problem is the problem of the record. -/
theorem read_replaced {shown text text' : String}
    (replaced : Document.Replaced integerField.name integerField.position shown text text')
    (shown_complete : (Document.ofText shown).complete = true) {sample : kind.Value}
    (read_eq : kind.read text = .ok sample) :
    let result := Decoder.integer integerField.least integerField.greatest integerField.expected
      (Document.ofText shown).root
    (∀ value, result = .ok value →
      ∃ found, kind.read text' = .ok found ∧ integerField.number found = value) ∧
    ∀ problem, result = .error problem → kind.read text' = .error (kind.errorInText problem) := by
  intro result
  rcases exists_spot isField with
    ⟨form, field, spot, toInt, name_eq, position_eq, integer_eq, number_eq⟩
  rcases replaced.surrounds shown_complete with ⟨context, doc, surrounds, text_eq, text_eq'⟩
  rw [← name_eq, ← position_eq] at surrounds
  have outer_eq : (fun doc => kind.decode Decoder.maxNesting (context doc)) = fun doc =>
      Decoder.record Decoder.maxNesting form.title form.fields form.build (context doc) :=
    funext fun doc => congrFun form.decoder_eq (context doc)
  have decides : spot.Decides form.build fun doc =>
      kind.decode Decoder.maxNesting (context doc) := by
    rw [outer_eq]
    exact spot.record_decides form.distinct (by decide) form.title surrounds
  rw [read_eq_ok_iff, text_eq] at read_eq
  have result_eq : (field.read (Document.ofText shown).root).map toInt = result := integer_eq _
  constructor
  · intro value value_eq
    rw [value_eq] at result_eq
    rcases Except.map_eq_ok result_eq with ⟨found, found_eq, rfl⟩
    rcases decides.accepts read_eq.1 found_eq with ⟨row, row_eq, get_eq⟩
    refine ⟨form.build row, ?_, ?_⟩
    · rw [read_eq_ok_iff, text_eq']
      exact ⟨row_eq, rfl⟩
    · rw [number_eq, get_eq]
  · intro problem problem_eq
    rw [problem_eq] at result_eq
    have found_eq := Except.map_eq_error result_eq
    exact read_eq_error_of_decode text_eq' (decides.rejects read_eq.1 found_eq)

end IntegerField

/-- An integer literal of at most 308 digits, given for the integer field of a record that is
otherwise accepted: the record is accepted exactly if the literal is not `-0` and its value is in
the range of the field, and the field then holds that very value. A value out of range that fits
into 64 bits is named in the answer by the literal's own text. Everything else is answered as the
double that the literal is read into. -/
theorem read_integerLiteral {kind : Kind} {integerField : kind.IntegerField}
    (isField : kind.integerField? = some integerField) (literal : IntegerLiteral)
    (short : literal.digits.length ≤ 308) {shown text text' : String}
    (stands : literal.StandsIn shown)
    (replaced : Document.Replaced integerField.name integerField.position shown text text')
    {sample : kind.Value} (read_eq : kind.read text = .ok sample) :
    let inRange := integerField.least ≤ literal.value ∧ literal.value ≤ integerField.greatest
    ((∃ found, kind.read text' = .ok found) ↔ literal.text ≠ "-0" ∧ inRange) ∧
    (∀ found, kind.read text' = .ok found → integerField.number found = literal.value) ∧
    (literal.text ≠ "-0" → literal.Fits → ¬ inRange →
      kind.read text' = .error (.outOfRange literal.value integerField.expected) ∧
      (ReadError.outOfRange literal.value integerField.expected).message =
        "invalid value: integer `" ++ literal.text ++ "`, expected " ++
          integerField.expected.describe) ∧
    (literal.text = "-0" ∨ ¬ literal.Fits →
      ∃ value, literal.numeral.double? = some value ∧
        kind.read text' = .error (.invalidType (.fractional value) integerField.expected)) := by
  intro inRange
  have shown_eq := stands.ofText_eq
  have outcome := IntegerField.read_replaced isField replaced (by rw [shown_eq]) read_eq
  rw [shown_eq] at outcome
  rcases outcome with ⟨accepts, rejects⟩
  rcases Decoder.integer_literal short integerField.least integerField.greatest
    integerField.expected with ⟨result_unfit, result_fit⟩
  have unfit_eq : literal.text = "-0" ∨ ¬ literal.Fits →
      ∃ value, literal.numeral.double? = some value ∧
        kind.read text' = .error (.invalidType (.fractional value) integerField.expected) := by
    intro unfit
    rcases result_unfit unfit with ⟨value, value_eq, error_eq⟩
    exact ⟨value, value_eq, (rejects _ error_eq).trans (congrArg _ (kind.errorInText_eq rfl))⟩
  have outside_eq : literal.text ≠ "-0" → literal.Fits → ¬ inRange →
      kind.read text' = .error (.outOfRange literal.value integerField.expected) := by
    intro notMinusZero fits outside
    apply (rejects _ ?_).trans (congrArg _ (kind.errorInText_eq rfl))
    rw [result_fit notMinusZero fits, if_neg outside]
  have inside_eq : literal.text ≠ "-0" → inRange →
      ∃ found, kind.read text' = .ok found ∧ integerField.number found = literal.value := by
    intro notMinusZero inside
    have range_le := IntegerField.range_le isField
    have fits : literal.Fits :=
      ⟨range_le.1.trans inside.1, inside.2.trans range_le.2⟩
    apply accepts
    rw [result_fit notMinusZero fits, if_pos inside]
  have accepted : ∀ found, kind.read text' = .ok found → literal.text ≠ "-0" ∧ inRange := by
    intro found found_eq
    by_contra refused
    by_cases unfit : literal.text = "-0" ∨ ¬ literal.Fits
    · rcases unfit_eq unfit with ⟨value, -, error_eq⟩
      rw [error_eq] at found_eq
      cases found_eq
    · rw [not_or, not_not] at unfit
      rw [outside_eq unfit.1 unfit.2 fun inside => refused ⟨unfit.1, inside⟩] at found_eq
      cases found_eq
  refine ⟨⟨?_, ?_⟩, ?_, ?_, unfit_eq⟩
  · rintro ⟨found, found_eq⟩
    exact accepted found found_eq
  · rintro ⟨notMinusZero, inside⟩
    rcases inside_eq notMinusZero inside with ⟨found, found_eq, -⟩
    exact ⟨found, found_eq⟩
  · intro found found_eq
    rcases accepted found found_eq with ⟨notMinusZero, inside⟩
    rcases inside_eq notMinusZero inside with ⟨found', found_eq', number_eq⟩
    rw [found_eq] at found_eq'
    cases found_eq'
    exact number_eq
  · intro notMinusZero fits outside
    constructor
    · exact outside_eq notMinusZero fits outside
    · rw [IntegerLiteral.text_eq_repr notMinusZero]
      rfl

/-- The least number of an enum value under its name, the first number that is too great for a
field in its place, and a width of minus zero. -/
theorem read_integerLiteral_bounds :
    (∃ found : EnumValue,
      Kind.enumValue.read "\x7b\"name\":\"A\",\"index\": -2147483648 \x7d" = .ok found ∧
        found.index.toInt = -2147483648) ∧
    Kind.messageField.read "[false,\"T\",\"n\",4294967296]" =
      .error (.outOfRange 4294967296 .unsigned32) ∧
    Kind.config.read "[-0]" = .error (.invalidType (.fractional ⟨true, 0⟩) .unsigned64) := by
  let least : IntegerLiteral :=
    ⟨true, "2147483648".toList, List.all_eq_true.mp (by decide +kernel), by decide, by decide⟩
  let great : IntegerLiteral :=
    ⟨false, "4294967296".toList, List.all_eq_true.mp (by decide +kernel), by decide, by decide⟩
  let minusZero : IntegerLiteral := ⟨true, ['0'], by simp, by simp, by simp⟩
  have least_eq : least.value = -2147483648 := by decide +kernel
  have great_eq : great.value = 4294967296 := by decide +kernel
  let key (name : String) : Document.KeyText :=
    ⟨name, [], name.toList.flatMap Literal.escape, by simp, Literal.spelling_flatMap_escape _⟩
  let name : Document.MemberText := ⟨key "name", [], by simp, "\"A\"", by decide +kernel⟩
  let given : Document.MemberText := ⟨key "index", [], by simp, "0", by decide +kernel⟩
  let replaced : Document.MemberText :=
    ⟨key "index", [], by simp, " -2147483648 ", by decide +kernel⟩
  refine ⟨?_, ?_, ?_⟩
  · have sample_eq : Kind.enumValue.read (Document.closedText [name, given]) =
        .ok ⟨"A", 0, [], {}⟩ := by decide +kernel
    have text_eq : Document.closedText [name, replaced] =
        "\x7b\"name\":\"A\",\"index\": -2147483648 \x7d" := by decide +kernel
    have stands : least.StandsIn " -2147483648 " :=
      ⟨[' '], [' '], by simp [Doc.isBlank], by decide +kernel⟩
    have accepts := read_integerLiteral rfl least (by decide) stands
      (.member [name] [] given replaced rfl rfl rfl) sample_eq
    rw [← text_eq]
    rcases accepts.1.mpr ⟨by decide +kernel, by rw [least_eq]; decide⟩ with ⟨found, found_eq⟩
    exact ⟨found, found_eq, (accepts.2.1 found found_eq).trans least_eq⟩
  · have sample_eq : Kind.messageField.read (Document.arrayText ["false", "\"T\"", "\"n\"", "1"]) =
        .ok ⟨false, "T", "n", 1, [], {}⟩ := by decide +kernel
    have stands : great.StandsIn "4294967296" := ⟨[], [], by simp, by decide +kernel⟩
    have rejects := read_integerLiteral rfl great (by decide) stands
      (.item ["false", "\"T\"", "\"n\""] [] "1" (by decide +kernel) rfl) sample_eq
    rw [great_eq] at rejects
    exact (rejects.2.2.1 (by decide +kernel) (by decide +kernel) (by decide)).1
  · have sample_eq : Kind.config.read (Document.arrayText ["4"]) = .ok ⟨4⟩ := by decide +kernel
    have stands : minusZero.StandsIn "-0" := ⟨[], [], by simp, by decide +kernel⟩
    have rejects := read_integerLiteral rfl minusZero (by decide) stands
      (.item [] [] "4" (by decide +kernel) rfl) sample_eq
    rcases rejects.2.2.2 (Or.inl (by decide +kernel)) with ⟨value, value_eq, error_eq⟩
    have zero_eq : minusZero.numeral.double? = some ⟨true, 0⟩ := by decide +kernel
    rw [zero_eq, Option.some.injEq] at value_eq
    rw [value_eq]
    exact error_eq

end Kind

end ProtoSchema
