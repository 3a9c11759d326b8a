import Mathlib.Data.List.Count
import ProtoSchema.Proofs.Codec.MemberOrder
import ProtoSchema.Proofs.Codec.Positional
import ProtoSchema.Proofs.Json.OpenObject

/-!
# The first problem

A record is read in one pass over its text, and the first problem ends it. The text of an object may
therefore go on in any way behind the member that is the first problem: with more problems, with a
name for the second time, without a field that is needed, or with something that is no JSON at all.
The answer is the same: `Kind.read_first_problem`.

The members before it are read without problem, so when it is reached the slots that are filled are
exactly those of their names, `Slots.Filled`. A name that is among them is a problem by itself, and
any other field fails only if its value does.
-/

namespace ProtoSchema

open Document (KeyText MemberText openText)

namespace Slots

variable {field : RecordField} {fields : List RecordField} {names : List (Option String)}
  {slots : Slots fields}

/-- A value that its field does not accept is the problem, if the slot is empty. -/
theorem Filled.put_problem (filled : Filled names fields slots)
    (distinct : (fields.map RecordField.name).Nodup) (field_mem : field ∈ fields)
    (fresh : some field.name ∉ names) {doc : Doc} {problem : ReadError}
    (read_eq : field.read doc = .error problem) :
    Slots.put field.name doc fields slots = .error problem := by
  induction fields with
  | nil => cases field_mem
  | cons first fields ih =>
      rcases slots.eq_cons with ⟨slot, slots, rfl⟩
      rcases filled with ⟨slot_filled, filled⟩
      rw [List.map_cons, List.nodup_cons] at distinct
      rcases List.mem_cons.mp field_mem with rfl | field_mem
      · have slot_eq : slot = none := by simpa [fresh] using slot_filled
        rw [put_cons, if_pos rfl, slot_eq]
        simp only [read_eq, Except.map]
      · have name_ne : first.name ≠ field.name := by
          intro same
          apply distinct.1
          rw [same]
          exact List.mem_map_of_mem field_mem
        rw [put_other name_ne, ih filled distinct.2 field_mem]
        rfl

/-- A name whose slot is filled is the problem, whatever its value. -/
theorem Filled.put_repeated (filled : Filled names fields slots) (field_mem : field ∈ fields)
    (present : some field.name ∈ names) (doc : Doc) :
    Slots.put field.name doc fields slots = .error (.duplicateField field.name) := by
  induction fields with
  | nil => cases field_mem
  | cons first fields ih =>
      rcases slots.eq_cons with ⟨slot, slots, rfl⟩
      rcases filled with ⟨slot_filled, filled⟩
      rw [put_cons]
      by_cases same : first.name = field.name
      · rw [same] at slot_filled
        rcases Option.isSome_iff_exists.mp (slot_filled.mpr present) with ⟨value, rfl⟩
        rw [if_pos same]
      · rcases List.mem_cons.mp field_mem with rfl | field_mem
        · exact absurd rfl same
        · rw [if_neg same, ih filled field_mem]
          rfl

end Slots

/-- A member that cannot be put behind those before it is the answer of the record, whatever members
follow and however the object ends. -/
theorem Decoder.record_stops {α : Type} {room : Nat} (opens : 0 < room) {title : String}
    {fields : List RecordField} {build : Row fields → α}
    (distinct : (fields.map RecordField.name).Nodup)
    {members : List (Option String × Doc)} (readable : RecordField.Readable fields members)
    {name : String} {doc : Doc} {problem : ReadError}
    (stops : ∀ slots, Slots.Filled (members.map Prod.fst) fields slots →
      Slots.put name doc fields slots = .error problem)
    (others : List (Option String × Doc)) (ending : Ending) :
    record room title fields build (.obj (members ++ (some name, doc) :: others) ending) =
      .error problem := by
  rcases (Slots.filled_empty fields).putAll distinct readable (by simp) with
    ⟨slots, taken, filled⟩
  have stopped : Slots.putAll fields (members ++ (some name, doc) :: others)
      (Slots.empty fields) = .error problem := by
    rw [Slots.putAll_append, taken]
    change Slots.putAll fields ((some name, doc) :: others) slots = _
    rw [Slots.putAll_member, stops slots filled]
    rfl
  rw [record, if_neg (by omega), Row.ofMembers, stopped]
  rfl

/-- The members of a text are read without problem: no field is named twice, and each accepts the
value that it is given. Members of other names are complete and can be skipped. -/
structure RecordField.Takes (fields : List RecordField) (members : List MemberText) : Prop where
  once : ∀ field ∈ fields, (members.map fun member => member.name).count field.name ≤ 1
  accepted : ∀ field ∈ fields, ∀ member ∈ members, member.name = field.name →
    field.Accepts member.value

theorem Document.map_fst_entry (members : List MemberText) :
    (members.map MemberText.entry).map Prod.fst =
      (members.map fun member => member.name).map some := by
  simp [MemberText.entry]

theorem Document.some_mem_map_fst_entry {members : List MemberText} {name : String} :
    some name ∈ (members.map MemberText.entry).map Prod.fst ↔
      name ∈ members.map fun member => member.name := by
  rw [map_fst_entry]
  simp

theorem RecordField.Takes.readable {fields : List RecordField} {members : List MemberText}
    (takes : Takes fields members) : Readable fields (members.map MemberText.entry) where
  named := by simp [MemberText.entry]
  once field field_mem := by
    rw [Document.map_fst_entry, List.count_map_of_injective _ _ (Option.some_injective _)]
    exact takes.once field field_mem
  known := by
    intro field field_mem doc doc_mem
    rcases List.mem_map.mp doc_mem with ⟨member, member_mem, entry_eq⟩
    rcases Prod.mk.inj entry_eq with ⟨name_eq, rfl⟩
    exact takes.accepted field field_mem member member_mem (Option.some.inj name_eq)
  unknown := by
    intro name doc doc_mem _
    rcases List.mem_map.mp doc_mem with ⟨member, member_mem, entry_eq⟩
    cases entry_eq
    exact Document.wellFormed_of_complete member.complete

namespace Kind

theorem errorInText_of_form {kind : Kind} {room : Nat}
    (isRecord : (kind.form? room).isSome = true) (problem : ReadError) :
    kind.errorInText problem = problem.inText := by
  cases kind with
  | typeDecl => cases isRecord
  | _ => rfl

/-- Let the text of an object start with members that a record reads without problem. If the next
member gives a field that is not among them a complete value that the field does not accept, then
this problem is the answer for any text that goes on behind the value with a comma or a brace. If
the next name is that of a field that is among them, then the repetition is the answer for any text
behind the name. -/
theorem read_first_problem (kind : Kind)
    (isRecord : (kind.form? Decoder.maxNesting).isSome = true) (members : List MemberText) :
    let fields := ((kind.form? Decoder.maxNesting).get isRecord).fields
    RecordField.Takes fields members →
      (∀ field ∈ fields, field.name ∉ members.map (fun member => member.name) →
        ∀ next : MemberText, next.name = field.name →
        ∀ problem, field.read next.doc = .error problem →
        ∀ char ∈ [',', '\x7d'], ∀ tail,
          kind.read (openText members (next.chars ++ char :: tail)) = .error problem.inText) ∧
      (∀ field ∈ fields, field.name ∈ members.map (fun member => member.name) →
        ∀ key : KeyText, key.name = field.name → ∀ tail,
          kind.read (openText members (key.chars ++ tail)) =
            .error (.duplicateField field.name)) := by
  intro fields takes
  let form := (kind.form? Decoder.maxNesting).get isRecord
  let entries := members.map MemberText.entry
  -- Whatever stops the record at the next member is the answer for the whole text.
  have answers : ∀ {text : String} {name : String} {doc : Doc}
      {others : List (Option String × Doc)} {ending : Ending} {complete : Bool}
      {problem : ReadError},
      Document.ofText text = ⟨.obj (entries ++ (some name, doc) :: others) ending, complete⟩ →
      (∀ slots, Slots.Filled (entries.map Prod.fst) fields slots →
        Slots.put name doc fields slots = .error problem) →
      kind.read text = .error problem.inText := by
    intro text name doc others ending complete problem text_eq stops
    rw [← errorInText_of_form isRecord]
    apply read_eq_error_of_decode text_eq
    rw [form.decoder_eq]
    exact Decoder.record_stops (by decide) form.distinct takes.readable stops others ending
  constructor
  · intro field field_mem fresh next next_eq problem read_eq char separates tail
    rcases Document.ofText_openText members (next.chars ++ char :: tail) with
      ⟨bound, enough, text_eq⟩
    have value_lt := next.length_value_lt
    rw [List.length_append, List.length_cons] at enough
    rcases Nat.exists_eq_add_of_le' (show 1 ≤ bound by omega) with ⟨bound, rfl⟩
    rcases next.scanMembers_separated (show _ ≤ bound by omega) char separates tail with
      ⟨others, ending, left, next_found⟩
    rcases text_eq next_found with ⟨complete, text_eq⟩
    apply answers text_eq
    intro slots filled
    rw [next_eq]
    apply filled.put_problem form.distinct field_mem _ read_eq
    intro name_mem
    exact fresh (Document.some_mem_map_fst_entry.mp name_mem)
  · intro field field_mem present key key_eq tail
    rcases Document.ofText_openText members (key.chars ++ tail) with ⟨bound, enough, text_eq⟩
    rcases Nat.exists_eq_add_of_le' (show 1 ≤ bound by omega) with ⟨bound, rfl⟩
    rcases key.scanMembers_chars tail bound with ⟨doc, others, ending, left, key_found⟩
    rcases text_eq key_found with ⟨complete, text_eq⟩
    change kind.read _ = .error (ReadError.duplicateField field.name).inText
    apply answers text_eq
    intro slots filled
    rw [key_eq]
    exact filled.put_repeated field_mem (Document.some_mem_map_fst_entry.mpr present) doc

/-- A field whose number is read and whose name is a number, before a text that is broken off, and
one whose number is given again under an escaped name. -/
theorem read_first_problem_field :
    Kind.messageField.read "\x7b\"index\" : 1 ,\"x\":[null],\"name\":3,]" =
        .error (.invalidType (.integer 3) .text) ∧
      Kind.messageField.read "\x7b\"index\" : 1 ,\"x\":[null],\n\"\\u0069ndex\"?" =
        .error (.duplicateField "index") := by
  let key (name : String) : KeyText :=
    ⟨name, [], name.toList.flatMap Literal.escape, by simp, Literal.spelling_flatMap_escape _⟩
  let index : MemberText := ⟨key "index", [' '], by simp [Doc.isBlank], " 1 ", by decide +kernel⟩
  let other : MemberText := ⟨key "x", [], by simp, "[null]", by decide +kernel⟩
  let next : MemberText := ⟨key "name", [], by simp, "3", by decide +kernel⟩
  let repeated : KeyText :=
    ⟨"index", ['\n'], "\\u0069ndex".toList, by simp [Doc.isBlank],
      .cons (.unit rfl) (Literal.spelling_flatMap_escape "ndex".toList)⟩
  let number := RecordField.required "index" Decoder.unsigned32
  let name := RecordField.required "name" Decoder.text
  let fields := ((Kind.messageField.form? Decoder.maxNesting).get rfl).fields
  have number_eq : Decoder.unsigned32 (Document.ofText " 1 ").root = .ok 1 := by decide +kernel
  have name_eq : Decoder.text next.doc = .error (.invalidType (.integer 3) .text) := by
    decide +kernel
  have number_mem : number ∈ fields := .tail _ (.tail _ (.tail _ (.head _)))
  have name_mem : name ∈ fields := .tail _ (.tail _ (.head _))
  have takes : RecordField.Takes fields [index, other] := by
    constructor
    · intro field _
      exact List.nodup_iff_count.mp (show ["index", "x"].Nodup by decide) field.name
    · intro field field_mem member member_mem same
      change field ∈ [_, _, _, number, _, _] at field_mem
      simp only [List.mem_cons, List.not_mem_nil, or_false] at field_mem member_mem
      rcases member_mem with rfl | rfl
      · rcases field_mem with rfl | rfl | rfl | rfl | rfl | rfl
        case inr.inr.inr.inl => exact RecordField.required_accepts number_eq "index"
        all_goals exact absurd same (by decide)
      · rcases field_mem with rfl | rfl | rfl | rfl | rfl | rfl <;>
          exact absurd same (by decide)
  obtain ⟨fails, repeats⟩ := read_first_problem .messageField rfl [index, other] takes
  have failing_text : openText [index, other] (next.chars ++ ',' :: [']']) =
      "\x7b\"index\" : 1 ,\"x\":[null],\"name\":3,]" := by decide +kernel
  have repeating_text : openText [index, other] (repeated.chars ++ ['?']) =
      "\x7b\"index\" : 1 ,\"x\":[null],\n\"\\u0069ndex\"?" := by decide +kernel
  constructor
  · rw [← failing_text]
    exact fails name name_mem (by decide) next rfl (.invalidType (.integer 3) .text)
      name_eq ',' (by decide) [']']
  · rw [← repeating_text]
    exact repeats number number_mem (by decide) repeated rfl ['?']

end Kind

end ProtoSchema
