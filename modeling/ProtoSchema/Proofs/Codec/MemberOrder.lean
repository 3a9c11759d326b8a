import ProtoSchema.Proofs.Codec.RecordForms

/-!
# The order of members

The members of an object that stands for a record may come in any order, with any members of other
names between them: whether a document is accepted and what it is read as is the same, wherever in
the document the object stands. Only the errors of a rejected document may differ, since the first
of several problems is answered and which one is first depends on the order. If the one problem of
an object is that a field is missing, there is nothing to choose from, and the answer is again the
same: `Kind.read_reordered`.

Two members that are both taken up by a record can be taken up in the other order, with the same
slots as a result. This gives all permutations.
-/

namespace ProtoSchema

/-- A member that the fields do not name, with a value that can be skipped. -/
def RecordField.Skips (fields : List RecordField) (member : Option String × Doc) : Prop :=
  ∃ name, member.1 = some name ∧ name ∉ fields.map RecordField.name ∧ member.2.wellFormed = true

/-- The members in another order, with some that are skipped put in and others left out. -/
def RecordField.Reordered (fields : List RecordField)
    (members members' : List (Option String × Doc)) : Prop :=
  ∃ added removed, (∀ member ∈ added ++ removed, Skips fields member) ∧
    (members ++ added).Perm (members' ++ removed)

namespace Slots

variable {fields : List RecordField}

theorem put_unknown {name : String} {doc : Doc} (unknown : name ∉ fields.map RecordField.name)
    (skippable : doc.wellFormed = true) (slots : Slots fields) :
    put name doc fields slots = .ok slots := by
  induction fields with
  | nil => exact if_pos skippable
  | cons field fields ih =>
      rcases slots.eq_cons with ⟨slot, slots, rfl⟩
      rw [List.map_cons, List.mem_cons, not_or] at unknown
      rw [put_other (Ne.symm unknown.1), ih unknown.2]
      rfl

theorem putAll_skipped {members : List (Option String × Doc)}
    (skipped : ∀ member ∈ members, RecordField.Skips fields member) (slots : Slots fields) :
    putAll fields members slots = .ok slots := by
  induction members with
  | nil => rfl
  | cons member rest ih =>
      rcases member with ⟨key, doc⟩
      rcases skipped _ List.mem_cons_self with ⟨name, rfl, unknown, skippable⟩
      rw [putAll_member, put_unknown unknown skippable]
      exact ih fun member member_mem => skipped member (List.mem_cons_of_mem _ member_mem)

/-- A member that is taken up by the first field finds its slot empty and fills it. -/
theorem of_put_first {field : RecordField} {doc : Doc} {slot : Option field.Value}
    {slots : Slots fields} {result : Slots (field :: fields)}
    (put_eq : put field.name doc (field :: fields) (cons slot slots) = .ok result) :
    slot = none ∧ ∃ value, field.read doc = .ok value ∧ cons (some value) slots = result := by
  rw [put_cons, if_pos rfl] at put_eq
  cases slot with
  | some value => cases put_eq
  | none => exact ⟨rfl, Except.map_eq_ok put_eq⟩

/-- Two members that are taken up one after the other can be taken up in the other order. -/
theorem put_put {name name' : String} {doc doc' : Doc} {slots middle result : Slots fields}
    (put_eq : put name doc fields slots = .ok middle)
    (put_eq' : put name' doc' fields middle = .ok result) :
    ∃ middle', put name' doc' fields slots = .ok middle' ∧
      put name doc fields middle' = .ok result := by
  induction fields with
  | nil => exact ⟨slots, put_eq', put_eq⟩
  | cons field fields ih =>
      rcases slots.eq_cons with ⟨slot, slots, rfl⟩
      by_cases first : field.name = name
      · subst first
        rcases of_put_first put_eq with ⟨rfl, value, read_eq, rfl⟩
        by_cases second : field.name = name'
        · subst second
          rcases of_put_first put_eq' with ⟨filled, -⟩
          cases filled
        · rw [put_other second] at put_eq'
          rcases Except.map_eq_ok put_eq' with ⟨rest, rest_eq, rfl⟩
          refine ⟨cons none rest, ?_, put_first read_eq rest⟩
          rw [put_other second, rest_eq]
          rfl
      · rw [put_other first] at put_eq
        rcases Except.map_eq_ok put_eq with ⟨rest, rest_eq, rfl⟩
        by_cases second : field.name = name'
        · subst second
          rcases of_put_first put_eq' with ⟨rfl, value, read_eq, rfl⟩
          refine ⟨cons (some value) slots, put_first read_eq slots, ?_⟩
          rw [put_other first, rest_eq]
          rfl
        · rw [put_other second] at put_eq'
          rcases Except.map_eq_ok put_eq' with ⟨rest', rest_eq', rfl⟩
          rcases ih rest_eq rest_eq' with ⟨middle, middle_eq, result_eq⟩
          refine ⟨cons slot middle, ?_, ?_⟩
          · rw [put_other second, middle_eq]
            rfl
          · rw [put_other first, result_eq]
            rfl

theorem putAll_perm {members members' : List (Option String × Doc)}
    (perm : members.Perm members') {slots result : Slots fields}
    (taken : putAll fields members slots = .ok result) :
    putAll fields members' slots = .ok result := by
  induction perm generalizing slots with
  | nil => exact taken
  | cons member _ ih =>
      rcases member with ⟨_ | name, doc⟩
      · cases taken
      · rw [putAll_member] at taken ⊢
        rcases Except.bind_eq_ok taken with ⟨middle, put_eq, rest_eq⟩
        rw [put_eq]
        exact ih rest_eq
  | swap first second rest =>
      rcases second with ⟨_ | name, doc⟩
      · cases taken
      · rcases first with ⟨_ | name', doc'⟩
        · rw [putAll_member] at taken
          rcases Except.bind_eq_ok taken with ⟨middle, -, rest_eq⟩
          cases rest_eq
        · rw [putAll_member] at taken ⊢
          rcases Except.bind_eq_ok taken with ⟨middle, put_eq, taken⟩
          rw [putAll_member] at taken
          rcases Except.bind_eq_ok taken with ⟨middle', put_eq', rest_eq⟩
          rcases put_put put_eq put_eq' with ⟨other, other_eq, other_eq'⟩
          rw [other_eq]
          change (put name doc fields other).bind _ = _
          rw [other_eq']
          exact rest_eq
  | trans _ _ ih ih' => exact ih' (ih taken)

theorem putAll_reordered {members members' : List (Option String × Doc)}
    (reordered : RecordField.Reordered fields members members') {slots result : Slots fields}
    (taken : putAll fields members slots = .ok result) :
    putAll fields members' slots = .ok result := by
  rcases reordered with ⟨added, removed, skipped, perm⟩
  have all_taken : putAll fields (members ++ added) slots = .ok result := by
    rw [putAll_append, taken]
    exact putAll_skipped (fun member member_mem =>
      skipped member (List.mem_append_left _ member_mem)) result
  have all_taken' := putAll_perm perm all_taken
  rw [putAll_append] at all_taken'
  rcases Except.bind_eq_ok all_taken' with ⟨middle, middle_eq, rest_eq⟩
  have removed_eq := putAll_skipped (fun member member_mem =>
    skipped member (List.mem_append_right _ member_mem)) middle
  rw [removed_eq] at rest_eq
  cases rest_eq
  exact middle_eq

end Slots

theorem RecordField.Reordered.symm {fields : List RecordField}
    {members members' : List (Option String × Doc)}
    (reordered : Reordered fields members members') : Reordered fields members' members := by
  rcases reordered with ⟨added, removed, skipped, perm⟩
  refine ⟨removed, added, ?_, perm.symm⟩
  intro member member_mem
  apply skipped
  rw [List.mem_append] at member_mem ⊢
  exact member_mem.symm

/-- A record reads the same value from its members in whatever order they come. -/
theorem Decoder.record_reordered {α : Type} {room : Nat} {title : String}
    {fields : List RecordField} {build : Row fields → α}
    {members members' : List (Option String × Doc)}
    (reordered : RecordField.Reordered fields members members') {ending : Ending} {value : α}
    (record_eq : record room title fields build (.obj members ending) = .ok value) :
    record room title fields build (.obj members' ending) = .ok value := by
  rw [record] at record_eq ⊢
  split at record_eq
  · cases record_eq
  · rename_i opens
    rw [if_neg opens]
    rcases Except.map_eq_ok record_eq with ⟨row, ofMembers_eq, rfl⟩
    rcases Except.bind_eq_ok ofMembers_eq with ⟨slots, taken, complete_eq⟩
    have taken' := Slots.putAll_reordered reordered taken
    have ofMembers_eq' : Row.ofMembers fields members' ending = .ok row := by
      rw [Row.ofMembers, taken']
      exact complete_eq
    rw [ofMembers_eq']
    rfl

/-- Every member is read without problem: it has a name, a field is named only once and its value is
read, and what is not named after a field can be skipped. -/
structure RecordField.Readable (fields : List RecordField)
    (members : List (Option String × Doc)) : Prop where
  named : ∀ member ∈ members, member.1 ≠ none
  once : ∀ field ∈ fields, (members.map Prod.fst).count (some field.name) ≤ 1
  known : ∀ field ∈ fields, ∀ doc, (some field.name, doc) ∈ members →
    ∃ value, field.read doc = .ok value
  unknown : ∀ name doc, (some name, doc) ∈ members → name ∉ fields.map RecordField.name →
    doc.wellFormed = true

theorem RecordField.Readable.tail {fields : List RecordField} {member : Option String × Doc}
    {rest : List (Option String × Doc)} (readable : Readable fields (member :: rest)) :
    Readable fields rest where
  named other other_mem := readable.named other (List.mem_cons_of_mem _ other_mem)
  once field field_mem := by
    have count_le := readable.once field field_mem
    rw [List.map_cons, List.count_cons] at count_le
    omega
  known field field_mem doc doc_mem :=
    readable.known field field_mem doc (List.mem_cons_of_mem _ doc_mem)
  unknown name doc doc_mem := readable.unknown name doc (List.mem_cons_of_mem _ doc_mem)

/-- The first field without a default that no member is named after. -/
def RecordField.firstMissing? (fields : List RecordField)
    (members : List (Option String × Doc)) : Option RecordField :=
  fields.find? fun field =>
    field.fallback.isNone && !(members.map Prod.fst).contains (some field.name)

namespace Slots

variable {fields : List RecordField}

/-- The slots that have a value are those of the given names. -/
def Filled (names : List (Option String)) : (fields : List RecordField) → Slots fields → Prop
  | [], _ => True
  | field :: fields, (slot, slots) =>
    (slot.isSome = true ↔ some field.name ∈ names) ∧ Filled names fields slots

theorem filled_empty (fields : List RecordField) : Filled [] fields (empty fields) := by
  induction fields with
  | nil => trivial
  | cons field fields ih => exact ⟨by simp, ih⟩

/-- A name that no field has fills no slot. -/
theorem Filled.unknown {names : List (Option String)} {slots : Slots fields}
    (filled : Filled names fields slots) {name : String}
    (unknown : name ∉ fields.map RecordField.name) :
    Filled (names ++ [some name]) fields slots := by
  induction fields with
  | nil => trivial
  | cons field fields ih =>
      rcases slots.eq_cons with ⟨slot, slots, rfl⟩
      rcases filled with ⟨slot_filled, filled⟩
      rw [List.map_cons, List.mem_cons, not_or] at unknown
      refine ⟨?_, ih filled unknown.2⟩
      simp [slot_filled, Ne.symm unknown.1]

theorem Filled.put {names : List (Option String)} {slots : Slots fields}
    (filled : Filled names fields slots) (distinct : (fields.map RecordField.name).Nodup)
    {name : String} {doc : Doc}
    (known : ∀ field ∈ fields, field.name = name →
      some name ∉ names ∧ ∃ value, field.read doc = .ok value)
    (unknown : name ∉ fields.map RecordField.name → doc.wellFormed = true) :
    ∃ result, put name doc fields slots = .ok result ∧
      Filled (names ++ [some name]) fields result := by
  induction fields with
  | nil => exact ⟨slots, if_pos (unknown (by simp)), trivial⟩
  | cons field fields ih =>
      rcases slots.eq_cons with ⟨slot, slots, rfl⟩
      rcases filled with ⟨slot_filled, filled⟩
      rw [List.map_cons, List.nodup_cons] at distinct
      by_cases name_eq : field.name = name
      · subst name_eq
        rcases known field List.mem_cons_self rfl with ⟨fresh, value, read_eq⟩
        have slot_eq : slot = none := by simpa [fresh] using slot_filled
        subst slot_eq
        refine ⟨cons (some value) slots, put_first read_eq slots, ?_, filled.unknown distinct.1⟩
        simp
      · have rest_known : ∀ other ∈ fields, other.name = name →
            some name ∉ names ∧ ∃ value, other.read doc = .ok value :=
          fun other other_mem => known other (List.mem_cons_of_mem _ other_mem)
        have rest_unknown : name ∉ fields.map RecordField.name → doc.wellFormed = true := by
          intro rest_unknown
          apply unknown
          simp only [List.map_cons, List.mem_cons, not_or]
          exact ⟨Ne.symm name_eq, rest_unknown⟩
        rcases ih filled distinct.2 rest_known rest_unknown with ⟨rest, rest_eq, rest_filled⟩
        refine ⟨cons slot rest, ?_, ?_, rest_filled⟩
        · rw [put_other name_eq, rest_eq]
          rfl
        · simp [slot_filled, name_eq]

/-- Members that are read without problem fill the slots of their names. -/
theorem Filled.putAll {names : List (Option String)} {slots : Slots fields}
    (filled : Filled names fields slots) (distinct : (fields.map RecordField.name).Nodup)
    {members : List (Option String × Doc)} (readable : RecordField.Readable fields members)
    (fresh : ∀ field ∈ fields, some field.name ∈ names →
      some field.name ∉ members.map Prod.fst) :
    ∃ result, putAll fields members slots = .ok result ∧
      Filled (names ++ members.map Prod.fst) fields result := by
  induction members generalizing names slots with
  | nil => exact ⟨slots, rfl, by simpa using filled⟩
  | cons member rest ih =>
      rcases member with ⟨_ | name, doc⟩
      · exact absurd rfl (readable.named _ List.mem_cons_self)
      · have known : ∀ field ∈ fields, field.name = name →
            some name ∉ names ∧ ∃ value, field.read doc = .ok value := by
          rintro field field_mem rfl
          refine ⟨?_, readable.known field field_mem doc List.mem_cons_self⟩
          intro name_mem
          exact fresh field field_mem name_mem List.mem_cons_self
        rcases filled.put distinct known (readable.unknown name doc List.mem_cons_self) with
          ⟨middle, put_eq, middle_filled⟩
        have rest_fresh : ∀ field ∈ fields, some field.name ∈ names ++ [some name] →
            some field.name ∉ rest.map Prod.fst := by
          intro field field_mem name_mem rest_mem
          rcases List.mem_append.mp name_mem with name_mem | name_mem
          · exact fresh field field_mem name_mem (List.mem_cons_of_mem _ rest_mem)
          · have count_le := readable.once field field_mem
            have count_pos := List.count_pos_iff.mpr rest_mem
            rw [List.mem_singleton] at name_mem
            rw [List.map_cons, name_mem, List.count_cons_self, ← name_mem] at count_le
            omega
        rcases ih middle_filled readable.tail rest_fresh with ⟨result, rest_eq, result_filled⟩
        refine ⟨result, ?_, by simpa using result_filled⟩
        rw [putAll_member, put_eq]
        exact rest_eq

/-- The first missing field is the answer. -/
theorem Filled.complete {members : List (Option String × Doc)} {slots : Slots fields}
    (filled : Filled (members.map Prod.fst) fields slots) {field : RecordField}
    (missing : RecordField.firstMissing? fields members = some field) :
    slots.complete fields = .error (.missingField field.name) := by
  induction fields with
  | nil => cases missing
  | cons first fields ih =>
      rcases slots.eq_cons with ⟨slot, slots, rfl⟩
      rcases filled with ⟨slot_filled, filled⟩
      rw [Row.complete_slots_cons]
      cases value_eq : slot <|> first.fallback with
      | some value =>
          have present : (first.fallback.isNone &&
              !(members.map Prod.fst).contains (some first.name)) = false := by
            cases slot with
            | none => simp_all
            | some found => simp_all
          rw [RecordField.firstMissing?, List.find?_cons, present] at missing
          rw [ih filled missing]
          rfl
      | none =>
          have absent : (first.fallback.isNone &&
              !(members.map Prod.fst).contains (some first.name)) = true := by
            cases slot with
            | none => simp_all
            | some found => cases value_eq
          rw [RecordField.firstMissing?, List.find?_cons, absent] at missing
          cases missing
          rfl

end Slots

/-- A record whose members are read without problem but lack a field answers with the first one that
is missing, in whatever order the members come. -/
theorem Decoder.record_missing {α : Type} {room : Nat} (opens : 0 < room) {title : String}
    {fields : List RecordField} {build : Row fields → α}
    (distinct : (fields.map RecordField.name).Nodup)
    {members members' : List (Option String × Doc)}
    (reordered : RecordField.Reordered fields members members')
    (readable : RecordField.Readable fields members) {field : RecordField}
    (missing : RecordField.firstMissing? fields members = some field) :
    record room title fields build (.obj members' .closed) = .error (.missingField field.name) := by
  rcases (Slots.filled_empty fields).putAll distinct readable (by simp) with
    ⟨slots, taken, filled⟩
  have complete_eq := Slots.Filled.complete filled missing
  have taken' := Slots.putAll_reordered reordered taken
  rw [record, if_neg (by omega), Row.ofMembers, taken']
  change (slots.complete fields).map build = _
  rw [complete_eq]
  rfl

theorem RecordField.Reordered.refl (fields : List RecordField)
    (members : List (Option String × Doc)) : Reordered fields members members :=
  ⟨[], [], by simp, List.Perm.refl _⟩

namespace Kind

/-- The members of an object that is read as a record may come in any order, with members of other
names put in or left out, wherever in a text the object stands: the text is accepted or not, and
read as the same value. If nothing is wrong with the object but that fields are missing, both texts
have the same answer. It names the first missing field, unless there is a problem before the object,
which is then the answer whatever stands in the place of the object. -/
theorem read_reordered (kind inner : Kind) (room : Nat)
    (isRecord : (inner.form? room).isSome = true) (opens : 0 < room) (context : Doc → Doc)
    (place : Decoder.Place (inner.decode room) (kind.decode Decoder.maxNesting) context)
    (members members' : List (Option String × Doc)) (text text' : String) (complete : Bool)
    (text_eq : Document.ofText text = ⟨context (.obj members .closed), complete⟩)
    (text_eq' : Document.ofText text' = ⟨context (.obj members' .closed), complete⟩) :
    let fields := ((inner.form? room).get isRecord).fields
    RecordField.Reordered fields members members' →
      (∀ value, kind.read text = .ok value ↔ kind.read text' = .ok value) ∧
      (∀ field, RecordField.Readable fields members →
        RecordField.firstMissing? fields members = some field →
        ∃ error, kind.read text = .error error ∧ kind.read text' = .error error ∧
          (error = .missingField field.name ∨
            ∀ doc, kind.readDoc (context doc) = .error error)) := by
  intro fields reordered
  let form := (inner.form? room).get isRecord
  have reads := place.readsThrough
  have accepts : ∀ {members members'}, RecordField.Reordered fields members members' →
      ∀ value, inner.decode room (.obj members .closed) = .ok value →
        inner.decode room (.obj members' .closed) = .ok value := by
    intro members members' reordered value
    rw [form.decoder_eq]
    exact Decoder.record_reordered reordered
  refine ⟨?_, ?_⟩
  · intro value
    rw [read_eq_ok_iff, read_eq_ok_iff, text_eq, text_eq']
    exact and_congr_left fun _ =>
      ⟨reads.accepts (accepts reordered), reads.accepts (accepts reordered.symm)⟩
  · intro field readable missing
    have answer : ∀ {members'}, RecordField.Reordered fields members members' →
        inner.decode room (.obj members' .closed) = .error (.missingField field.name) := by
      intro members' reordered
      rw [form.decoder_eq]
      exact Decoder.record_missing opens form.distinct reordered readable missing
    have same := answer (RecordField.Reordered.refl fields members)
    rcases reads with ⟨problem, fails⟩ | ⟨next, reads⟩
    · have fails_in_text : ∀ doc, kind.readDoc (context doc) = .error (kind.errorInText problem) :=
        fun doc => congrArg (Except.mapError kind.errorInText) (fails doc)
      refine ⟨kind.errorInText problem, read_eq_error ?_, read_eq_error ?_, Or.inr fails_in_text⟩
      · rw [text_eq, fails_in_text]
      · rw [text_eq', fails_in_text]
    · have readDoc_eq : ∀ doc, inner.decode room doc = .error (.missingField field.name) →
          kind.readDoc (context doc) = .error (.missingField field.name) := by
        intro doc inner_eq
        have decode_eq : kind.decode Decoder.maxNesting (context doc) =
            (inner.decode room doc).bind next := reads doc
        rw [inner_eq] at decode_eq
        rw [readDoc, decode_eq]
        exact congrArg Except.error (kind.errorInText_missingField field.name)
      refine ⟨.missingField field.name, read_eq_error ?_, read_eq_error ?_, Or.inl rfl⟩
      · rw [text_eq, readDoc_eq _ same]
      · rw [text_eq', readDoc_eq _ (answer reordered)]

/-- A setting of an enum, which is itself in positional form, lacks its name, once with nothing else
in it and once behind a member that nobody reads. -/
theorem read_reordered_setting :
    let text := "\x7b\"enums\":[[\"E\",[\x7b\"value\":\"v\"\x7d]]]\x7d"
    let text' := "\x7b\"enums\":[[\"E\",[\x7b\"x\":[null],\"value\":\"v\"\x7d]]]\x7d"
    Kind.file.read text = .error (.missingField "name") ∧
      Kind.file.read text' = .error (.missingField "name") := by
  intro text text'
  let context (doc : Doc) : Doc :=
    .obj [(some "enums", .arr [.arr [.str (some "E"), .arr [doc] .closed] .closed] .closed)] .closed
  let fields := ((Kind.option.form? 123).get rfl).fields
  let value : Option String × Doc := (some "value", .str (some "v"))
  let other : Option String × Doc := (some "x", .arr [.null] .closed)
  have place : Decoder.Place (Kind.option.decode 123) (Kind.file.decode 127) context :=
    .member 127 "File" "enums" rfl [] [] .closed
      (.item 126 [] [] .closed
        (.position 125 "Enum" [.str (some "E")] [] rfl .closed
          (.item 124 [] [] .closed .here)))
  have reordered : RecordField.Reordered fields [value] [other, value] := by
    have skips : RecordField.Skips fields other :=
      ⟨"x", rfl, show "x" ∉ ["name", "value"] by decide, rfl⟩
    exact ⟨[other], [], by simpa using skips, List.Perm.swap other value []⟩
  have readable : RecordField.Readable fields [value] := by
    refine ⟨by simp [value], fun _ _ => List.count_le_length, ?_, ?_⟩
    · intro field field_mem doc doc_mem
      change field ∈ [RecordField.required "name" .text, RecordField.required "value" .text]
        at field_mem
      simp only [List.mem_cons, List.not_mem_nil, or_false] at field_mem doc_mem
      rcases field_mem with rfl | rfl
      · have name_eq : some "name" = some "value" := congrArg Prod.fst doc_mem
        exact absurd name_eq (by decide)
      · have doc_eq : doc = .str (some "v") := congrArg Prod.snd doc_mem
        exact ⟨"v", by rw [doc_eq]; rfl⟩
    · intro name doc doc_mem unknown
      have name_eq : some name = some "value" := congrArg Prod.fst (List.mem_singleton.mp doc_mem)
      cases name_eq
      exact absurd unknown (show ¬"value" ∉ ["name", "value"] by decide)
  have text_eq : Document.ofText text = ⟨context (.obj [value] .closed), true⟩ :=
    Document.ofText_render (.obj [("enums", .arr [.arr [.str "E",
      .arr [.obj [("value", .str "v")]]]])])
  have text_eq' : Document.ofText text' = ⟨context (.obj [other, value] .closed), true⟩ :=
    Document.ofText_render (.obj [("enums", .arr [.arr [.str "E",
      .arr [.obj [("x", .arr [.null]), ("value", .str "v")]]]])])
  have answers := read_reordered .file .option 123 rfl (by decide) context place
    [value] [other, value] text text' true text_eq text_eq' reordered
  rcases answers.2 _ readable rfl with ⟨error, answer, answer', rfl | fails⟩
  · exact ⟨answer, answer'⟩
  · have accepted : Kind.file.readDoc (context (.arr [.str (some "n"), .str (some "v")] .closed)) =
        .ok { enums := [⟨"E", [⟨"n", "v"⟩], [], {}⟩] } := rfl
    rw [fails] at accepted
    cases accepted

end Kind

end ProtoSchema
