import ProtoSchema.Codec.Kind
import ProtoSchema.Proofs.Codec.Records

/-!
# Record forms and places

Fifteen of the kinds are read as records. `Kind.form?` gives the record of each of them, with the
title and the fields in the order of their declaration, and the proof that this is how the kind is
decoded.

Records stand in records, in lists of them and in the fields of others. `Decoder.Place` says where
in a document a decoder is at work while another one reads the whole. A document is read from left
to right, so whatever stands at a place is either never reached, or it is read by the decoder of the
place and reading goes on from its value: `Decoder.Place.readsThrough`.
-/

namespace ProtoSchema

/-- The record as which a decoder reads. -/
structure Decoder.RecordForm {α : Type} (room : Nat) (decoder : Decoder α) where
  title : String
  fields : List RecordField
  build : Row fields → α
  decoder_eq : decoder = Decoder.record room title fields build
  distinct : (fields.map RecordField.name).Nodup

theorem Message.distinct_names :
    ["name", "comment", "fields", "enums", "messages", "oneofs"].Nodup := by decide

/-- Messages are read as records of the same names however much room there is. -/
def Message.form : (room : Nat) → Decoder.RecordForm room (Message.read room)
  | 0 => ⟨_, _, _, rfl, Message.distinct_names⟩
  | 1 => ⟨_, _, _, rfl, Message.distinct_names⟩
  | _ + 2 => ⟨_, _, _, rfl, Message.distinct_names⟩

theorem Setting.distinct_names : ["name", "value"].Nodup := by decide

/-- The record as which a kind is read, if it is one. -/
def Kind.form? (room : Nat) : (kind : Kind) → Option (Decoder.RecordForm room (kind.decode room))
  | file => some ⟨_, _, _, rfl, show ["syntax", "package", "comment", "imports", "options",
      "messages", "enums", "services"].Nodup by decide⟩
  | imported => some ⟨_, _, _, rfl, show ["path", "visibility"].Nodup by decide⟩
  | option => some ⟨_, _, _, rfl, Setting.distinct_names⟩
  | message => some (Message.form room)
  | messageField => some ⟨_, _, _, rfl,
      show ["repeated", "type", "name", "index", "options", "comment"].Nodup by decide⟩
  | oneof => some ⟨_, _, _, rfl, show ["name", "comment", "fields"].Nodup by decide⟩
  | oneofField => some ⟨_, _, _, rfl,
      show ["type", "name", "index", "comment", "options"].Nodup by decide⟩
  | fieldOption => some ⟨_, _, _, rfl, Setting.distinct_names⟩
  | enum => some ⟨_, _, _, rfl, show ["name", "options", "fields", "comment"].Nodup by decide⟩
  | enumValue => some ⟨_, _, _, rfl, show ["name", "index", "options", "comment"].Nodup by decide⟩
  | enumValueOption => some ⟨_, _, _, rfl, Setting.distinct_names⟩
  | service => some ⟨_, _, _, rfl, show ["name", "comment", "options", "rpcs"].Nodup by decide⟩
  | rpc => some ⟨_, _, _, rfl, show ["name", "comment", "input", "output"].Nodup by decide⟩
  | returnType => some ⟨_, _, _, rfl, show ["name", "streamable"].Nodup by decide⟩
  | config => some ⟨_, _, _, rfl, show ["indent"].Nodup by decide⟩
  | dialect | package | comment | typeDecl | scalarType | visibility => none

namespace Decoder

variable {α β γ : Type}

/-- What the documents of a family are read as by `outer` depends on `inner` only through its value:
either reading fails whatever the document is, or `inner` reads it and its value is passed on. -/
def ReadsThrough (outer : Doc → Except ReadError α) (inner : Doc → Except ReadError β) : Prop :=
  (∃ error, ∀ doc, outer doc = .error error) ∨ ∃ next, ∀ doc, outer doc = (inner doc).bind next

namespace ReadsThrough

variable {outer : Doc → Except ReadError α} {middle : Doc → Except ReadError β}
  {inner : Doc → Except ReadError γ}

theorem refl (inner : Doc → Except ReadError γ) : ReadsThrough inner inner := by
  refine Or.inr ⟨.ok, ?_⟩
  intro doc
  cases inner doc <;> rfl

theorem trans (first : ReadsThrough outer middle) (second : ReadsThrough middle inner) :
    ReadsThrough outer inner := by
  rcases first with ⟨error, outer_eq⟩ | ⟨next, outer_eq⟩
  · exact Or.inl ⟨error, outer_eq⟩
  · rcases second with ⟨error, middle_eq⟩ | ⟨next', middle_eq⟩
    · refine Or.inl ⟨error, ?_⟩
      intro doc
      rw [outer_eq, middle_eq]
      rfl
    · refine Or.inr ⟨fun value => (next' value).bind next, ?_⟩
      intro doc
      rw [outer_eq, middle_eq]
      cases inner doc <;> rfl

theorem comp (reads : ReadsThrough middle inner) (context : Doc → Doc) :
    ReadsThrough (fun doc => middle (context doc)) (fun doc => inner (context doc)) := by
  rcases reads with ⟨error, middle_eq⟩ | ⟨next, middle_eq⟩
  · exact Or.inl ⟨error, fun doc => middle_eq (context doc)⟩
  · exact Or.inr ⟨next, fun doc => middle_eq (context doc)⟩

/-- What is done with a result after reading changes nothing about where it comes from. -/
theorem bind (reads : ReadsThrough middle inner) (next : β → Except ReadError α) :
    ReadsThrough (fun doc => (middle doc).bind next) inner :=
  trans (Or.inr ⟨next, fun _ => rfl⟩) reads

theorem map (reads : ReadsThrough middle inner) (build : β → α) :
    ReadsThrough (fun doc => (middle doc).map build) inner := by
  refine trans (Or.inr ⟨fun value => .ok (build value), ?_⟩) reads
  intro doc
  change (middle doc).map build = _
  cases middle doc <;> rfl

/-- Steps that come before the document either fail or lead to some state from which it is read. -/
theorem after {σ : Type} (steps : Except ReadError σ) {next : σ → Doc → Except ReadError α}
    (reads : ∀ state, ReadsThrough (next state) inner) :
    ReadsThrough (fun doc => steps.bind fun state => next state doc) inner := by
  cases steps with
  | error problem => exact Or.inl ⟨problem, fun _ => rfl⟩
  | ok state => exact reads state

/-- Documents that `inner` accepts alike are accepted alike. -/
theorem accepts (reads : ReadsThrough middle inner) {doc doc' : Doc}
    (alike : ∀ found, inner doc = .ok found → inner doc' = .ok found) {value : β}
    (middle_eq : middle doc = .ok value) : middle doc' = .ok value := by
  rcases reads with ⟨error, fails⟩ | ⟨next, reads⟩
  · rw [fails] at middle_eq
    cases middle_eq
  · rw [reads] at middle_eq ⊢
    rcases Except.bind_eq_ok middle_eq with ⟨found, inner_eq, next_eq⟩
    rw [alike found inner_eq]
    exact next_eq

/-- If one document is accepted, the problem with another one is that of the inner decoder. -/
theorem rejects (reads : ReadsThrough middle inner) {doc other : Doc} {value : β}
    (middle_eq : middle doc = .ok value) {problem : ReadError}
    (inner_eq : inner other = .error problem) : middle other = .error problem := by
  rcases reads with ⟨error, fails⟩ | ⟨next, reads⟩
  · rw [fails] at middle_eq
    cases middle_eq
  · rw [reads, inner_eq]
    rfl

end ReadsThrough

end Decoder

namespace Slots

/-- A member is put into the slot of the first field of its name, if that slot is empty. -/
theorem put_readsThrough {name : String} {field : RecordField} {fields : List RecordField}
    (found : fields.find? (·.name == name) = some field) (slots : Slots fields) :
    Decoder.ReadsThrough (fun doc => put name doc fields slots) field.read := by
  induction fields with
  | nil => cases found
  | cons first fields ih =>
      rcases slots.eq_cons with ⟨slot, slots, rfl⟩
      simp only [put_cons]
      by_cases name_eq : first.name = name
      · have first_eq : first = field := by simpa [name_eq] using found
        subst first_eq
        simp only [if_pos name_eq]
        cases slot with
        | some value => exact Or.inl ⟨_, fun _ => rfl⟩
        | none => exact (Decoder.ReadsThrough.refl _).map _
      · simp only [if_neg name_eq]
        refine (ih ?_ slots).map _
        simpa [name_eq] using found

theorem putAll_append (fields : List RecordField) (members others : List (Option String × Doc))
    (slots : Slots fields) :
    putAll fields (members ++ others) slots =
      (putAll fields members slots).bind (putAll fields others) := by
  induction members generalizing slots with
  | nil => rfl
  | cons member rest ih =>
      rcases member with ⟨_ | name, doc⟩
      · rfl
      · rw [List.cons_append, putAll_member, putAll_member]
        cases put name doc fields slots with
        | error problem => rfl
        | ok slots => exact ih slots

end Slots

namespace Row

theorem ofItems_readsThrough {expected : Expected} {field : RecordField}
    {fields : List RecordField} (before after : List Doc)
    (found : fields[before.length]? = some field) (position : Nat) (ending : Ending) :
    Decoder.ReadsThrough
      (fun doc => ofItems expected position fields (before ++ doc :: after) ending) field.read := by
  induction before generalizing fields position with
  | nil =>
      cases fields with
      | nil => cases found
      | cons first fields =>
          cases found
          simp only [List.nil_append, ofItems_item]
          exact (Decoder.ReadsThrough.refl _).bind _
  | cons item before ih =>
      cases fields with
      | nil => cases found
      | cons first fields =>
          simp only [List.cons_append, ofItems_item]
          apply Decoder.ReadsThrough.after
          intro value
          exact (ih (by simpa using found) (position + 1)).map _

end Row

namespace Decoder

variable {α β : Type}

theorem items_readsThrough (read : Decoder α) (before after : List Doc) :
    ReadsThrough (fun doc => items read (before ++ doc :: after)) read := by
  induction before with
  | nil =>
      simp only [List.nil_append, items]
      exact (ReadsThrough.refl read).bind _
  | cons item before ih =>
      simp only [List.cons_append, items]
      apply ReadsThrough.after
      intro value
      exact ih.bind _

/-- Where in a document `inner` is at work while another decoder reads the whole. The context is the
document around that place. -/
inductive Place (inner : Decoder β) : {α : Type} → Decoder α → (Doc → Doc) → Prop
  /-- The whole document. -/
  | here : Place inner inner fun doc => doc
  /-- In an item of a list. -/
  | item {α : Type} {read : Decoder α} {context : Doc → Doc} (room : Nat)
      (before after : List Doc) (ending : Ending) (place : Place inner read context) :
      Place inner (list room read) fun doc => .arr (before ++ context doc :: after) ending
  /-- In a member of a record, which is read as the field of its name. -/
  | member {α : Type} {fields : List RecordField} {build : Row fields → α} {field : RecordField}
      {context : Doc → Doc} (room : Nat) (title name : String)
      (found : fields.find? (·.name == name) = some field)
      (before after : List (Option String × Doc)) (ending : Ending)
      (place : Place inner field.read context) :
      Place inner (record room title fields build)
        fun doc => .obj (before ++ (some name, context doc) :: after) ending
  /-- In an item of a record in positional form, which is read as the field at its position. -/
  | position {α : Type} {fields : List RecordField} {build : Row fields → α} {field : RecordField}
      {context : Doc → Doc} (room : Nat) (title : String) (before after : List Doc)
      (found : fields[before.length]? = some field) (ending : Ending)
      (place : Place inner field.read context) :
      Place inner (record room title fields build)
        fun doc => .arr (before ++ context doc :: after) ending

/-- Whatever stands at a place is never reached, or the decoder of the place reads it and its value
is passed on. -/
theorem Place.readsThrough {inner : Decoder β} {outer : Decoder α} {context : Doc → Doc}
    (place : Place inner outer context) : ReadsThrough (fun doc => outer (context doc)) inner := by
  induction place with
  | here => exact ReadsThrough.refl inner
  | @item _ read context room before after ending _ ih =>
      have reads : ReadsThrough (fun doc => items read (before ++ context doc :: after)) inner :=
        (items_readsThrough read before after).comp context |>.trans ih
      by_cases closed : room = 0
      · exact Or.inl ⟨.malformed, fun doc => by simp [list, closed]⟩
      · simp only [list, if_neg closed]
        exact reads.bind _
  | @member _ fields build field context room title name found before after ending _ ih =>
      have reads : ∀ slots, ReadsThrough (fun doc =>
          (Slots.put name (context doc) fields slots).bind (Slots.putAll fields after)) inner :=
        fun slots => (((Slots.put_readsThrough found slots).comp context).trans ih).bind _
      by_cases closed : room = 0
      · exact Or.inl ⟨.malformed, fun doc => by simp [record, closed]⟩
      · simp only [record, if_neg closed, Row.ofMembers, Slots.putAll_append]
        exact ((ReadsThrough.after _ reads).bind _).map _
  | @position _ fields build field context room title before after found ending _ ih =>
      have reads : ReadsThrough (fun doc => Row.ofItems (.elements title fields.length) 0 fields
          (before ++ context doc :: after) ending) inner :=
        ((Row.ofItems_readsThrough before after found 0 ending).comp context).trans ih
      by_cases closed : room = 0
      · exact Or.inl ⟨.malformed, fun doc => by simp [record, closed]⟩
      · simp only [record, if_neg closed]
        exact reads.map _

end Decoder

namespace Kind

/-- A text is read as a value if the document it holds is, and nothing follows it. -/
theorem read_eq_ok_iff {kind : Kind} {text : String} {value : kind.Value} :
    kind.read text = .ok value ↔
      kind.decode Decoder.maxNesting (Document.ofText text).root = .ok value ∧
        (Document.ofText text).complete = true := by
  rw [read, Decoder.ofText, readDoc]
  cases kind.decode Decoder.maxNesting (Document.ofText text).root with
  | error problem => simp [Except.mapError]
  | ok found => cases (Document.ofText text).complete <;> simp [Except.mapError]

/-- A problem of the document that a text holds is the answer, whatever follows it. -/
theorem read_eq_error {kind : Kind} {text : String} {problem : ReadError}
    (readDoc_eq : kind.readDoc (Document.ofText text).root = .error problem) :
    kind.read text = .error problem := by
  rw [read, Decoder.ofText, readDoc_eq]

theorem errorInText_eq (kind : Kind) {problem : ReadError} (inText_eq : problem.inText = problem) :
    kind.errorInText problem = problem := by
  rw [errorInText.eq_def]
  split
  · rfl
  · exact inText_eq

theorem errorInText_missingField (kind : Kind) (name : String) :
    kind.errorInText (.missingField name) = .missingField name :=
  kind.errorInText_eq rfl

end Kind

end ProtoSchema
