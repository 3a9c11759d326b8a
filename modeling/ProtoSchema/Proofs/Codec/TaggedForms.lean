import ProtoSchema.Proofs.Codec.Room
import ProtoSchema.Proofs.Json.OpenObject

/-!
# The forms of tagged declarations

A declaration is given by a tag and a content, in an object in either order or in an array. All
three forms are read as the same declaration, or all are rejected, and the declaration is what the
content alone is read as for the kind that the tag names: `TypeDecl.read_forms`. Members of other
names do not count.

With the content first, it is set aside before its kind is known, so all of it must stand for a
value, also the parts that its reader would skip. This is where the conditions on strings, numbers
and nesting come from, `Doc.meaningful_of_wellFormed`. The reader of the declaration has one
container less to open than a reader of the content alone, and `Message.roomy` and
`Enumeration.roomy` say that this makes no difference.
-/

namespace ProtoSchema

open Document (MemberText closedText arrayText)

namespace Doc

mutual

/-- The strings of a document, and the names of its members. One with a lone surrogate has no
text. -/
def strings : Doc → List (Option String)
  | str text => [text]
  | arr items _ => itemStrings items
  | obj members _ => memberStrings members
  | _ => []

/-- The strings of items. -/
def itemStrings : List Doc → List (Option String)
  | [] => []
  | item :: rest => item.strings ++ itemStrings rest

/-- The names of members, each before the strings of its value. -/
def memberStrings : List (Option String × Doc) → List (Option String)
  | [] => []
  | (name, value) :: rest => name :: value.strings ++ memberStrings rest

end

mutual

/-- The numbers of a document. -/
def numbers : Doc → List Number
  | number value => [value]
  | arr items _ => itemNumbers items
  | obj members _ => memberNumbers members
  | _ => []

/-- The numbers of items. -/
def itemNumbers : List Doc → List Number
  | [] => []
  | item :: rest => item.numbers ++ itemNumbers rest

/-- The numbers of the values of members. -/
def memberNumbers : List (Option String × Doc) → List Number
  | [] => []
  | (_, value) :: rest => value.numbers ++ memberNumbers rest

end

mutual

/-- A well-formed document stands for a value if its strings, its numbers and its nesting allow. -/
theorem meaningful_of_wellFormed (doc : Doc) {room : Nat} (skippable : doc.wellFormed = true)
    (nests : doc.depth ≤ room) (spelled : none ∉ doc.strings)
    (finite : Number.overflow ∉ doc.numbers) : doc.meaningful room = true := by
  cases doc with
  | null => rfl
  | bool value => rfl
  | number value =>
      simp only [numbers, List.mem_singleton] at finite
      exact bne_iff_ne.mpr (Ne.symm finite)
  | str text =>
      simp only [strings, List.mem_singleton] at spelled
      exact Option.isSome_iff_ne_none.mpr (Ne.symm spelled)
  | arr items ending =>
      simp only [wellFormed, Bool.and_eq_true] at skippable
      rw [depth] at nests
      have inside := itemsMeaningful_of_wellFormed items skippable.1 (Nat.le_sub_one_of_lt nests)
        spelled finite
      simp only [meaningful, inside, skippable.2, Bool.and_true, decide_eq_true_eq]
      omega
  | obj members ending =>
      simp only [wellFormed, Bool.and_eq_true] at skippable
      rw [depth] at nests
      have inside := membersMeaningful_of_wellFormed members skippable.1
        (Nat.le_sub_one_of_lt nests) spelled finite
      simp only [meaningful, inside, skippable.2, Bool.and_true, decide_eq_true_eq]
      omega
  | fault => cases skippable

theorem itemsMeaningful_of_wellFormed (items : List Doc) {room : Nat}
    (skippable : itemsWellFormed items = true) (nests : itemDepth items ≤ room)
    (spelled : none ∉ itemStrings items) (finite : Number.overflow ∉ itemNumbers items) :
    itemsMeaningful room items = true := by
  cases items with
  | nil => rfl
  | cons item rest =>
      simp only [itemsWellFormed, Bool.and_eq_true] at skippable
      simp only [itemDepth, Nat.max_le] at nests
      simp only [itemStrings, List.mem_append, not_or] at spelled
      simp only [itemNumbers, List.mem_append, not_or] at finite
      rw [itemsMeaningful, Bool.and_eq_true]
      exact ⟨meaningful_of_wellFormed item skippable.1 nests.1 spelled.1 finite.1,
        itemsMeaningful_of_wellFormed rest skippable.2 nests.2 spelled.2 finite.2⟩

theorem membersMeaningful_of_wellFormed (members : List (Option String × Doc)) {room : Nat}
    (skippable : membersWellFormed members = true) (nests : memberDepth members ≤ room)
    (spelled : none ∉ memberStrings members) (finite : Number.overflow ∉ memberNumbers members) :
    membersMeaningful room members = true := by
  cases members with
  | nil => rfl
  | cons member rest =>
      rcases member with ⟨name, value⟩
      simp only [membersWellFormed, Bool.and_eq_true] at skippable
      simp only [memberDepth, Nat.max_le] at nests
      simp only [memberStrings, List.cons_append, List.mem_cons, List.mem_append, not_or] at spelled
      simp only [memberNumbers, List.mem_append, not_or] at finite
      have named : name.isSome = true := Option.isSome_iff_ne_none.mpr (Ne.symm spelled.1)
      rw [membersMeaningful, named, Bool.true_and, Bool.and_eq_true]
      exact ⟨meaningful_of_wellFormed value skippable.1 nests.1 spelled.2.1 finite.1,
        membersMeaningful_of_wellFormed rest skippable.2 nests.2 spelled.2.2 finite.2⟩

end

end Doc

/-- A complete text is read as the document it holds. -/
theorem Kind.map_read_eq_ok_iff (kind : Kind) {text : String}
    (complete : (Document.ofText text).complete = true) {α : Type} (build : kind.Value → α)
    {value : α} :
    (kind.read text).map build = .ok value ↔
      (kind.decode Decoder.maxNesting (Document.ofText text).root).map build = .ok value := by
  constructor
  · intro map_eq
    rcases Except.map_eq_ok map_eq with ⟨found, read_eq, rfl⟩
    rw [(read_eq_ok_iff.mp read_eq).1]
    rfl
  · intro map_eq
    rcases Except.map_eq_ok map_eq with ⟨found, decode_eq, rfl⟩
    rw [read_eq_ok_iff.mpr ⟨decode_eq, complete⟩]
    rfl

namespace DeclKind

theorem named_eq_ok_iff {name : String} {kind : DeclKind} :
    Decoder.named tags name = .ok kind ↔ name = kind.word := by
  constructor
  · intro named_eq
    rw [Decoder.named] at named_eq
    split at named_eq
    · rename_i found lookup_eq
      cases named_eq
      rcases List.lookup_eq_some_iff.mp lookup_eq with ⟨before, after, tags_eq, -⟩
      have found_mem : (name, kind) ∈ tags := by
        rw [tags_eq]
        exact List.mem_append_right _ List.mem_cons_self
      simp only [tags, List.mem_cons, Prod.mk.injEq, List.not_mem_nil, or_false] at found_mem
      rcases found_mem with ⟨name_eq, rfl⟩ | ⟨name_eq, rfl⟩ <;> exact name_eq
    · cases named_eq
  · rintro rfl
    cases kind <;> rfl

theorem read_str_eq_ok_iff {room : Nat} {text : Option String} {kind : DeclKind} :
    DeclKind.read room (.str text) = .ok kind ↔ text = some kind.word := by
  cases text with
  | none => simp [DeclKind.read, Decoder.variant]
  | some name =>
      rw [Option.some.injEq]
      exact named_eq_ok_iff

theorem readItem_str_eq_ok_iff {text : Option String} {kind : DeclKind} :
    readItem (.str text) = .ok kind ↔ text = some kind.word := by
  cases text with
  | none => simp [readItem, Decoder.variantName, Decoder.mismatch, Doc.shape?]
  | some name =>
      rw [Option.some.injEq]
      exact named_eq_ok_iff

/-- Reads a text as a declaration of the kind, without a tag. -/
def readAlone : DeclKind → String → Except ReadError TypeDecl
  | message, text => (Kind.message.read text).map .message
  | enum, text => (Kind.enum.read text).map .enum

theorem readDecl_roomy (kind : DeclKind) (depth : Nat) :
    Decoder.Roomy depth fun room => kind.readDecl room := by
  intro room room' doc nests fits fits'
  cases kind with
  | message =>
      exact congrArg (Except.map _) (Message.roomy depth room room' doc nests fits fits')
  | enum =>
      exact congrArg (Except.map _) (Enumeration.roomy depth room room' doc nests fits fits')

/-- A content that leaves a container to spare is read in its place as it is alone. -/
theorem readAlone_eq_ok_iff {kind : DeclKind} {text : String}
    (complete : (Document.ofText text).complete = true)
    (nests : (Document.ofText text).root.depth + 1 ≤ Decoder.maxNesting) {decl : TypeDecl} :
    kind.readAlone text = .ok decl ↔
      kind.readDecl (Decoder.maxNesting - 1) (Document.ofText text).root = .ok decl := by
  have room_eq : kind.readDecl (Decoder.maxNesting - 1) (Document.ofText text).root =
      kind.readDecl Decoder.maxNesting (Document.ofText text).root :=
    kind.readDecl_roomy _ _ _ _ (Nat.le_refl _) (Nat.le_sub_one_of_lt nests)
      (Nat.le_of_succ_le nests)
  rw [room_eq]
  cases kind with
  | message => exact Kind.message.map_read_eq_ok_iff complete TypeDecl.message
  | enum => exact Kind.enum.map_read_eq_ok_iff complete TypeDecl.enum

end DeclKind

namespace TypeDecl

variable {room : Nat}

theorem readNow_eq_ok_iff {kind : DeclKind} {doc : Doc} {decl : TypeDecl} :
    readNow room kind doc = .ok decl ↔ kind.readDecl room doc = .ok decl := by
  refine ⟨readNow_eq_ok, ?_⟩
  intro readDecl_eq
  rw [readNow, readDecl_eq]
  rfl

namespace Found

theorem addAll_append (members others : List (Option String × Doc)) (found : Found) :
    addAll room (members ++ others) found =
      (addAll room members found).bind (addAll room others) := by
  induction members generalizing found with
  | nil => rfl
  | cons member rest ih =>
      rcases member with ⟨_ | name, doc⟩
      · rfl
      · rw [List.cons_append, addAll, addAll]
        split
        · cases found.addTag room doc with
          | error problem => rfl
          | ok found => exact ih found
        · split
          · cases found.addContent room doc with
            | error problem => rfl
            | ok found => exact ih found
          · split
            · exact ih found
            · rfl

/-- Members of other names are skipped. -/
theorem addAll_others {members : List MemberText}
    (others : ∀ member ∈ members, member.name ∉ [tagName, contentName]) (found : Found) :
    addAll room (members.map MemberText.entry) found = .ok found := by
  induction members with
  | nil => rfl
  | cons member rest ih =>
      rw [List.forall_mem_cons] at others
      have notTag : member.name ≠ tagName := by
        intro name_eq
        simp [name_eq] at others
      have notContent : member.name ≠ contentName := by
        intro name_eq
        simp [name_eq] at others
      have skippable : member.doc.wellFormed = true :=
        Document.wellFormed_of_complete member.complete
      rw [List.map_cons, MemberText.entry, addAll, if_neg notTag, if_neg notContent,
        if_pos skippable, ih others.2]

theorem addAll_between (one other : MemberText) {first second third : List MemberText}
    (others : ∀ member ∈ first ++ second ++ third, member.name ∉ [tagName, contentName]) :
    addAll room ((first ++ one :: second ++ other :: third).map MemberText.entry) nothing =
      addAll room ([one, other].map MemberText.entry) nothing := by
  simp only [List.forall_mem_append] at others
  have list_eq : (first ++ one :: second ++ other :: third).map MemberText.entry =
      first.map MemberText.entry ++ ([one.entry] ++ (second.map MemberText.entry ++
        ([other.entry] ++ third.map MemberText.entry))) := by simp
  have pair_eq : [one, other].map MemberText.entry = [one.entry] ++ [other.entry] := rfl
  rw [list_eq, pair_eq, addAll_append, addAll_others others.1.1]
  change addAll room ([one.entry] ++ _) nothing = _
  rw [addAll_append, addAll_append]
  cases addAll room [one.entry] nothing with
  | error problem => rfl
  | ok found =>
      change addAll room (second.map MemberText.entry ++ _) found = addAll room _ found
      rw [addAll_append, addAll_others others.1.2]
      change addAll room ([other.entry] ++ _) found = _
      rw [addAll_append]
      cases addAll room [other.entry] found with
      | error problem => rfl
      | ok found => exact addAll_others others.2 found

section

variable {tag content : MemberText} (tag_name : tag.name = tagName)
  (content_name : content.name = contentName) {decl : TypeDecl}

include tag_name content_name

theorem addAll_tag_content :
    addAll room [tag.entry, content.entry] nothing =
      (DeclKind.read room tag.doc).bind fun kind =>
        (readNow room kind content.doc).map both := by
  have apart : contentName ≠ tagName := by decide
  simp only [MemberText.entry, tag_name, content_name, addAll, if_true, if_neg apart, addTag]
  cases DeclKind.read room tag.doc with
  | error problem => rfl
  | ok kind =>
      change ((readNow room kind content.doc).bind fun decl => .ok (both decl)).bind .ok =
        (readNow room kind content.doc).map both
      cases readNow room kind content.doc <;> rfl

theorem addAll_content_tag (stands : content.doc.meaningful room = true) :
    addAll room [content.entry, tag.entry] nothing =
      (DeclKind.read room tag.doc).bind fun kind =>
        (kind.readDecl room content.doc).map both := by
  have apart : contentName ≠ tagName := by decide
  simp only [MemberText.entry, tag_name, content_name, addAll, if_true, if_neg apart, addContent,
    stands]
  change (addTag room tag.doc (.content content.doc)).bind .ok = _
  rw [addTag]
  cases DeclKind.read room tag.doc with
  | error problem => rfl
  | ok kind =>
      change ((kind.readDecl room content.doc).bind fun decl => .ok (both decl)).bind .ok =
        (kind.readDecl room content.doc).map both
      cases kind.readDecl room content.doc <;> rfl

end

/-- A declaration is complete if the tag and then the content are read. -/
theorem complete_eq_ok_iff {result : Except ReadError DeclKind}
    {read : DeclKind → Except ReadError TypeDecl} {decl : TypeDecl} :
    (result.bind fun kind => (read kind).map both).bind complete = .ok decl ↔
      ∃ kind, result = .ok kind ∧ read kind = .ok decl := by
  constructor
  · intro bind_eq
    rcases Except.bind_eq_ok bind_eq with ⟨found, found_eq, complete_eq⟩
    rcases Except.bind_eq_ok found_eq with ⟨kind, kind_eq, map_eq⟩
    rcases Except.map_eq_ok map_eq with ⟨declared, declared_eq, rfl⟩
    cases complete_eq
    exact ⟨kind, kind_eq, declared_eq⟩
  · rintro ⟨kind, rfl, read_eq⟩
    simp only [Except.bind, read_eq, Except.map, complete]

end Found

theorem read_of_ofText {text : String} {doc : Doc} (text_eq : Document.ofText text = ⟨doc, true⟩) :
    Kind.typeDecl.read text = TypeDecl.read Decoder.maxNesting doc := by
  have readDoc_eq : Kind.typeDecl.readDoc doc = TypeDecl.read Decoder.maxNesting doc := by
    change (TypeDecl.read Decoder.maxNesting doc).mapError id = _
    cases TypeDecl.read Decoder.maxNesting doc <;> rfl
  rw [Kind.read, Decoder.ofText, text_eq]
  simp only [readDoc_eq]
  cases TypeDecl.read Decoder.maxNesting doc <;> rfl

theorem read_closedText (members : List MemberText) :
    Kind.typeDecl.read (closedText members) =
      (Found.addAll (Decoder.maxNesting - 1) (members.map MemberText.entry) .nothing).bind
        Found.complete :=
  read_of_ofText (Document.ofText_closedText members)

theorem read_arrayText (tag content : MemberText) :
    Kind.typeDecl.read (arrayText [tag.value, content.value]) =
      ofItems (Decoder.maxNesting - 1) .closed [tag.doc, content.doc] := by
  have complete : ∀ text ∈ [tag.value, content.value], (Document.ofText text).complete = true := by
    simp [tag.complete, content.complete]
  exact read_of_ofText (Document.ofText_arrayText complete)

theorem ofItems_pair_eq_ok_iff {room : Nat} {tag content : Doc} {decl : TypeDecl} :
    ofItems room .closed [tag, content] = .ok decl ↔
      ∃ kind, DeclKind.readItem tag = .ok kind ∧ readNow room kind content = .ok decl := by
  constructor
  · intro ofItems_eq
    rcases Except.bind_eq_ok ofItems_eq with ⟨kind, kind_eq, bind_eq⟩
    rcases Except.bind_eq_ok bind_eq with ⟨declared, declared_eq, ending_eq⟩
    cases ending_eq
    exact ⟨kind, kind_eq, declared_eq⟩
  · rintro ⟨kind, kind_eq, read_eq⟩
    rw [ofItems, kind_eq]
    change (readNow room kind content).bind _ = _
    rw [read_eq]
    rfl

/-- A tag and a content are read in three forms: an object with the tag first, one with the content
first, and an array of the two. If the content stands for a value that leaves one container to
spare, each form is accepted exactly if the tag names a kind and the content alone is read as a
declaration of that kind, and this declaration is the result. Members of other names change
nothing about the objects, also where they are rejected. -/
theorem read_forms {tag content : MemberText} (tag_name : tag.name = tagName)
    {word : Option String} (tag_doc : tag.doc = .str word)
    (content_name : content.name = contentName)
    (nests : content.doc.depth + 1 ≤ Decoder.maxNesting) (spelled : none ∉ content.doc.strings)
    (finite : Number.overflow ∉ content.doc.numbers) :
    (∀ form ∈ [closedText [tag, content], closedText [content, tag],
        arrayText [tag.value, content.value]], ∀ decl,
      Kind.typeDecl.read form = .ok decl ↔
        ∃ kind : DeclKind, word = some kind.word ∧ kind.readAlone content.value = .ok decl) ∧
    ∀ first second third : List MemberText,
      (∀ member ∈ first ++ second ++ third, member.name ∉ [tagName, contentName]) →
      ∀ pair ∈ [(tag, content), (content, tag)],
        Kind.typeDecl.read (closedText (first ++ pair.1 :: second ++ pair.2 :: third)) =
          Kind.typeDecl.read (closedText [pair.1, pair.2]) := by
  let room := Decoder.maxNesting - 1
  -- Needed for the content that is set aside; the other forms skip what they do not read.
  have stands : content.doc.meaningful room = true :=
    content.doc.meaningful_of_wellFormed (Document.wellFormed_of_complete content.complete)
      (Nat.le_sub_one_of_lt nests) spelled finite
  have alone : ∀ kind decl, DeclKind.readAlone kind content.value = .ok decl ↔
      kind.readDecl room content.doc = .ok decl :=
    fun kind decl => DeclKind.readAlone_eq_ok_iff content.complete nests
  constructor
  · intro form form_mem decl
    simp only [alone]
    simp only [List.mem_cons, List.not_mem_nil, or_false] at form_mem
    rcases form_mem with rfl | rfl | rfl
    · rw [read_closedText, List.map_cons, List.map_cons, List.map_nil,
        Found.addAll_tag_content tag_name content_name, Found.complete_eq_ok_iff, tag_doc]
      simp only [DeclKind.read_str_eq_ok_iff, readNow_eq_ok_iff, room]
    · rw [read_closedText, List.map_cons, List.map_cons, List.map_nil,
        Found.addAll_content_tag tag_name content_name stands, Found.complete_eq_ok_iff, tag_doc]
      simp only [DeclKind.read_str_eq_ok_iff, room]
    · rw [read_arrayText, ofItems_pair_eq_ok_iff, tag_doc]
      simp only [DeclKind.readItem_str_eq_ok_iff, readNow_eq_ok_iff, room]
  · intro first second third others pair pair_mem
    rw [read_closedText, read_closedText, Found.addAll_between pair.1 pair.2 others]

/-- An enum with a value in positional form and a member to skip, before its tag and next to another
member; and the same in an array. -/
theorem read_forms_enum :
    let decl := TypeDecl.enum ⟨"E", [], [⟨"A", -1, [], {}⟩], {}⟩
    Kind.typeDecl.read ("\x7b\"decl\":\x7b\"fields\":[[\"A\",-1]],\"x\":[1.5],\"name\":\"E\"\x7d" ++
        ",\"note\":[[\"\\ud800\"]],\"kind\":\"enum\"\x7d") = .ok decl ∧
      Kind.typeDecl.read ("[\"enum\"," ++
        "\x7b\"fields\":[[\"A\",-1]],\"x\":[1.5],\"name\":\"E\"\x7d]") = .ok decl := by
  intro decl
  let key (name : String) : Document.KeyText :=
    ⟨name, [], name.toList.flatMap Literal.escape, by simp, Literal.spelling_flatMap_escape _⟩
  let tag : MemberText :=
    ⟨key "kind", [], by simp, (Json.str "enum").render, by rw [Document.ofText_render]⟩
  let content : MemberText := ⟨key "decl", [], by simp,
    "\x7b\"fields\":[[\"A\",-1]],\"x\":[1.5],\"name\":\"E\"\x7d", by decide +kernel⟩
  let note : MemberText := ⟨key "note", [], by simp, "[[\"\\ud800\"]]", by decide +kernel⟩
  have tag_doc : tag.doc = .str (some "enum") :=
    congrArg Document.root (Document.ofText_render (.str "enum"))
  have tag_name : tag.name = tagName := rfl
  have content_name : content.name = contentName := rfl
  have forms := read_forms tag_name tag_doc content_name (by decide +kernel) (by decide +kernel)
    (by decide +kernel)
  have alone : DeclKind.enum.readAlone content.value = .ok decl := by decide +kernel
  constructor
  · have read_eq := (forms.1 (closedText [content, tag]) (by simp) decl).mpr ⟨.enum, rfl, alone⟩
    have others := forms.2 [] [note] [] (by decide) (content, tag) (by simp)
    have text_eq : closedText ([] ++ content :: [note] ++ tag :: []) =
        "\x7b\"decl\":\x7b\"fields\":[[\"A\",-1]],\"x\":[1.5],\"name\":\"E\"\x7d" ++
          ",\"note\":[[\"\\ud800\"]],\"kind\":\"enum\"\x7d" := by decide +kernel
    rw [← text_eq]
    exact others.trans read_eq
  · have text_eq : arrayText [tag.value, content.value] = "[\"enum\"," ++
        "\x7b\"fields\":[[\"A\",-1]],\"x\":[1.5],\"name\":\"E\"\x7d]" := by decide +kernel
    rw [← text_eq]
    exact (forms.1 _ (by simp) decl).mpr ⟨.enum, rfl, alone⟩

end TypeDecl

end ProtoSchema
