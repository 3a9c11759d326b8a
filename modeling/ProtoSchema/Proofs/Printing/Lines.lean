import ProtoSchema.Proofs.Printing.FlatText
import ProtoSchema.Proofs.Printing.Legible
import ProtoSchema.Proofs.Text.UniqueReading

/-!
# The lines of the printed form

Every item of a file consists of whole lines, so the printed form is a sequence of lines and nothing
else, and equal forms have equal lines: `Item.lines_eq_of_renderAll_eq`. This holds of all files.
In a legible file it is also known which lines these are. An item is a comment, one line for each of
its lines, and below it one more line, `Item.commented`. That line says what the item is, and it can
be found without knowing the depth of the item, `Item.subject?`.
-/

namespace ProtoSchema

namespace Text

/-- Lines one after the other, each with its end. -/
def unlines (lines : List (List Char)) : List Char :=
  lines.flatMap fun line => line ++ ['\n']

theorem unlines_append (lines others : List (List Char)) :
    unlines (lines ++ others) = unlines lines ++ unlines others :=
  List.flatMap_append

/-- Behind the last line an empty one would start. -/
theorem unlines_eq_intercalate (lines : List (List Char)) :
    unlines lines = ['\n'].intercalate (lines ++ [[]]) := by
  induction lines with
  | nil => rfl
  | cons line lines ih =>
      rw [List.cons_append, List.intercalate_cons_of_ne_nil (by simp), ← ih]
      rfl

theorem splitOn_unlines {lines : List (List Char)} (whole : ∀ line ∈ lines, '\n' ∉ line) :
    (unlines lines).splitOn '\n' = lines ++ [[]] := by
  rw [unlines_eq_intercalate]
  refine List.splitOn_intercalate '\n' ?_ (by simp)
  rw [List.forall_mem_append]
  exact ⟨whole, by simp⟩

/-- Lines can be read back. -/
theorem unlines_injective {lines lines' : List (List Char)} (whole : ∀ line ∈ lines, '\n' ∉ line)
    (whole' : ∀ line ∈ lines', '\n' ∉ line) (unlines_eq : unlines lines = unlines lines') :
    lines = lines' := by
  have split_eq := splitOn_unlines whole
  rw [unlines_eq, splitOn_unlines whole'] at split_eq
  exact (List.append_cancel_right split_eq).symm

/-- Whole lines are padded one by one. -/
theorem padLines_unlines {lines : List (List Char)} (whole : ∀ line ∈ lines, '\n' ∉ line)
    (pad : List Char) :
    padLines '\n' pad (unlines lines) = unlines (lines.map (padLine pad)) := by
  rw [padLines, splitOn_unlines whole, List.map_append, unlines_eq_intercalate]
  rfl

/-- A text that is empty or ends with the end of a line consists of lines. -/
theorem unlines_dropLast_splitOn {content : List Char}
    (ends : ∀ char ∈ content.getLast?, char = '\n') :
    unlines (content.splitOn '\n').dropLast = content := by
  rcases List.eq_nil_or_concat content with rfl | ⟨front, last, rfl⟩
  · rfl
  · have last_eq : last = '\n' := ends last (by simp)
    subst last_eq
    have split_eq : (front ++ ['\n']).splitOn '\n' = front.splitOn '\n' ++ [[]] :=
      List.splitOn_append_cons_self front []
    rw [List.concat_eq_append, split_eq, List.dropLast_concat, unlines_eq_intercalate, ← split_eq,
      List.intercalate_splitOn]

end Text

namespace Item

/-- The text of the item is empty or ends with the end of a line. -/
def EndsLine (item : Item) : Prop :=
  ∀ char ∈ item.text.toList.getLast?, char = '\n'

/-- The lines of an item, indented. -/
def lines (width : Nat) (item : Item) : List (List Char) :=
  (item.text.toList.splitOn '\n').dropLast.map
    (Text.padLine (List.replicate (width * item.depth) ' '))

theorem newline_notMem_of_mem_lines {width : Nat} {item : Item} {line : List Char}
    (line_mem : line ∈ item.lines width) : '\n' ∉ line := by
  rcases List.mem_map.mp line_mem with ⟨part, part_mem, rfl⟩
  have part_whole := Text.notMem_of_mem_splitOn (List.dropLast_subset _ part_mem)
  cases part with
  | nil => simp
  | cons char part => simpa [List.mem_replicate] using part_whole

theorem toList_render {item : Item} (ends : item.EndsLine) (width : Nat) :
    (item.render width).toList = Text.unlines (item.lines width) := by
  have whole : ∀ line ∈ (item.text.toList.splitOn '\n').dropLast, '\n' ∉ line :=
    fun line line_mem => Text.notMem_of_mem_splitOn (List.dropLast_subset _ line_mem)
  rw [lines, ← Text.padLines_unlines whole, Text.unlines_dropLast_splitOn ends, render,
    String.toList_ofList]

theorem toList_renderAll {items : List Item} (ends : ∀ item ∈ items, item.EndsLine) (width : Nat) :
    (renderAll width items).toList = Text.unlines (items.flatMap (lines width)) := by
  induction items with
  | nil =>
      rw [renderAll_nil]
      rfl
  | cons item items ih =>
      rw [List.forall_mem_cons] at ends
      rw [renderAll_cons, String.toList_append, toList_render ends.1, ih ends.2,
        List.flatMap_cons, Text.unlines_append]

/-- Items that are rendered alike have the same lines. -/
theorem lines_eq_of_renderAll_eq {items items' : List Item} {width : Nat}
    (ends : ∀ item ∈ items, item.EndsLine) (ends' : ∀ item ∈ items', item.EndsLine)
    (render_eq : renderAll width items = renderAll width items') :
    items.flatMap (lines width) = items'.flatMap (lines width) := by
  have whole : ∀ items : List Item, ∀ line ∈ items.flatMap (lines width), '\n' ∉ line := by
    intro items line line_mem
    rcases List.mem_flatMap.mp line_mem with ⟨item, -, line_mem⟩
    exact newline_notMem_of_mem_lines line_mem
  apply Text.unlines_injective (whole items) (whole items')
  rw [← toList_renderAll ends, ← toList_renderAll ends', render_eq]

theorem endsLine_of_getLast? {item : Item} (last_eq : item.text.toList.getLast? = some '\n') :
    item.EndsLine := by
  intro char char_mem
  rw [last_eq, Option.mem_some] at char_mem
  exact char_mem.symm

/-- A text whose tail ends with the end of a line does so itself. -/
theorem endsLine_append (depth : Nat) (content : String) {tail : String}
    (last_eq : tail.toList.getLast? = some '\n') : EndsLine ⟨depth, content ++ tail⟩ := by
  apply endsLine_of_getLast?
  rw [String.toList_append, List.getLast?_append, last_eq, Option.some_or]

theorem endsLine_close (depth : Nat) : (close depth).EndsLine :=
  endsLine_of_getLast? (show "\x7d\n".toList.getLast? = some '\n' from rfl)

theorem endsLine_blank : blank.EndsLine :=
  endsLine_of_getLast? (show "\n".toList.getLast? = some '\n' from rfl)

end Item

theorem Comment.endsLine_flat (comment : Comment) : Item.EndsLine ⟨0, comment.flat⟩ := by
  rcases List.eq_nil_or_concat comment.lines with lines_eq | ⟨lines, line, lines_eq⟩
  · intro char char_mem
    simp [Comment.flat, lines_eq] at char_mem
  · have flat_eq : comment.flat =
        String.join (lines.map fun line => "// " ++ line ++ "\n") ++ ("// " ++ line) ++ "\n" := by
      simp [Comment.flat, lines_eq, String.append_assoc]
    rw [flat_eq]
    exact Item.endsLine_append 0 _ rfl

theorem Setting.endsLine_item (depth : Nat) (setting : Setting) : (setting.item depth).EndsLine :=
  Item.endsLine_append depth _ rfl

theorem OneOf.endsLine_items (depth : Nat) (oneof : OneOf) :
    ∀ item ∈ oneof.items depth, item.EndsLine := by
  simp only [OneOf.items, List.forall_mem_append, List.forall_mem_singleton, List.forall_mem_map]
  exact ⟨⟨Item.endsLine_append _ _ rfl, fun _ _ => Item.endsLine_append _ _ rfl⟩,
    Item.endsLine_close depth⟩

theorem Enumeration.endsLine_items (depth : Nat) (enumeration : Enumeration) :
    ∀ item ∈ enumeration.items depth, item.EndsLine := by
  simp only [Enumeration.items, List.forall_mem_append, List.forall_mem_singleton,
    List.forall_mem_map]
  exact ⟨⟨⟨Item.endsLine_append _ _ rfl, fun setting _ => setting.endsLine_item _⟩,
    fun _ _ => Item.endsLine_append _ _ rfl⟩, Item.endsLine_close depth⟩

theorem Service.endsLine_items (depth : Nat) (service : Service) :
    ∀ item ∈ service.items depth, item.EndsLine := by
  simp only [Service.items, List.forall_mem_append, List.forall_mem_singleton, List.forall_mem_map]
  exact ⟨⟨⟨Item.endsLine_append _ _ rfl, fun setting _ => setting.endsLine_item _⟩,
    fun _ _ => Item.endsLine_append _ _ rfl⟩, Item.endsLine_close depth⟩

mutual

theorem Message.endsLine_items (depth : Nat) (message : Message) :
    ∀ item ∈ message.items depth, item.EndsLine := by
  rcases message with ⟨name, comment, fields, enums, messages, oneofs⟩
  simp only [Message.items, List.forall_mem_append, List.forall_mem_singleton, List.forall_mem_map,
    List.forall_mem_flatMap]
  refine ⟨⟨⟨⟨⟨Item.endsLine_append _ _ rfl, ?_⟩, ?_⟩, ?_⟩, ?_⟩, Item.endsLine_close depth⟩
  · exact fun _ _ => Item.endsLine_append _ _ rfl
  · exact fun enumeration _ => enumeration.endsLine_items (depth + 1)
  · exact Message.endsLine_itemsOfAll (depth + 1) messages
  · exact fun oneof _ => oneof.endsLine_items (depth + 1)

theorem Message.endsLine_itemsOfAll (depth : Nat) (messages : List Message) :
    ∀ item ∈ Message.itemsOfAll depth messages, item.EndsLine := by
  cases messages with
  | nil => simp [Message.itemsOfAll]
  | cons first rest =>
      rw [Message.itemsOfAll, List.forall_mem_append]
      exact ⟨Message.endsLine_items depth first, Message.endsLine_itemsOfAll depth rest⟩

end

theorem File.endsLine_items (file : File) : ∀ item ∈ file.items, item.EndsLine := by
  simp only [File.items, List.forall_mem_append, List.forall_mem_cons, List.forall_mem_map,
    List.forall_mem_flatMap, List.not_mem_nil, false_implies, implies_true, and_true]
  refine ⟨⟨⟨⟨⟨⟨⟨?_, ?_⟩, ?_⟩, ?_⟩, ?_⟩, ?_⟩, ?_⟩, ?_⟩
  · exact file.comment.endsLine_flat
  · exact Item.endsLine_append 0 _ rfl
  · exact fun _ _ => Item.endsLine_append 0 _ rfl
  · split
    · simp
    · simp only [List.forall_mem_singleton]
      exact Item.endsLine_append 0 _ rfl
  · exact fun setting _ => setting.endsLine_item 0
  · exact fun message _ => ⟨Item.endsLine_blank, message.endsLine_items 0⟩
  · exact fun enumeration _ => ⟨Item.endsLine_blank, enumeration.endsLine_items 0⟩
  · exact fun service _ => ⟨Item.endsLine_blank, service.endsLine_items 0⟩

namespace Item

/-- The indentation inside of `depth` blocks. -/
def pad (width depth : Nat) : List Char :=
  List.replicate (width * depth) ' '

/-- The lines of a comment, and below them one more. -/
def commented (pad : List Char) (comment : Comment) (body : List Char) : List (List Char) :=
  comment.lines.map (fun line => pad ++ '/' :: '/' :: ' ' :: line.toList) ++ [pad ++ body]

theorem lines_of_toList {item : Item} {contents : List (List Char)}
    (text_eq : item.text.toList = Text.unlines contents)
    (whole : ∀ content ∈ contents, '\n' ∉ content) (width : Nat) :
    item.lines width = contents.map (Text.padLine (pad width item.depth)) := by
  rw [lines, text_eq, Text.splitOn_unlines whole, List.dropLast_concat]
  rfl

end Item

theorem Comment.toList_flat (comment : Comment) :
    comment.flat.toList =
      Text.unlines (comment.lines.map fun line => '/' :: '/' :: ' ' :: line.toList) := by
  simp [Comment.flat, Text.unlines, List.flatMap_map]

theorem Comment.newline_notMem {comment : Comment} (legible : comment.legible = true) :
    ∀ content ∈ comment.lines.map fun line => '/' :: '/' :: ' ' :: line.toList,
      '\n' ∉ content := by
  simp only [Comment.legible, List.all_eq_true, Bool.not_eq_true', List.contains_eq_mem,
    decide_eq_false_iff_not] at legible
  simpa using legible

/-- An item is shown as its comment and one more line, if its text is made of them. -/
theorem Item.lines_commented {item : Item} {comment : Comment} {body : List Char}
    (text_eq : item.text.toList = comment.flat.toList ++ (body ++ ['\n']))
    (legible : comment.legible = true) (visible : body ≠ []) (single : '\n' ∉ body) (width : Nat) :
    item.lines width = commented (pad width item.depth) comment body := by
  have whole := comment.newline_notMem legible
  have unlines_eq : item.text.toList = Text.unlines
      ((comment.lines.map fun line => '/' :: '/' :: ' ' :: line.toList) ++ [body]) := by
    rw [text_eq, comment.toList_flat, Text.unlines_append]
    simp [Text.unlines]
  rw [lines_of_toList unlines_eq, List.map_append, List.map_map, List.map_singleton,
    Text.padLine, if_neg visible]
  · rfl
  · rw [List.forall_mem_append, List.forall_mem_singleton]
    exact ⟨whole, single⟩

namespace Item

/-- A line that can stand below a comment at any depth: it starts with neither a blank nor a
slash. -/
def Stands (body : List Char) : Prop :=
  body.head? ≠ some ' ' ∧ body.head? ≠ some '/'

instance : DecidablePred Stands :=
  fun _ => inferInstanceAs (Decidable (_ ∧ _))

/-- A comment ends where a line does not start like one. -/
theorem commented_unique {pad body body' : List Char} {comment comment' : Comment}
    {rest rest' : List (List Char)} (stands : Stands body) (stands' : Stands body')
    (lines_eq : commented pad comment body ++ rest = commented pad comment' body' ++ rest') :
    comment = comment' ∧ body = body' ∧ rest = rest' := by
  rcases comment with ⟨lines⟩
  rcases comment' with ⟨lines'⟩
  induction lines generalizing lines' with
  | nil =>
      cases lines' with
      | nil => simpa [commented] using lines_eq
      | cons line' lines' =>
          have body_eq : body = '/' :: '/' :: ' ' :: line'.toList := by
            simpa [commented] using (List.cons.inj lines_eq).1
          rw [body_eq] at stands
          exact absurd rfl stands.2
  | cons line lines ih =>
      cases lines' with
      | nil =>
          have body_eq : '/' :: '/' :: ' ' :: line.toList = body' := by
            simpa [commented] using (List.cons.inj lines_eq).1
          rw [← body_eq] at stands'
          exact absurd rfl stands'.2
      | cons line' lines' =>
          rcases List.cons.inj lines_eq with ⟨line_eq, more_eq⟩
          have line_eq : line = line' := by simpa [String.toList_inj] using line_eq
          rcases ih lines' more_eq with ⟨comment_eq, body_eq, rest_eq⟩
          exact ⟨by rw [line_eq, Comment.mk.inj comment_eq], body_eq, rest_eq⟩

/-- Statements below comments are told apart if the statements alone are. -/
theorem delimits_commented {α : Type} {valid : α → Prop} {code : α → List (List Char)}
    {pad : List Char} {comment : α → Comment} {body : α → List Char}
    (code_eq : ∀ value, valid value → code value = commented pad (comment value) (body value))
    (stands : ∀ value, valid value → Stands (body value))
    (unique : ∀ value value', valid value → valid value' → comment value = comment value' →
      body value = body value' → value = value') : Text.Delimits valid code := by
  constructor
  intro value value' rest rest' isValid isValid' codes_eq
  rw [code_eq value isValid, code_eq value' isValid'] at codes_eq
  rcases commented_unique (stands value isValid) (stands value' isValid') codes_eq with
    ⟨comment_eq, body_eq, rest_eq⟩
  exact ⟨unique value value' isValid isValid' comment_eq body_eq, rest_eq⟩

/-- The first line that does not belong to a comment, without its indentation. -/
def subject? (lines : List (List Char)) : Option (List Char) :=
  (lines.map (List.dropWhile (· == ' '))).find? fun line => line.head? != some '/'

theorem dropWhile_pad (width depth : Nat) {body : List Char} (visible : body.head? ≠ some ' ') :
    (pad width depth ++ body).dropWhile (· == ' ') = body := by
  rw [List.dropWhile_append_of_pos (by simp [pad, List.mem_replicate])]
  cases body with
  | nil => rfl
  | cons first body =>
      have first_ne : first ≠ ' ' := by simpa using visible
      simp [first_ne]

theorem subject?_commented (width depth : Nat) (comment : Comment) {body : List Char}
    (stands : Stands body) (rest : List (List Char)) :
    subject? (commented (pad width depth) comment body ++ rest) = some body := by
  rcases comment with ⟨lines⟩
  induction lines with
  | nil => simp [subject?, commented, dropWhile_pad width depth stands.1, stands.2]
  | cons line lines ih =>
      have comment_eq := dropWhile_pad width depth
        (show ('/' :: '/' :: ' ' :: line.toList).head? ≠ some ' ' by simp)
      have tail_eq : subject? (commented (pad width depth) ⟨line :: lines⟩ body ++ rest) =
          subject? (commented (pad width depth) ⟨lines⟩ body ++ rest) := by
        simp [subject?, commented, comment_eq]
      rw [tail_eq, ih]

/-- The first line that does not belong to a comment is of a certain form. -/
def Opens (form : List Char → Prop) (lines : List (List Char)) : Prop :=
  ∃ body, subject? lines = some body ∧ form body

theorem opens_iff {form : List Char → Prop} {width depth : Nat} {comment : Comment}
    {lines : List (List Char)} {body : List Char}
    (lines_eq : lines = commented (pad width depth) comment body) (stands : Stands body)
    (rest : List (List Char)) : Opens form (lines ++ rest) ↔ form body := by
  simp [Opens, lines_eq, subject?_commented width depth comment stands]

end Item

end ProtoSchema
