import ProtoSchema.Json.Scan
import ProtoSchema.Json.Value
import ProtoSchema.Proofs.Json.Numerals
import ProtoSchema.Proofs.Json.Spelling

/-!
# Reading what was written

The text of a JSON value is found to hold the document of that value, `Json.toDoc`, and nothing
more. An integer of any size has a document; only whether that document stands for an integer
depends on its size.

Each scanning function is bounded, and the induction is on that bound. It must reach twice the
length of the text of a value, and one more for items and members, whose scanning takes a step
without consuming anything.
-/

namespace ProtoSchema

namespace Json

mutual

/-- The document that the text of a value holds. -/
def toDoc : Json → Doc
  | null => .null
  | bool value => .bool value
  | int value => .number (Numeral.ofInt value).number
  | str value => .str (some value)
  | arr items => .arr (itemDocs items) .closed
  | obj members => .obj (memberDocs members) .closed

/-- The documents of items. -/
def itemDocs : List Json → List Doc
  | [] => []
  | item :: rest => item.toDoc :: itemDocs rest

/-- The documents of members under their names. -/
def memberDocs : List (String × Json) → List (Option String × Doc)
  | [] => []
  | (name, value) :: rest => (some name, value.toDoc) :: memberDocs rest

end

end Json

namespace Doc

theorem skipBlanks_cons {char : Char} (visible : isBlank char = false) (rest : List Char) :
    skipBlanks (char :: rest) = char :: rest := by
  simp [skipBlanks, visible]

theorem ne_of_numeric {char : Char} (numeric : char = '-' ∨ char.isDigit = true) {other : Char}
    (notSign : other ≠ '-') (notDigit : other.isDigit = false) : char ≠ other := by
  rintro rfl
  rcases numeric with sign | digit
  · exact notSign sign
  · rw [digit] at notDigit
    cases notDigit

theorem isBlank_of_numeric {char : Char} (numeric : char = '-' ∨ char.isDigit = true) :
    isBlank char = false := by
  have notSpace : char ≠ ' ' := ne_of_numeric numeric (by decide) (by decide)
  have notTab : char ≠ '\t' := ne_of_numeric numeric (by decide) (by decide)
  have notFeed : char ≠ '\n' := ne_of_numeric numeric (by decide) (by decide)
  have notReturn : char ≠ '\r' := ne_of_numeric numeric (by decide) (by decide)
  simp [isBlank, notSpace, notTab, notFeed, notReturn]

theorem scan_number_head {char : Char} (numeric : char = '-' ∨ char.isDigit = true) (bound : Nat)
    (rest : List Char) : scan (bound + 1) (char :: rest) = scanNumber (char :: rest) := by
  have accepted : (char == '-' || char.isDigit) = true := by
    rcases numeric with sign | digit
    · simp [sign]
    · simp [digit]
  rw [scan, skipBlanks_cons (isBlank_of_numeric numeric)]
  split
  case h_8 first rest' _ _ _ _ _ _ text_eq =>
    simp only [List.cons.injEq] at text_eq
    rw [← text_eq.1, ← text_eq.2, if_pos accepted]
  case h_1 text_eq => simp at text_eq
  all_goals
    rename_i text_eq
    simp only [List.cons.injEq] at text_eq
    exact absurd text_eq.1 (ne_of_numeric numeric (by decide) (by decide))

theorem scan_int (value : Int) {rest : List Char} (ends : Numeral.Ends rest) (bound : Nat) :
    scan (bound + 1) ((Json.int value).chars ++ rest) =
      ((Json.int value).toDoc, some rest) := by
  have number_eq := Numeral.scan_repr value ends
  rcases Numeral.repr_eq_cons value with ⟨char, more, repr_eq, numeric⟩
  rw [Json.chars, repr_eq, List.cons_append, scan_number_head numeric, ← List.cons_append,
    ← repr_eq, scanNumber, number_eq]
  rfl

theorem scan_str (value : String) (rest : List Char) (bound : Nat) :
    scan (bound + 1) ((Json.str value).chars ++ rest) =
      ((Json.str value).toDoc, some rest) := by
  rcases Literal.scan_write value rest with ⟨pieces, scan_eq, text_eq⟩
  rw [Json.chars, Literal.write, List.cons_append, List.cons_append, List.append_assoc,
    List.singleton_append, scan, skipBlanks_cons (by decide)]
  simp only [scanString, scan_eq, text_eq, Json.toDoc]

/-- The text of a value starts with a character that is neither blank nor closes an array. -/
theorem chars_eq_cons (json : Json) :
    ∃ char more, json.chars = char :: more ∧ isBlank char = false ∧ char ≠ ']' := by
  cases json with
  | null => exact ⟨'n', ['u', 'l', 'l'], rfl, by decide, by decide⟩
  | bool value =>
      cases value
      · exact ⟨'f', ['a', 'l', 's', 'e'], rfl, by decide, by decide⟩
      · exact ⟨'t', ['r', 'u', 'e'], rfl, by decide, by decide⟩
  | int value =>
      rcases Numeral.repr_eq_cons value with ⟨char, more, repr_eq, numeric⟩
      exact ⟨char, more, repr_eq, isBlank_of_numeric numeric,
        ne_of_numeric numeric (by decide) (by decide)⟩
  | str value => exact ⟨'"', _, rfl, by decide, by decide⟩
  | arr items => exact ⟨'[', _, rfl, by decide, by decide⟩
  | obj members => exact ⟨'\x7b', _, rfl, by decide, by decide⟩

theorem itemChars_cons (item : Json) (rest : List Json) :
    Json.itemChars (item :: rest) =
      item.chars ++ (if rest = [] then [] else ',' :: Json.itemChars rest) := by
  cases rest <;> simp [Json.itemChars]

theorem memberChars_cons (name : String) (value : Json) (rest : List (String × Json)) :
    Json.memberChars ((name, value) :: rest) =
      Literal.write name.toList ++ ':' :: (value.chars ++
        (if rest = [] then [] else ',' :: Json.memberChars rest)) := by
  cases rest <;> simp [Json.memberChars]

/-- An array whose text goes on with anything but its end has items. -/
theorem scan_arr {text inside more : List Char} {char : Char}
    (text_eq : skipBlanks text = '[' :: inside) (inside_eq : skipBlanks inside = char :: more)
    (notClosing : char ≠ ']') {bound : Nat} {items : List Doc} {ending : Ending}
    {rest : Option (List Char)}
    (items_eq : scanItems bound (char :: more) = (items, ending, rest)) :
    scan (bound + 1) text = (.arr items ending, rest) := by
  rw [scan, text_eq]
  simp only [inside_eq]
  split
  · rename_i closing_eq
    exact absurd (List.cons.inj closing_eq).1 notClosing
  · rw [items_eq]

/-- An object whose text goes on with anything but its end has members. -/
theorem scan_obj {text inside more : List Char} {char : Char}
    (text_eq : skipBlanks text = '\x7b' :: inside) (inside_eq : skipBlanks inside = char :: more)
    (notClosing : char ≠ '\x7d') {bound : Nat} {members : List (Option String × Doc)}
    {ending : Ending} {rest : Option (List Char)}
    (members_eq : scanMembers bound (char :: more) = (members, ending, rest)) :
    scan (bound + 1) text = (.obj members ending, rest) := by
  rw [scan, text_eq]
  simp only [inside_eq]
  split
  · rename_i closing_eq
    exact absurd (List.cons.inj closing_eq).1 notClosing
  · rw [members_eq]

theorem scanItems_last {text after rest : List Char} {bound : Nat} {item : Doc}
    (item_eq : scan bound text = (item, some after)) (after_eq : skipBlanks after = ']' :: rest) :
    scanItems (bound + 1) text = ([item], .closed, some rest) := by
  rw [scanItems, item_eq]
  simp only [after_eq]

theorem scanItems_comma {text after rest : List Char} {bound : Nat} {item : Doc}
    {items : List Doc} {ending : Ending} {left : Option (List Char)}
    (item_eq : scan bound text = (item, some after)) (after_eq : skipBlanks after = ',' :: rest)
    (items_eq : scanItems bound rest = (items, ending, left)) :
    scanItems (bound + 1) text = (item :: items, ending, left) := by
  rw [scanItems, item_eq]
  simp only [after_eq, items_eq]

/-- A written name is found at the front of a text. -/
theorem skipBlanks_write (name : String) (text : List Char) :
    ∃ inside pieces, skipBlanks (Literal.write name.toList ++ text) = '"' :: inside ∧
      Literal.scan inside = some (pieces, text) ∧ Literal.text? pieces = some name := by
  rcases Literal.scan_write name text with ⟨pieces, scan_eq, text_eq⟩
  refine ⟨_, pieces, ?_, scan_eq, text_eq⟩
  rw [Literal.write, List.cons_append, List.cons_append, List.append_assoc,
    List.singleton_append, skipBlanks_cons (by decide)]

section

variable {text inside named valueText after rest : List Char} {pieces : List Literal.Piece}
  {bound : Nat} {value : Doc}
  (text_eq : skipBlanks text = '"' :: inside)
  (name_eq : Literal.scan inside = some (pieces, named))
  (named_eq : skipBlanks named = ':' :: valueText)
  (value_eq : scan bound valueText = (value, some after))

include text_eq name_eq named_eq value_eq

theorem scanMembers_last (after_eq : skipBlanks after = '\x7d' :: rest) :
    scanMembers (bound + 1) text = ([(Literal.text? pieces, value)], .closed, some rest) := by
  rw [scanMembers, text_eq]
  simp only [name_eq, named_eq, value_eq, after_eq]

theorem scanMembers_comma (after_eq : skipBlanks after = ',' :: rest)
    {members : List (Option String × Doc)} {ending : Ending} {left : Option (List Char)}
    (members_eq : scanMembers bound rest = (members, ending, left)) :
    scanMembers (bound + 1) text = ((Literal.text? pieces, value) :: members, ending, left) := by
  rw [scanMembers, text_eq]
  simp only [name_eq, named_eq, value_eq, after_eq, members_eq]

end

/-- What scanning under a bound finds in written text: every value, items and members whose text is
short enough for the bound. -/
structure ScansWritten (bound : Nat) : Prop where
  value : ∀ (json : Json) {rest : List Char}, 2 * json.chars.length ≤ bound → Numeral.Ends rest →
    scan bound (json.chars ++ rest) = (json.toDoc, some rest)
  items : ∀ (item : Json) (more : List Json) {rest : List Char},
    2 * (Json.itemChars (item :: more)).length + 1 ≤ bound →
    scanItems bound (Json.itemChars (item :: more) ++ ']' :: rest) =
      (Json.itemDocs (item :: more), .closed, some rest)
  members : ∀ (member : String × Json) (more : List (String × Json)) {rest : List Char},
    2 * (Json.memberChars (member :: more)).length + 1 ≤ bound →
    scanMembers bound (Json.memberChars (member :: more) ++ '\x7d' :: rest) =
      (Json.memberDocs (member :: more), .closed, some rest)

namespace ScansWritten

theorem zero : ScansWritten 0 where
  value json rest enough _ := by
    rcases chars_eq_cons json with ⟨char, more, chars_eq, -⟩
    simp [chars_eq] at enough
  items _ _ _ enough := by omega
  members _ _ _ enough := by omega

variable {bound : Nat} (scans : ScansWritten bound)

include scans

theorem scan_succ (json : Json) {rest : List Char} (enough : 2 * json.chars.length ≤ bound + 1)
    (ends : Numeral.Ends rest) :
    scan (bound + 1) (json.chars ++ rest) = (json.toDoc, some rest) := by
  match json with
  | .null => rfl
  | .bool true => rfl
  | .bool false => rfl
  | .int value => exact scan_int value ends bound
  | .str value => exact scan_str value rest bound
  | .arr [] => rfl
  | .arr (item :: more) =>
      rcases chars_eq_cons item with ⟨char, others, chars_eq, visible, notClosing⟩
      simp only [Json.chars, List.length_append, List.length_cons] at enough
      have items_eq : scanItems bound (Json.itemChars (item :: more) ++ ']' :: rest) = _ :=
        scans.items item more (by omega)
      simp only [Json.chars, List.cons_append, List.append_assoc, List.nil_append]
      rw [itemChars_cons, chars_eq] at items_eq ⊢
      exact scan_arr (skipBlanks_cons (by decide) _) (skipBlanks_cons visible _) notClosing items_eq
  | .obj [] => rfl
  | .obj ((name, value) :: more) =>
      simp only [Json.chars, List.length_append, List.length_cons] at enough
      have members_eq : scanMembers bound (Json.memberChars ((name, value) :: more) ++
          '\x7d' :: rest) = _ := scans.members (name, value) more (by omega)
      simp only [Json.chars, List.cons_append, List.append_assoc, List.nil_append]
      rw [memberChars_cons, Literal.write] at members_eq ⊢
      exact scan_obj (skipBlanks_cons (by decide) _) (skipBlanks_cons (by decide) _) (by decide)
        members_eq

theorem scanItems_succ (item : Json) (more : List Json) {rest : List Char}
    (enough : 2 * (Json.itemChars (item :: more)).length + 1 ≤ bound + 1) :
    scanItems (bound + 1) (Json.itemChars (item :: more) ++ ']' :: rest) =
      (Json.itemDocs (item :: more), .closed, some rest) := by
  cases more with
  | nil =>
      rw [Json.itemChars] at enough ⊢
      exact scanItems_last (scans.value item (by omega) (Numeral.ends_cons rest (by decide)))
        (skipBlanks_cons (by decide) rest)
  | cons next others =>
      simp only [Json.itemChars, List.length_append, List.length_cons] at enough
      simp only [Json.itemChars, List.append_assoc, List.cons_append]
      exact scanItems_comma (scans.value item (by omega) (Numeral.ends_cons _ (by decide)))
        (skipBlanks_cons (by decide) _) (scans.items next others (by omega))

theorem scanMembers_succ (member : String × Json) (more : List (String × Json)) {rest : List Char}
    (enough : 2 * (Json.memberChars (member :: more)).length + 1 ≤ bound + 1) :
    scanMembers (bound + 1) (Json.memberChars (member :: more) ++ '\x7d' :: rest) =
      (Json.memberDocs (member :: more), .closed, some rest) := by
  rcases member with ⟨name, value⟩
  cases more with
  | nil =>
      simp only [Json.memberChars, List.length_append, List.length_cons] at enough
      simp only [Json.memberChars, List.append_assoc, List.cons_append]
      rcases skipBlanks_write name (':' :: (value.chars ++ '\x7d' :: rest)) with
        ⟨inside, pieces, text_eq, scan_eq, name_eq⟩
      rw [scanMembers_last text_eq scan_eq (skipBlanks_cons (by decide) _)
        (scans.value value (by omega) (Numeral.ends_cons rest (by decide)))
        (skipBlanks_cons (by decide) rest), name_eq]
      rfl
  | cons next others =>
      simp only [Json.memberChars, List.length_append, List.length_cons] at enough
      simp only [Json.memberChars, List.append_assoc, List.cons_append]
      rcases skipBlanks_write name (':' :: (value.chars ++ ',' ::
        (Json.memberChars (next :: others) ++ '\x7d' :: rest))) with
        ⟨inside, pieces, text_eq, scan_eq, name_eq⟩
      rw [scanMembers_comma text_eq scan_eq (skipBlanks_cons (by decide) _)
        (scans.value value (by omega) (Numeral.ends_cons _ (by decide)))
        (skipBlanks_cons (by decide) _) (scans.members next others (by omega)), name_eq]
      rfl

end ScansWritten

theorem scansWritten (bound : Nat) : ScansWritten bound := by
  induction bound with
  | zero => exact ScansWritten.zero
  | succ bound scans => exact ⟨scans.scan_succ, scans.scanItems_succ, scans.scanMembers_succ⟩

end Doc

/-- The text of a value holds the document of the value and nothing else. -/
theorem Document.ofText_render (json : Json) : ofText json.render = ⟨json.toDoc, true⟩ := by
  have scan_eq : Doc.scan (2 * json.chars.length + 1) json.chars = (json.toDoc, some []) := by
    have appended := (Doc.scansWritten _).value json (Nat.le_succ _) Numeral.ends_nil
    rwa [List.append_nil] at appended
  rw [ofText, Json.render, String.toList_ofList, scan_eq]
  rfl

end ProtoSchema
