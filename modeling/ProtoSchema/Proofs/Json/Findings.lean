import ProtoSchema.Proofs.Json.WrittenText

/-!
# How values are found

If scanning comes to the end of a value, of items or of members, it has done so in one of a few
ways. These are listed here, each with all that it says about the text, so that what holds of
everything that is found can be proved way by way. A way speaks of its parts by the scanning
functions themselves, under the bound that is left for them.
-/

namespace ProtoSchema.Doc

/-- The ways in which a value is found. -/
inductive ValueFound (bound : Nat) (text : List Char) : Doc → List Char → Prop
  | null {rest : List Char} (text_eq : skipBlanks text = 'n' :: 'u' :: 'l' :: 'l' :: rest) :
      ValueFound bound text .null rest
  | true {rest : List Char} (text_eq : skipBlanks text = 't' :: 'r' :: 'u' :: 'e' :: rest) :
      ValueFound bound text (.bool true) rest
  | false {rest : List Char}
      (text_eq : skipBlanks text = 'f' :: 'a' :: 'l' :: 's' :: 'e' :: rest) :
      ValueFound bound text (.bool false) rest
  | string {inside rest : List Char} {pieces : List Literal.Piece}
      (text_eq : skipBlanks text = '"' :: inside)
      (literal_eq : Literal.scan inside = some (pieces, rest)) :
      ValueFound bound text (.str (Literal.text? pieces)) rest
  | number {char : Char} {more rest : List Char} {numeral : Numeral}
      (text_eq : skipBlanks text = char :: more) (numeric : char = '-' ∨ char.isDigit = true)
      (numeral_eq : Numeral.scan (char :: more) = some (numeral, rest)) :
      ValueFound bound text (.number numeral.number) rest
  | emptyArray {inside rest : List Char} (text_eq : skipBlanks text = '[' :: inside)
      (inside_eq : skipBlanks inside = ']' :: rest) :
      ValueFound bound text (.arr [] .closed) rest
  | array {inside more rest : List Char} {char : Char} {items : List Doc} {ending : Ending}
      (text_eq : skipBlanks text = '[' :: inside) (inside_eq : skipBlanks inside = char :: more)
      (notClosing : char ≠ ']')
      (items_eq : scanItems bound (char :: more) = (items, ending, some rest)) :
      ValueFound bound text (.arr items ending) rest
  | emptyObject {inside rest : List Char} (text_eq : skipBlanks text = '\x7b' :: inside)
      (inside_eq : skipBlanks inside = '\x7d' :: rest) :
      ValueFound bound text (.obj [] .closed) rest
  | object {inside more rest : List Char} {char : Char} {members : List (Option String × Doc)}
      {ending : Ending} (text_eq : skipBlanks text = '\x7b' :: inside)
      (inside_eq : skipBlanks inside = char :: more) (notClosing : char ≠ '\x7d')
      (members_eq : scanMembers bound (char :: more) = (members, ending, some rest)) :
      ValueFound bound text (.obj members ending) rest

/-- The ways in which items are found. -/
inductive ItemsFound (bound : Nat) (text : List Char) : List Doc → Ending → List Char → Prop
  | last {after rest : List Char} {item : Doc} (item_eq : scan bound text = (item, some after))
      (after_eq : skipBlanks after = ']' :: rest) : ItemsFound bound text [item] .closed rest
  | comma {after others rest : List Char} {item : Doc} {items : List Doc} {ending : Ending}
      (item_eq : scan bound text = (item, some after))
      (after_eq : skipBlanks after = ',' :: others)
      (others_eq : scanItems bound others = (items, ending, some rest)) :
      ItemsFound bound text (item :: items) ending rest

/-- The ways in which members are found. -/
inductive MembersFound (bound : Nat) (text : List Char) :
    List (Option String × Doc) → Ending → List Char → Prop
  | last {inside named valueText after rest : List Char} {pieces : List Literal.Piece} {value : Doc}
      (text_eq : skipBlanks text = '"' :: inside)
      (name_eq : Literal.scan inside = some (pieces, named))
      (named_eq : skipBlanks named = ':' :: valueText)
      (value_eq : scan bound valueText = (value, some after))
      (after_eq : skipBlanks after = '\x7d' :: rest) :
      MembersFound bound text [(Literal.text? pieces, value)] .closed rest
  | comma {inside named valueText after others rest : List Char} {pieces : List Literal.Piece}
      {value : Doc} {members : List (Option String × Doc)} {ending : Ending}
      (text_eq : skipBlanks text = '"' :: inside)
      (name_eq : Literal.scan inside = some (pieces, named))
      (named_eq : skipBlanks named = ':' :: valueText)
      (value_eq : scan bound valueText = (value, some after))
      (after_eq : skipBlanks after = ',' :: others)
      (others_eq : scanMembers bound others = (members, ending, some rest)) :
      MembersFound bound text ((Literal.text? pieces, value) :: members) ending rest

variable {bound : Nat} {text rest : List Char}

theorem scan_nil (bound : Nat) : scan bound [] = (.fault, none) := by
  cases bound <;> rfl

theorem ne_nil_of_scanItems {items : List Doc} {ending : Ending}
    (items_eq : scanItems bound text = (items, ending, some rest)) : text ≠ [] := by
  rintro rfl
  cases bound with
  | zero => cases items_eq
  | succ bound =>
      rw [scanItems, scan_nil] at items_eq
      cases items_eq

theorem ne_nil_of_scanMembers {members : List (Option String × Doc)} {ending : Ending}
    (members_eq : scanMembers bound text = (members, ending, some rest)) : text ≠ [] := by
  rintro rfl
  cases bound <;> cases members_eq

/-- Where something is found inside a container, the text goes on, and not with the end of it. -/
theorem exists_cons_of_not_closing {closing : Char} (ne_nil : text ≠ [])
    (notClosing : ∀ more, text = closing :: more → False) :
    ∃ char more, text = char :: more ∧ char ≠ closing := by
  rcases List.exists_cons_of_ne_nil ne_nil with ⟨char, more, rfl⟩
  refine ⟨char, more, rfl, ?_⟩
  rintro rfl
  exact notClosing more rfl

theorem ValueFound.of_scan {doc : Doc} (scan_eq : scan (bound + 1) text = (doc, some rest)) :
    ValueFound bound text doc rest := by
  rw [scan] at scan_eq
  split at scan_eq
  case h_1 => cases scan_eq
  case h_2 text_eq =>
    cases scan_eq
    exact .null text_eq
  case h_3 text_eq =>
    cases scan_eq
    exact .true text_eq
  case h_4 text_eq =>
    cases scan_eq
    exact .false text_eq
  case h_5 text_eq =>
    rw [scanString] at scan_eq
    split at scan_eq
    · rename_i literal_eq
      cases scan_eq
      exact .string text_eq literal_eq
    · cases scan_eq
  case h_6 inside text_eq =>
    split at scan_eq
    · rename_i inside_eq
      cases scan_eq
      exact .emptyArray text_eq inside_eq
    · rename_i notClosing
      rcases items_eq : scanItems bound (skipBlanks inside) with ⟨items, ending, left⟩
      rw [items_eq] at scan_eq
      cases scan_eq
      rcases exists_cons_of_not_closing (ne_nil_of_scanItems items_eq) notClosing with
        ⟨char, more, inside_eq, char_ne⟩
      rw [inside_eq] at items_eq
      exact .array text_eq inside_eq char_ne items_eq
  case h_7 inside text_eq =>
    split at scan_eq
    · rename_i inside_eq
      cases scan_eq
      exact .emptyObject text_eq inside_eq
    · rename_i notClosing
      rcases members_eq : scanMembers bound (skipBlanks inside) with ⟨members, ending, left⟩
      rw [members_eq] at scan_eq
      cases scan_eq
      rcases exists_cons_of_not_closing (ne_nil_of_scanMembers members_eq) notClosing with
        ⟨char, more, inside_eq, char_ne⟩
      rw [inside_eq] at members_eq
      exact .object text_eq inside_eq char_ne members_eq
  case h_8 char more _ _ _ _ _ _ text_eq =>
    split at scan_eq
    · rename_i numeric
      rw [scanNumber] at scan_eq
      split at scan_eq
      · rename_i numeral_eq
        cases scan_eq
        exact .number text_eq (by simpa using numeric) numeral_eq
      · cases scan_eq
    · cases scan_eq

theorem ItemsFound.of_scanItems {items : List Doc} {ending : Ending}
    (items_eq : scanItems (bound + 1) text = (items, ending, some rest)) :
    ItemsFound bound text items ending rest := by
  rw [scanItems] at items_eq
  split at items_eq
  · cases items_eq
  · rename_i item_eq
    split at items_eq
    · rename_i after_eq
      cases items_eq
      exact .last item_eq after_eq
    · rename_i others after_eq
      rcases others_eq : scanItems bound others with ⟨found, others_ending, left⟩
      rw [others_eq] at items_eq
      cases items_eq
      exact .comma item_eq after_eq others_eq
    · cases items_eq

theorem MembersFound.of_scanMembers {members : List (Option String × Doc)} {ending : Ending}
    (members_eq : scanMembers (bound + 1) text = (members, ending, some rest)) :
    MembersFound bound text members ending rest := by
  rw [scanMembers] at members_eq
  split at members_eq
  case h_2 => cases members_eq
  case h_1 text_eq =>
    split at members_eq
    case h_1 => cases members_eq
    case h_2 name_eq =>
      split at members_eq
      case h_2 => cases members_eq
      case h_1 named_eq =>
        split at members_eq
        · cases members_eq
        · rename_i value_eq
          split at members_eq
          · rename_i after_eq
            cases members_eq
            exact .last text_eq name_eq named_eq value_eq after_eq
          · rename_i others after_eq
            rcases others_eq : scanMembers bound others with ⟨found, others_ending, left⟩
            rw [others_eq] at members_eq
            cases members_eq
            exact .comma text_eq name_eq named_eq value_eq after_eq others_eq
          · cases members_eq

end ProtoSchema.Doc
