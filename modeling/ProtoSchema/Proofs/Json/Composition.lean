import ProtoSchema.Proofs.Json.Findings

/-!
# Texts put together

A text that holds a value goes on holding it when more text follows, as long as that text does not
go on with what could belong to a number. So the texts of values, whatever their spelling, can be
put between brackets and commas, and the array or the object that arises holds the documents of
these texts: `Document.ofText_arrayText` and `Document.ofText_objectText`.

The scanning functions are bounded, and the induction is on the bound. A greater bound finds the
same.
-/

namespace ProtoSchema

namespace Literal

/-- A literal ends at its closing quote, whatever follows. -/
theorem scan_append {text rest : List Char} {pieces : List Piece}
    (scan_eq : scan text = some (pieces, rest)) (suffix : List Char) :
    scan (text ++ suffix) = some (pieces, rest ++ suffix) := by
  fun_induction scan text generalizing pieces rest with
  | case1 => cases scan_eq
  | case2 after =>
      cases scan_eq
      rfl
  | case3 first second third fourth after code found tail found_eq unit_eq ih =>
      cases scan_eq
      simp only [List.cons_append, scan_unit unit_eq, ih found_eq]
      rfl
  | case4 => cases scan_eq
  | case5 letter after _ char found tail found_eq escape_eq ih =>
      cases scan_eq
      simp only [List.cons_append, scan_short escape_eq, ih found_eq]
      rfl
  | case6 => cases scan_eq
  | case7 => cases scan_eq
  | case8 char after notQuote _ _ accepted found tail found_eq ih =>
      cases scan_eq
      simp only [Bool.or_eq_true, beq_iff_eq, not_or, Bool.not_eq_true] at accepted
      rw [List.cons_append, scan_plain accepted.1 notQuote accepted.2, ih found_eq]
      rfl
  | case9 => cases scan_eq

end Literal

namespace Numeral

variable {suffix : List Char}

theorem digits_append_ends (ends : Ends suffix) (text : List Char) :
    digits (text ++ suffix) = ((digits text).1, (digits text).2 ++ suffix) := by
  induction text with
  | nil =>
      have no_digits : ∀ char ∈ ([] : List Char), char.isDigit = true := by simp
      exact digits_append no_digits ends
  | cons char text ih =>
      simp only [digits, Prod.mk.injEq] at ih ⊢
      by_cases digit : char.isDigit = true
      · simp only [List.cons_append, List.takeWhile_cons_of_pos digit,
          List.dropWhile_cons_of_pos digit, List.map_cons, ih.1, ih.2, and_self]
      · simp only [List.cons_append, List.takeWhile_cons_of_neg digit,
          List.dropWhile_cons_of_neg digit, List.map_nil, and_self]

theorem scanFraction_other {char : Char} (notPoint : char ≠ '.') (text : List Char) :
    scanFraction (char :: text) = some (none, char :: text) := by
  rw [scanFraction]
  intro rest text_eq
  exact notPoint (List.cons.inj text_eq).1

theorem scanFraction_append (ends : Ends suffix) {text rest : List Char}
    {fraction : Option (List Nat)} (scan_eq : scanFraction text = some (fraction, rest)) :
    scanFraction (text ++ suffix) = some (fraction, rest ++ suffix) := by
  cases text with
  | nil =>
      cases scan_eq
      exact scanFraction_ends ends
  | cons char text =>
      by_cases point : char = '.'
      · subst point
        rcases digits_eq : digits text with ⟨found, after⟩
        rw [scanFraction, digits_eq] at scan_eq
        rw [List.cons_append, scanFraction, digits_append_ends ends, digits_eq]
        cases found with
        | nil => cases scan_eq
        | cons first more =>
            cases scan_eq
            rfl
      · rw [scanFraction_other point] at scan_eq
        cases scan_eq
        exact scanFraction_other point _

theorem scanExponentDigits_append (ends : Ends suffix) {negative : Bool} {text rest : List Char}
    {exponent : Option Int} (scan_eq : scanExponentDigits negative text = some (exponent, rest)) :
    scanExponentDigits negative (text ++ suffix) = some (exponent, rest ++ suffix) := by
  rcases digits_eq : digits text with ⟨found, after⟩
  rw [scanExponentDigits, digits_eq] at scan_eq
  rw [scanExponentDigits, digits_append_ends ends, digits_eq]
  cases found with
  | nil => cases scan_eq
  | cons first more =>
      cases scan_eq
      rfl

theorem scanExponentBody_append (ends : Ends suffix) {text rest : List Char}
    {exponent : Option Int} (scan_eq : scanExponentBody text = some (exponent, rest)) :
    scanExponentBody (text ++ suffix) = some (exponent, rest ++ suffix) := by
  fun_cases scanExponentBody text with
  | case1 text => exact scanExponentDigits_append ends scan_eq
  | case2 text => exact scanExponentDigits_append ends scan_eq
  | case3 _ notPlus notMinus =>
      cases text with
      | nil => cases scan_eq
      | cons char text =>
          have unsigned : ∀ more, scanExponentBody (char :: more) =
              scanExponentDigits false (char :: more) := by
            intro more
            rw [scanExponentBody]
            · rintro rest ⟨⟩
              exact notPlus text rfl
            · rintro rest ⟨⟩
              exact notMinus text rfl
          rw [unsigned] at scan_eq
          rw [List.cons_append, unsigned]
          exact scanExponentDigits_append ends scan_eq

theorem scanExponent_append (ends : Ends suffix) {text rest : List Char}
    {exponent : Option Int} (scan_eq : scanExponent text = some (exponent, rest)) :
    scanExponent (text ++ suffix) = some (exponent, rest ++ suffix) := by
  fun_cases scanExponent text with
  | case1 text => exact scanExponentBody_append ends scan_eq
  | case2 text => exact scanExponentBody_append ends scan_eq
  | case3 _ notLower notUpper =>
      cases text with
      | nil =>
          cases scan_eq
          exact scanExponent_ends ends
      | cons char text =>
          have absent : ∀ more, scanExponent (char :: more) = some (none, char :: more) := by
            intro more
            rw [scanExponent]
            · rintro rest ⟨⟩
              exact notLower text rfl
            · rintro rest ⟨⟩
              exact notUpper text rfl
          rw [absent] at scan_eq
          cases scan_eq
          exact absent _

theorem scanUnsigned_append (ends : Ends suffix) {negative : Bool} {text rest : List Char}
    {numeral : Numeral} (scan_eq : scanUnsigned negative text = some (numeral, rest)) :
    scanUnsigned negative (text ++ suffix) = some (numeral, rest ++ suffix) := by
  simp only [scanUnsigned, Option.bind_eq_bind, Option.bind_eq_some_iff] at scan_eq
  rcases scan_eq with ⟨_, whole, ⟨fraction, afterFraction⟩, fraction_eq,
    ⟨exponent, afterExponent⟩, exponent_eq, numeral_eq⟩
  cases numeral_eq
  simp [scanUnsigned, digits_append_ends ends, whole, scanFraction_append ends fraction_eq,
    scanExponent_append ends exponent_eq]

theorem scan_append (ends : Ends suffix) {text rest : List Char} {numeral : Numeral}
    (scan_eq : scan text = some (numeral, rest)) :
    scan (text ++ suffix) = some (numeral, rest ++ suffix) := by
  fun_cases scan text with
  | case1 text => exact scanUnsigned_append ends scan_eq
  | case2 _ notMinus =>
      cases text with
      | nil => cases scan_eq
      | cons char text =>
          have unsigned : ∀ more, scan (char :: more) = scanUnsigned false (char :: more) := by
            intro more
            rw [scan]
            rintro rest ⟨⟩
            exact notMinus text rfl
          rw [unsigned] at scan_eq
          rw [List.cons_append, unsigned]
          exact scanUnsigned_append ends scan_eq

end Numeral

namespace Doc

variable {text rest suffix : List Char}

theorem skipBlanks_append {char : Char} (trimmed_eq : skipBlanks text = char :: rest)
    (suffix : List Char) : skipBlanks (text ++ suffix) = char :: (rest ++ suffix) := by
  rw [skipBlanks] at trimmed_eq ⊢
  rw [List.dropWhile_append, trimmed_eq]
  simp

theorem skipBlanks_skipBlanks (text : List Char) :
    skipBlanks (skipBlanks text) = skipBlanks text := by
  induction text with
  | nil => rfl
  | cons char text ih =>
      by_cases blank : isBlank char = true
      · simpa [skipBlanks, blank] using ih
      · simp [skipBlanks, blank]

/-- Blanks before a value do not matter. -/
theorem scan_skipBlanks (bound : Nat) (text : List Char) :
    scan bound (skipBlanks text) = scan bound text := by
  cases bound with
  | zero => rfl
  | succ bound => rw [scan, scan, skipBlanks_skipBlanks]

theorem scanItems_skipBlanks (bound : Nat) (text : List Char) :
    scanItems bound (skipBlanks text) = scanItems bound text := by
  cases bound with
  | zero => rfl
  | succ bound => rw [scanItems, scanItems, scan_skipBlanks]

theorem scanMembers_skipBlanks (bound : Nat) (text : List Char) :
    scanMembers bound (skipBlanks text) = scanMembers bound text := by
  cases bound with
  | zero => rfl
  | succ bound => rw [scanMembers, scanMembers, skipBlanks_skipBlanks]

/-- A value does not start with the end of an array. -/
theorem skipBlanks_of_scan {bound : Nat} {doc : Doc}
    (scan_eq : scan bound text = (doc, some rest)) :
    ∃ char more, skipBlanks text = char :: more ∧ char ≠ ']' := by
  cases bound with
  | zero => cases scan_eq
  | succ bound =>
      cases ValueFound.of_scan scan_eq with
      | number text_eq numeric _ =>
          exact ⟨_, _, text_eq, ne_of_numeric numeric (by decide) (by decide)⟩
      | null text_eq | true text_eq | false text_eq | string text_eq _ | emptyArray text_eq _
      | array text_eq _ _ _ | emptyObject text_eq _ | object text_eq _ _ _ =>
          exact ⟨_, _, text_eq, by decide⟩

theorem skipBlanks_of_scanItems {bound : Nat} {items : List Doc} {ending : Ending}
    (items_eq : scanItems bound text = (items, ending, some rest)) :
    ∃ char more, skipBlanks text = char :: more ∧ char ≠ ']' := by
  cases bound with
  | zero => cases items_eq
  | succ bound =>
      cases ItemsFound.of_scanItems items_eq with
      | last item_eq _ | comma item_eq _ _ => exact skipBlanks_of_scan item_eq

theorem skipBlanks_of_scanMembers {bound : Nat}
    {found : List (Option String × Doc) × Ending × Option (List Char)}
    (found_eq : scanMembers bound text = found) (someFound : found ≠ ([], .broken, none)) :
    ∃ more, skipBlanks text = '"' :: more := by
  cases bound with
  | zero => exact absurd found_eq.symm someFound
  | succ bound =>
      rw [scanMembers] at found_eq
      split at found_eq
      · rename_i more text_eq
        exact ⟨more, text_eq⟩
      · exact absurd found_eq.symm someFound

/-- What scanning under a bound finds, it finds under a greater one and before other text. -/
structure ScansOn (bound : Nat) : Prop where
  value : ∀ {text rest suffix : List Char} {doc : Doc} {greater : Nat},
    scan bound text = (doc, some rest) → Numeral.Ends suffix → bound ≤ greater →
    scan greater (text ++ suffix) = (doc, some (rest ++ suffix))
  items : ∀ {text rest suffix : List Char} {items : List Doc} {ending : Ending} {greater : Nat},
    scanItems bound text = (items, ending, some rest) → Numeral.Ends suffix → bound ≤ greater →
    scanItems greater (text ++ suffix) = (items, ending, some (rest ++ suffix))
  members : ∀ {text rest suffix : List Char} {members : List (Option String × Doc)}
    {ending : Ending} {greater : Nat}, scanMembers bound text = (members, ending, some rest) →
    Numeral.Ends suffix → bound ≤ greater →
    scanMembers greater (text ++ suffix) = (members, ending, some (rest ++ suffix))

namespace ScansOn

theorem zero : ScansOn 0 where
  value scan_eq := by cases scan_eq
  items items_eq := by cases items_eq
  members members_eq := by cases members_eq

variable {bound : Nat} (scans : ScansOn bound) (ends : Numeral.Ends suffix)

include scans ends

theorem scan_succ {doc : Doc} (scan_eq : scan (bound + 1) text = (doc, some rest))
    {greater : Nat} (enough : bound ≤ greater) :
    scan (greater + 1) (text ++ suffix) = (doc, some (rest ++ suffix)) := by
  cases ValueFound.of_scan scan_eq with
  | null text_eq | true text_eq | false text_eq =>
      rw [scan, skipBlanks_append text_eq]
      rfl
  | string text_eq literal_eq =>
      rw [scan, skipBlanks_append text_eq]
      simp only [scanString, Literal.scan_append literal_eq]
  | number text_eq numeric numeral_eq =>
      rw [← scan_skipBlanks, skipBlanks_append text_eq, scan_number_head numeric, scanNumber,
        ← List.cons_append, Numeral.scan_append ends numeral_eq]
  | emptyArray text_eq inside_eq | emptyObject text_eq inside_eq =>
      rw [scan, skipBlanks_append text_eq]
      simp only [skipBlanks_append inside_eq]
  | array text_eq inside_eq notClosing items_eq =>
      exact scan_arr (skipBlanks_append text_eq suffix) (skipBlanks_append inside_eq suffix)
        notClosing (scans.items items_eq ends enough)
  | object text_eq inside_eq notClosing members_eq =>
      exact scan_obj (skipBlanks_append text_eq suffix) (skipBlanks_append inside_eq suffix)
        notClosing (scans.members members_eq ends enough)

theorem scanItems_succ {items : List Doc} {ending : Ending}
    (items_eq : scanItems (bound + 1) text = (items, ending, some rest)) {greater : Nat}
    (enough : bound ≤ greater) :
    scanItems (greater + 1) (text ++ suffix) = (items, ending, some (rest ++ suffix)) := by
  cases ItemsFound.of_scanItems items_eq with
  | last item_eq after_eq =>
      exact scanItems_last (scans.value item_eq ends enough) (skipBlanks_append after_eq suffix)
  | comma item_eq after_eq others_eq =>
      exact scanItems_comma (scans.value item_eq ends enough) (skipBlanks_append after_eq suffix)
        (scans.items others_eq ends enough)

theorem scanMembers_succ {members : List (Option String × Doc)} {ending : Ending}
    (members_eq : scanMembers (bound + 1) text = (members, ending, some rest)) {greater : Nat}
    (enough : bound ≤ greater) :
    scanMembers (greater + 1) (text ++ suffix) = (members, ending, some (rest ++ suffix)) := by
  cases MembersFound.of_scanMembers members_eq with
  | last text_eq name_eq named_eq value_eq after_eq =>
      exact scanMembers_last (skipBlanks_append text_eq suffix)
        (Literal.scan_append name_eq suffix) (skipBlanks_append named_eq suffix)
        (scans.value value_eq ends enough) (skipBlanks_append after_eq suffix)
  | comma text_eq name_eq named_eq value_eq after_eq others_eq =>
      exact scanMembers_comma (skipBlanks_append text_eq suffix)
        (Literal.scan_append name_eq suffix) (skipBlanks_append named_eq suffix)
        (scans.value value_eq ends enough) (skipBlanks_append after_eq suffix)
        (scans.members others_eq ends enough)

end ScansOn

theorem scansOn (bound : Nat) : ScansOn bound := by
  induction bound with
  | zero => exact ScansOn.zero
  | succ bound scans =>
      constructor
      · intro text rest suffix doc greater scan_eq ends enough
        rcases Nat.exists_eq_add_of_le' enough with ⟨more, rfl⟩
        exact scans.scan_succ ends scan_eq (Nat.le_add_left bound more)
      · intro text rest suffix items ending greater items_eq ends enough
        rcases Nat.exists_eq_add_of_le' enough with ⟨more, rfl⟩
        exact scans.scanItems_succ ends items_eq (Nat.le_add_left bound more)
      · intro text rest suffix members ending greater members_eq ends enough
        rcases Nat.exists_eq_add_of_le' enough with ⟨more, rfl⟩
        exact scans.scanMembers_succ ends members_eq (Nat.le_add_left bound more)

end Doc

namespace Document

/-- The text of an array that is put together from the texts of its items. -/
def arrayText (texts : List String) : String :=
  "[" ++ ",".intercalate texts ++ "]"

/-- The text of a member that is put together from its name and the text of its value. -/
def memberText (member : String × String) : String :=
  String.ofList (Literal.write member.1.toList ++ ':' :: member.2.toList)

/-- The text of an object that is put together from the names and the texts of its members. -/
def objectText (members : List (String × String)) : String :=
  "\x7b" ++ ",".intercalate (members.map memberText) ++ "\x7d"

/-- A complete text is still found to hold its document when a separator follows it. -/
theorem scan_complete {text : String} (complete : (ofText text).complete = true) (char : Char)
    (separates : char ∈ [',', ']', '\x7d']) (suffix : List Char) {bound : Nat}
    (enough : 2 * text.toList.length + 1 ≤ bound) :
    ∃ after, Doc.scan bound (text.toList ++ char :: suffix) = ((ofText text).root, some after) ∧
      Doc.skipBlanks after = char :: suffix := by
  have visible : ∀ char ∈ [',', ']', '\x7d'], Doc.isBlank char = false := by simp [Doc.isBlank]
  have stops : ∀ char ∈ [',', ']', '\x7d'],
      char.isDigit = false ∧ char ≠ '.' ∧ char ≠ 'e' ∧ char ≠ 'E' := by simp
  rcases scan_eq : Doc.scan (2 * text.toList.length + 1) text.toList with ⟨root, _ | after⟩
  · simp [ofText, scan_eq] at complete
  · simp only [ofText, scan_eq, List.isEmpty_iff] at complete ⊢
    refine ⟨after ++ char :: suffix, ?_, ?_⟩
    · exact (Doc.scansOn _).value scan_eq (Numeral.ends_cons suffix (stops char separates)) enough
    · rw [Doc.skipBlanks] at complete ⊢
      simp [List.dropWhile_append, complete, visible char separates]

theorem toList_intercalate_comma (text next : String) (others : List String) :
    (",".intercalate (text :: next :: others)).toList =
      text.toList ++ ',' :: (",".intercalate (next :: others)).toList := by
  rw [String.intercalate_cons_cons, String.toList_append, String.toList_append, List.append_assoc]
  rfl

theorem toList_memberText (name text : String) :
    (memberText (name, text)).toList = Literal.write name.toList ++ ':' :: text.toList := by
  rw [memberText, String.toList_ofList]

theorem scanItems_complete (text : String) (more : List String)
    (complete : ∀ item ∈ text :: more, (ofText item).complete = true) (rest : List Char)
    {bound : Nat} (enough : 2 * (",".intercalate (text :: more)).toList.length + 1 ≤ bound) :
    Doc.scanItems (bound + 1) ((",".intercalate (text :: more)).toList ++ ']' :: rest) =
      ((text :: more).map fun item => (ofText item).root, .closed, some rest) := by
  have text_complete := complete text List.mem_cons_self
  induction more generalizing text bound with
  | nil =>
      rw [String.intercalate_singleton] at enough ⊢
      rcases scan_complete text_complete ']' (by decide) rest enough with
        ⟨after, item_eq, after_eq⟩
      exact Doc.scanItems_last item_eq after_eq
  | cons next others ih =>
      rw [toList_intercalate_comma] at enough ⊢
      rw [List.length_append, List.length_cons] at enough
      rw [List.append_assoc, List.cons_append]
      rcases Nat.exists_eq_add_of_le' (show 1 ≤ bound by omega) with ⟨bound, rfl⟩
      rcases scan_complete text_complete ',' (by decide)
        ((",".intercalate (next :: others)).toList ++ ']' :: rest)
        (show _ ≤ bound + 1 by omega) with ⟨after, item_eq, after_eq⟩
      have others_complete : ∀ item ∈ next :: others, (ofText item).complete = true :=
        fun item item_mem => complete item (List.mem_cons_of_mem text item_mem)
      exact Doc.scanItems_comma item_eq after_eq
        (ih next others_complete (by omega) (others_complete next List.mem_cons_self))

theorem scanMembers_complete (name text : String) (more : List (String × String))
    (complete : ∀ member ∈ (name, text) :: more, (ofText member.2).complete = true)
    (rest : List Char) {bound : Nat}
    (enough : 2 * (",".intercalate (((name, text) :: more).map memberText)).toList.length + 1 ≤
      bound) :
    Doc.scanMembers (bound + 1)
        ((",".intercalate (((name, text) :: more).map memberText)).toList ++ '\x7d' :: rest) =
      (((name, text) :: more).map fun member => (some member.1, (ofText member.2).root), .closed,
        some rest) := by
  have text_complete : (ofText text).complete = true := complete (name, text) List.mem_cons_self
  induction more generalizing name text bound with
  | nil =>
      rw [List.map_singleton, String.intercalate_singleton, toList_memberText] at enough ⊢
      rw [List.length_append, List.length_cons] at enough
      rw [List.append_assoc, List.cons_append]
      rcases scan_complete text_complete '\x7d' (by decide) rest (show _ ≤ bound by omega) with
        ⟨after, value_eq, after_eq⟩
      rcases Doc.skipBlanks_write name (':' :: (text.toList ++ '\x7d' :: rest)) with
        ⟨inside, pieces, text_eq, scan_eq, name_eq⟩
      rw [Doc.scanMembers_last text_eq scan_eq (Doc.skipBlanks_cons (by decide) _) value_eq
        after_eq, name_eq]
      rfl
  | cons next others ih =>
      rcases next with ⟨nextName, nextText⟩
      rw [List.map_cons, List.map_cons, toList_intercalate_comma, ← List.map_cons,
        toList_memberText] at enough ⊢
      simp only [List.length_append, List.length_cons] at enough
      simp only [List.append_assoc, List.cons_append]
      rcases Nat.exists_eq_add_of_le' (show 1 ≤ bound by omega) with ⟨bound, rfl⟩
      let suffix := (",".intercalate (((nextName, nextText) :: others).map memberText)).toList ++
        '\x7d' :: rest
      rcases scan_complete text_complete ',' (by decide) suffix
        (show _ ≤ bound + 1 by omega) with ⟨after, value_eq, after_eq⟩
      rcases Doc.skipBlanks_write name (':' :: (text.toList ++ ',' :: suffix)) with
        ⟨inside, pieces, text_eq, scan_eq, name_eq⟩
      have others_complete : ∀ member ∈ (nextName, nextText) :: others,
          (ofText member.2).complete = true :=
        fun member member_mem => complete member (List.mem_cons_of_mem _ member_mem)
      rw [Doc.scanMembers_comma text_eq scan_eq (Doc.skipBlanks_cons (by decide) _) value_eq
        after_eq (ih nextName nextText others_complete (by omega)
          (others_complete (nextName, nextText) List.mem_cons_self)), name_eq]
      rfl

theorem ofText_of_scan {text : String} {chars : List Char} {root : Doc}
    (toList_eq : text.toList = chars)
    (scan_eq : Doc.scan (2 * chars.length + 1) chars = (root, some [])) :
    ofText text = ⟨root, true⟩ := by
  rw [ofText, toList_eq, scan_eq]
  rfl

/-- An array that is put together from complete texts holds their documents. -/
theorem ofText_arrayText {texts : List String}
    (complete : ∀ text ∈ texts, (ofText text).complete = true) :
    ofText (arrayText texts) = ⟨.arr (texts.map fun text => (ofText text).root) .closed, true⟩ := by
  cases texts with
  | nil => rfl
  | cons text more =>
      let inside := (",".intercalate (text :: more)).toList ++ [']']
      have toList_eq : (arrayText (text :: more)).toList = '[' :: inside := by
        rw [arrayText, String.toList_append, String.toList_append]
        rfl
      have items_eq : Doc.scanItems (2 * inside.length + 1 + 1) inside = _ :=
        scanItems_complete text more complete []
          (by simp only [inside, List.length_append, List.length_singleton]; omega)
      rcases Doc.skipBlanks_of_scanItems items_eq with ⟨char, after, inside_eq, notClosing⟩
      rw [← Doc.scanItems_skipBlanks, inside_eq] at items_eq
      exact ofText_of_scan toList_eq
        (Doc.scan_arr (Doc.skipBlanks_cons (by decide) _) inside_eq notClosing items_eq)

/-- An object that is put together from names and complete texts holds members of these names with
the documents of the texts. -/
theorem ofText_objectText {members : List (String × String)}
    (complete : ∀ member ∈ members, (ofText member.2).complete = true) :
    ofText (objectText members) =
      ⟨.obj (members.map fun member => (some member.1, (ofText member.2).root)) .closed, true⟩ := by
  cases members with
  | nil => rfl
  | cons member more =>
      rcases member with ⟨name, text⟩
      let inside := (",".intercalate (((name, text) :: more).map memberText)).toList ++ ['\x7d']
      have toList_eq : (objectText ((name, text) :: more)).toList = '\x7b' :: inside := by
        rw [objectText, String.toList_append, String.toList_append]
        rfl
      have members_eq : Doc.scanMembers (2 * inside.length + 1 + 1) inside = _ :=
        scanMembers_complete name text more complete []
          (by simp only [inside, List.length_append, List.length_singleton]; omega)
      rcases Doc.skipBlanks_of_scanMembers members_eq (by simp) with ⟨after, inside_eq⟩
      rw [← Doc.scanMembers_skipBlanks, inside_eq] at members_eq
      exact ofText_of_scan toList_eq
        (Doc.scan_obj (Doc.skipBlanks_cons (by decide) _) inside_eq (by decide) members_eq)

end Document

end ProtoSchema
