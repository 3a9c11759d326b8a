import ProtoSchema.Proofs.Json.Composition

/-!
# Objects up to a member

A text is read from left to right, so what it holds up to some place does not depend on what comes
behind that place. This file says so for objects: the text of an object that starts with complete
members, in whatever spelling, holds these members first, and behind them what the rest of the text
begins with. Of the rest nothing is asked, it need not even be JSON: `Document.ofText_openText`.
Where the rest is one more member and a brace, the object is whole, `Document.ofText_closedText`.

A member whose text is complete can always be skipped, `Document.wellFormed_of_complete`.
-/

namespace ProtoSchema

namespace Doc

/-- What scanning under a bound finds to its end is well formed. -/
structure FindsWellFormed (bound : Nat) : Prop where
  value : ∀ {text rest : List Char} {doc : Doc}, scan bound text = (doc, some rest) →
    doc.wellFormed = true
  items : ∀ {text rest : List Char} {items : List Doc} {ending : Ending},
    scanItems bound text = (items, ending, some rest) →
    itemsWellFormed items = true ∧ ending = .closed
  members : ∀ {text rest : List Char} {members : List (Option String × Doc)} {ending : Ending},
    scanMembers bound text = (members, ending, some rest) →
    membersWellFormed members = true ∧ ending = .closed

namespace FindsWellFormed

theorem zero : FindsWellFormed 0 where
  value scan_eq := by cases scan_eq
  items items_eq := by cases items_eq
  members members_eq := by cases members_eq

variable {bound : Nat} (finds : FindsWellFormed bound) {text rest : List Char}

include finds

theorem scan_succ {doc : Doc} (scan_eq : scan (bound + 1) text = (doc, some rest)) :
    doc.wellFormed = true := by
  cases ValueFound.of_scan scan_eq with
  | array _ _ _ items_eq =>
      rcases finds.items items_eq with ⟨wellFormed, rfl⟩
      simp [Doc.wellFormed, wellFormed]
  | object _ _ _ members_eq =>
      rcases finds.members members_eq with ⟨wellFormed, rfl⟩
      simp [Doc.wellFormed, wellFormed]
  | _ => rfl

theorem scanItems_succ {items : List Doc} {ending : Ending}
    (items_eq : scanItems (bound + 1) text = (items, ending, some rest)) :
    itemsWellFormed items = true ∧ ending = .closed := by
  cases ItemsFound.of_scanItems items_eq with
  | last item_eq _ => simp [itemsWellFormed, finds.value item_eq]
  | comma item_eq _ others_eq =>
      rcases finds.items others_eq with ⟨others_wellFormed, rfl⟩
      simp [itemsWellFormed, finds.value item_eq, others_wellFormed]

theorem scanMembers_succ {members : List (Option String × Doc)} {ending : Ending}
    (members_eq : scanMembers (bound + 1) text = (members, ending, some rest)) :
    membersWellFormed members = true ∧ ending = .closed := by
  cases MembersFound.of_scanMembers members_eq with
  | last _ _ _ value_eq _ => simp [membersWellFormed, finds.value value_eq]
  | comma _ _ _ value_eq _ others_eq =>
      rcases finds.members others_eq with ⟨others_wellFormed, rfl⟩
      simp [membersWellFormed, finds.value value_eq, others_wellFormed]

end FindsWellFormed

theorem findsWellFormed (bound : Nat) : FindsWellFormed bound := by
  induction bound with
  | zero => exact FindsWellFormed.zero
  | succ bound finds => exact ⟨finds.scan_succ, finds.scanItems_succ, finds.scanMembers_succ⟩

theorem skipBlanks_blanks {blanks : List Char} (blank : ∀ char ∈ blanks, isBlank char = true)
    {char : Char} (visible : isBlank char = false) (rest : List Char) :
    skipBlanks (blanks ++ char :: rest) = char :: rest := by
  rw [skipBlanks, List.dropWhile_append_of_pos blank]
  exact skipBlanks_cons visible rest

end Doc

namespace Document

theorem wellFormed_of_complete {text : String} (complete : (ofText text).complete = true) :
    (ofText text).root.wellFormed = true := by
  rw [ofText] at complete ⊢
  split
  · rename_i scan_eq
    rw [scan_eq] at complete
    cases complete
  · rename_i scan_eq
    exact (Doc.findsWellFormed _).value scan_eq

/-- A name as it stands in a text, up to its closing quote: in any spelling and with any blanks
before it. -/
structure KeyText where
  name : String
  blanks : List Char
  spelled : List Char
  isBlank : ∀ char ∈ blanks, Doc.isBlank char = true
  spelling : Literal.Spelling name.toList spelled

/-- A member as it stands in a text: a name, a colon with any blanks before it, and a complete text
of the value, which may have blanks around it. -/
structure MemberText extends KeyText where
  gap : List Char
  gapIsBlank : ∀ char ∈ gap, Doc.isBlank char = true
  value : String
  complete : (ofText value).complete = true

/-- The characters of a name: blanks, and the spelled name between quotes. -/
def KeyText.chars (key : KeyText) : List Char :=
  key.blanks ++ '"' :: key.spelled ++ ['"']

namespace MemberText

/-- The characters of a member, from the blanks before its name on. -/
def chars (member : MemberText) : List Char :=
  member.toKeyText.chars ++ member.gap ++ ':' :: member.value.toList

/-- The document that the value of the member holds. -/
def doc (member : MemberText) : Doc :=
  (ofText member.value).root

/-- The member of an object that the text of a member holds. -/
def entry (member : MemberText) : Option String × Doc :=
  (some member.name, member.doc)

end MemberText

/-- The text of members, with a comma behind each of them. -/
def leading : List MemberText → List Char
  | [] => []
  | member :: members => member.chars ++ ',' :: leading members

/-- The text of an object that starts with some members and goes on with any text. -/
def openText (members : List MemberText) (rest : List Char) : String :=
  String.ofList ('\x7b' :: leading members ++ rest)

theorem KeyText.scan_chars (key : KeyText) (rest : List Char) :
    ∃ inside pieces, Doc.skipBlanks (key.chars ++ rest) = '"' :: inside ∧
      Literal.scan inside = some (pieces, rest) ∧ Literal.text? pieces = some key.name := by
  rcases key.spelling.scan_closed rest with ⟨pieces, scan_eq, combine_eq⟩
  refine ⟨key.spelled ++ '"' :: rest, pieces, ?_, scan_eq, ?_⟩
  · have chars_eq : key.chars ++ rest = key.blanks ++ '"' :: (key.spelled ++ '"' :: rest) := by
      simp [chars]
    rw [chars_eq]
    exact Doc.skipBlanks_blanks key.isBlank (by decide) _
  · rw [Literal.text?, combine_eq, Option.map_some, String.ofList_toList]

/-- Behind a name, whatever follows, stands a member of that name. -/
theorem KeyText.scanMembers_chars (key : KeyText) (rest : List Char) (bound : Nat) :
    ∃ doc others ending left, Doc.scanMembers (bound + 1) (key.chars ++ rest) =
      ((some key.name, doc) :: others, ending, left) := by
  rcases key.scan_chars rest with ⟨inside, pieces, text_eq, scan_eq, name_eq⟩
  rw [Doc.scanMembers, text_eq]
  simp only [scan_eq, name_eq]
  split
  · split
    · exact ⟨_, _, _, _, rfl⟩
    · split <;> exact ⟨_, _, _, _, rfl⟩
  · exact ⟨_, _, _, _, rfl⟩

namespace MemberText

variable (member : MemberText) {bound : Nat}
  (enough : 2 * member.value.toList.length + 1 ≤ bound)

include enough

theorem scan_chars (char : Char) (separates : char ∈ [',', ']', '\x7d']) (rest : List Char) :
    ∃ inside pieces named valueText after,
      Doc.skipBlanks (member.chars ++ char :: rest) = '"' :: inside ∧
      Literal.scan inside = some (pieces, named) ∧ Literal.text? pieces = some member.name ∧
      Doc.skipBlanks named = ':' :: valueText ∧
      Doc.scan bound valueText = (member.doc, some after) ∧
      Doc.skipBlanks after = char :: rest := by
  let valueText := member.value.toList ++ char :: rest
  have chars_eq : member.chars ++ char :: rest =
      member.toKeyText.chars ++ (member.gap ++ ':' :: valueText) := by
    simp [chars, valueText]
  rcases member.toKeyText.scan_chars (member.gap ++ ':' :: valueText) with
    ⟨inside, pieces, text_eq, scan_eq, name_eq⟩
  rcases scan_complete member.complete char separates rest enough with ⟨after, value_eq, after_eq⟩
  rw [chars_eq]
  exact ⟨inside, pieces, _, valueText, after, text_eq, scan_eq, name_eq,
    Doc.skipBlanks_blanks member.gapIsBlank (by decide) _, value_eq, after_eq⟩

theorem scanMembers_comma {rest : List Char} {found : List (Option String × Doc)}
    {ending : Ending} {left : Option (List Char)}
    (rest_eq : Doc.scanMembers bound rest = (found, ending, left)) :
    Doc.scanMembers (bound + 1) (member.chars ++ ',' :: rest) =
      (member.entry :: found, ending, left) := by
  rcases member.scan_chars enough ',' (by decide) rest with
    ⟨inside, pieces, named, valueText, after, text_eq, scan_eq, name_eq, named_eq, value_eq,
      after_eq⟩
  rw [Doc.scanMembers_comma text_eq scan_eq named_eq value_eq after_eq rest_eq, name_eq]
  rfl

theorem scanMembers_closed (rest : List Char) :
    Doc.scanMembers (bound + 1) (member.chars ++ '\x7d' :: rest) =
      ([member.entry], .closed, some rest) := by
  rcases member.scan_chars enough '\x7d' (by decide) rest with
    ⟨inside, pieces, named, valueText, after, text_eq, scan_eq, name_eq, named_eq, value_eq,
      after_eq⟩
  rw [Doc.scanMembers_last text_eq scan_eq named_eq value_eq after_eq, name_eq]
  rfl

theorem scanMembers_separated (char : Char) (separates : char ∈ [',', '\x7d'])
    (rest : List Char) :
    ∃ others ending left, Doc.scanMembers (bound + 1) (member.chars ++ char :: rest) =
      (member.entry :: others, ending, left) := by
  simp only [List.mem_cons, List.not_mem_nil, or_false] at separates
  rcases separates with rfl | rfl
  · rcases rest_eq : Doc.scanMembers bound rest with ⟨others, ending, left⟩
    exact ⟨others, ending, left, member.scanMembers_comma enough rest_eq⟩
  · exact ⟨[], .closed, some rest, member.scanMembers_closed enough rest⟩

end MemberText

theorem scanMembers_leading (members : List MemberText) {rest : List Char} {bound : Nat}
    (enough : ∀ member ∈ members, 2 * member.value.toList.length + 1 ≤ bound)
    {found : List (Option String × Doc)} {ending : Ending} {left : Option (List Char)}
    (rest_eq : Doc.scanMembers bound rest = (found, ending, left)) :
    Doc.scanMembers (bound + members.length) (leading members ++ rest) =
      (members.map MemberText.entry ++ found, ending, left) := by
  induction members with
  | nil => exact rest_eq
  | cons member more ih =>
      rw [List.forall_mem_cons] at enough
      have more_eq := ih enough.2
      have member_enough : 2 * member.value.toList.length + 1 ≤ bound + more.length := by omega
      rw [leading, List.append_assoc, List.cons_append]
      exact member.scanMembers_comma member_enough more_eq

theorem MemberText.length_value_lt (member : MemberText) :
    member.value.toList.length < member.chars.length := by
  simp only [chars, List.length_append, List.length_cons]
  omega

theorem length_le_leading (members : List MemberText) :
    members.length ≤ (leading members).length := by
  induction members with
  | nil => exact Nat.le_refl 0
  | cons member more ih =>
      simp only [leading, List.length_append, List.length_cons]
      omega

theorem length_value_le_leading {members : List MemberText} {member : MemberText}
    (member_mem : member ∈ members) :
    member.value.toList.length + members.length ≤ (leading members).length := by
  induction members with
  | nil => cases member_mem
  | cons first more ih =>
      simp only [leading, List.length_append, List.length_cons]
      rcases List.mem_cons.mp member_mem with rfl | member_mem
      · have value_lt := member.length_value_lt
        have more_le := length_le_leading more
        omega
      · have more_le := ih member_mem
        omega

/-- An object whose text starts with complete members holds them, and then the members that are
found in the rest. The bound for these is that of the whole text less one for each member. -/
theorem scan_openText (members : List MemberText) (rest : List Char) :
    ∃ bound, 2 * rest.length + 1 ≤ bound ∧
      ∀ {first : Option String × Doc} {others : List (Option String × Doc)} {ending : Ending}
        {left : Option (List Char)},
        Doc.scanMembers bound rest = (first :: others, ending, left) →
        Doc.scan (2 * (openText members rest).toList.length + 1) (openText members rest).toList =
          (.obj (members.map MemberText.entry ++ first :: others) ending, left) := by
  let inside := leading members ++ rest
  have members_le := length_le_leading members
  refine ⟨2 * (inside.length + 1) - members.length, ?_, ?_⟩
  · simp only [inside, List.length_append]
    omega
  · intro first others ending left rest_eq
    have enough : ∀ member ∈ members, 2 * member.value.toList.length + 1 ≤
        2 * (inside.length + 1) - members.length := by
      intro member member_mem
      have value_le := length_value_le_leading member_mem
      simp only [inside, List.length_append]
      omega
    -- Each of the members takes one step, so the whole bound leaves just this much for the rest.
    have members_eq := scanMembers_leading members enough rest_eq
    rw [Nat.sub_add_cancel (by simp only [inside, List.length_append]; omega)] at members_eq
    rcases Doc.skipBlanks_of_scanMembers members_eq (by simp) with ⟨more, inside_eq⟩
    rw [← Doc.scanMembers_skipBlanks, inside_eq] at members_eq
    have toList_eq : (openText members rest).toList = '\x7b' :: inside := by
      rw [openText, String.toList_ofList]
      rfl
    rw [toList_eq, List.length_cons]
    exact Doc.scan_obj (Doc.skipBlanks_cons (by decide) inside) inside_eq (by decide) members_eq

theorem ofText_openText (members : List MemberText) (rest : List Char) :
    ∃ bound, 2 * rest.length + 1 ≤ bound ∧
      ∀ {first : Option String × Doc} {others : List (Option String × Doc)} {ending : Ending}
        {left : Option (List Char)},
        Doc.scanMembers bound rest = (first :: others, ending, left) →
        ∃ complete, ofText (openText members rest) =
          ⟨.obj (members.map MemberText.entry ++ first :: others) ending, complete⟩ := by
  rcases scan_openText members rest with ⟨bound, enough, scans⟩
  refine ⟨bound, enough, ?_⟩
  intro first others ending left rest_eq
  rw [ofText, scans rest_eq]
  cases left with
  | none => exact ⟨_, rfl⟩
  | some after => exact ⟨_, rfl⟩

/-- The text of an object of the given members. -/
def closedText (members : List MemberText) : String :=
  String.ofList ('\x7b' :: [','].intercalate (members.map MemberText.chars) ++ ['\x7d'])

theorem closedText_concat (members : List MemberText) (last : MemberText) :
    closedText (members ++ [last]) = openText members (last.chars ++ ['\x7d']) := by
  have inside_eq : [','].intercalate ((members ++ [last]).map MemberText.chars) =
      leading members ++ last.chars := by
    induction members with
    | nil => simp [leading]
    | cons member members ih =>
        rw [List.cons_append, List.map_cons, List.intercalate_cons_of_ne_nil (by simp), ih]
        simp [leading]
  rw [closedText, openText, inside_eq, List.cons_append, List.cons_append, List.append_assoc]

/-- The text of an object of complete members holds these and nothing else. -/
theorem ofText_closedText (members : List MemberText) :
    ofText (closedText members) = ⟨.obj (members.map MemberText.entry) .closed, true⟩ := by
  rcases List.eq_nil_or_concat members with rfl | ⟨front, last, rfl⟩
  · rfl
  · rw [List.concat_eq_append, closedText_concat]
    rcases scan_openText front (last.chars ++ ['\x7d']) with ⟨bound, enough, scans⟩
    have value_lt := last.length_value_lt
    rw [List.length_append, List.length_singleton] at enough
    rcases Nat.exists_eq_add_of_le' (show 1 ≤ bound by omega) with ⟨bound, rfl⟩
    have last_eq := last.scanMembers_closed (show _ ≤ bound by omega) []
    rw [ofText, scans last_eq, List.map_append]
    rfl

end Document

end ProtoSchema
