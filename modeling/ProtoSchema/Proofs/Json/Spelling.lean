import ProtoSchema.Json.Literal

/-!
# Spellings of strings

A character can be spelled in several ways between quotes: `Spells` lists them, and `Spelling` does
so for a whole string, each character on its own. Whatever the spelling, reading gives the string
back and stops behind the closing quote.

Reading first cuts a literal into pieces and then combines them, so the statement about one
character has two halves: which pieces its spelling adds, and what these pieces stand for before any
others.

`Spells` asks what the reader makes of an escape. `Form` starts from the character instead: it says
how the number of a character is cut into units and how these are put into digits. Every form is a
spelling, and writing uses one of the forms.
-/

namespace ProtoSchema.Literal

/-- A way to spell a character between quotes. -/
inductive Spells : Char → List Char → Prop
  /-- The character itself. -/
  | plain {char : Char} (printable : isControl char = false) (notQuote : char ≠ '"')
      (notBackslash : char ≠ '\\') : Spells char [char]
  /-- An escape of one letter. -/
  | short {char letter : Char} (escape_eq : shortEscape? letter = some char) :
      Spells char ['\\', letter]
  /-- The number of its only UTF-16 unit. -/
  | unit {char first second third fourth : Char}
      (unit_eq : unit? first second third fourth = some char.toNat) :
      Spells char ['\\', 'u', first, second, third, fourth]
  /-- The numbers of its two UTF-16 units. -/
  | pair {first second third fourth first' second' third' fourth' : Char} {high low : Nat}
      (high_eq : unit? first second third fourth = some high)
      (low_eq : unit? first' second' third' fourth' = some low)
      (isHigh : isHighSurrogate high = true) (isLow : isLowSurrogate low = true) :
      Spells (pairedChar high low)
        (['\\', 'u', first, second, third, fourth] ++
          ['\\', 'u', first', second', third', fourth'])

/-- A way to spell a string between quotes. -/
inductive Spelling : List Char → List Char → Prop
  | nil : Spelling [] []
  | cons {char : Char} {chars spelled rest : List Char} (first : Spells char spelled)
      (more : Spelling chars rest) : Spelling (char :: chars) (spelled ++ rest)

theorem scan_unit {first second third fourth : Char} {code : Nat}
    (unit_eq : unit? first second third fourth = some code) (rest : List Char) :
    scan ('\\' :: 'u' :: first :: second :: third :: fourth :: rest) =
      (scan rest).map fun (pieces, after) => (.unit code :: pieces, after) := by
  rw [scan, unit_eq]
  cases scan rest <;> rfl

theorem scan_short {letter char : Char} (escape_eq : shortEscape? letter = some char)
    (rest : List Char) :
    scan ('\\' :: letter :: rest) =
      (scan rest).map fun (pieces, after) => (.char char :: pieces, after) := by
  have not_unit : letter ≠ 'u' := by
    rintro rfl
    simp [shortEscape?] at escape_eq
  rw [scan, escape_eq]
  · cases scan rest <;> rfl
  · intro first second third fourth rest' letter_eq
    exact absurd letter_eq not_unit

theorem scan_plain {char : Char} (printable : isControl char = false) (notQuote : char ≠ '"')
    (notBackslash : char ≠ '\\') (rest : List Char) :
    scan (char :: rest) = (scan rest).map fun (pieces, after) => (.char char :: pieces, after) := by
  have accepted : (isControl char || char == '\\') = false := by
    simp [printable, notBackslash]
  rw [scan]
  · simp only [accepted, Bool.false_eq_true, if_false]
    cases scan rest <;> rfl
  · exact notQuote
  · intro first second third fourth rest' char_eq
    exact absurd char_eq notBackslash
  · intro letter rest' char_eq
    exact absurd char_eq notBackslash

theorem not_surrogate (char : Char) :
    isHighSurrogate char.toNat = false ∧ isLowSurrogate char.toNat = false := by
  have valid : char.toNat < 0xD800 ∨ 0xDFFF < char.toNat ∧ char.toNat < 0x110000 := char.valid
  simp only [isHighSurrogate, isLowSurrogate, Bool.and_eq_false_iff, decide_eq_false_iff_not]
  omega

theorem combine_unit (char : Char) (more : List Piece) :
    combine (.unit char.toNat :: more) = (combine more).map (char :: ·) := by
  rcases not_surrogate char with ⟨notHigh, notLow⟩
  rcases more with _ | ⟨piece, more⟩
  · simp [combine, notHigh, notLow]
  · cases piece with
    | char next => simp [combine, notHigh, notLow]
    | unit code => simp [combine, notHigh, notLow]

/-- A spelled character adds pieces of its own, and they stand for it before any others. -/
theorem Spells.scan_append {char : Char} {spelled : List Char} (spells : Spells char spelled) :
    ∃ pieces,
      (∀ rest, scan (spelled ++ rest) =
        (scan rest).map fun (more, after) => (pieces ++ more, after)) ∧
      (∀ more, combine (pieces ++ more) = (combine more).map (char :: ·)) := by
  cases spells with
  | plain printable notQuote notBackslash =>
      exact ⟨[.char char], scan_plain printable notQuote notBackslash, fun more => rfl⟩
  | short escape_eq => exact ⟨[.char char], scan_short escape_eq, fun more => rfl⟩
  | unit unit_eq => exact ⟨[.unit char.toNat], scan_unit unit_eq, combine_unit char⟩
  | @pair _ _ _ _ _ _ _ _ high low high_eq low_eq isHigh isLow =>
      refine ⟨[.unit high, .unit low], ?_, ?_⟩
      · intro rest
        simp only [List.cons_append, List.nil_append, scan_unit high_eq, scan_unit low_eq]
        cases scan rest <;> rfl
      · intro more
        simp [combine, isHigh, isLow]

/-- Reading a spelled string gives it back and stops behind its closing quote. -/
theorem Spelling.scan_closed {chars spelled : List Char} (spelling : Spelling chars spelled)
    (rest : List Char) :
    ∃ pieces, scan (spelled ++ '"' :: rest) = some (pieces, rest) ∧
      combine pieces = some chars := by
  induction spelling with
  | nil => exact ⟨[], rfl, rfl⟩
  | cons first more ih =>
      rcases first.scan_append with ⟨pieces, scan_eq, combine_eq⟩
      rcases ih with ⟨others, scan_rest, combine_rest⟩
      refine ⟨pieces ++ others, ?_, ?_⟩
      · rw [List.append_assoc, scan_eq, scan_rest]
        rfl
      · rw [combine_eq, combine_rest]
        rfl

/-- The characters that have a short escape, each with the letter of it. -/
def shortForms : List (Char × Char) :=
  [('"', '"'), ('\\', '\\'), ('/', '/'), ('\x08', 'b'), ('\x0c', 'f'), ('\n', 'n'), ('\r', 'r'),
    ('\t', 't')]

/-- A hexadecimal digit of a value, in either case. -/
def IsHex (value : Nat) (digit : Char) : Prop :=
  digit = Nat.digitChar value ∨ digit = (Nat.digitChar value).toUpper

instance (value : Nat) : DecidablePred (IsHex value) :=
  fun _ => inferInstanceAs (Decidable (_ ∨ _))

/-- An escape by the number of a UTF-16 unit. -/
inductive UnitForm (code : Nat) : List Char → Prop
  | digits {first second third fourth : Char} (first_hex : IsHex (code / 4096) first)
      (second_hex : IsHex (code / 256 % 16) second) (third_hex : IsHex (code / 16 % 16) third)
      (fourth_hex : IsHex (code % 16) fourth) :
      UnitForm code ['\\', 'u', first, second, third, fourth]

/-- What may stand for a character between quotes: the character, its short escape, or the escapes
of its one or two units. -/
inductive Form (char : Char) : List Char → Prop
  | raw (printable : 0x20 ≤ char.toNat) (notQuote : char ≠ '"') (notBackslash : char ≠ '\\') :
      Form char [char]
  | short {letter : Char} (short_mem : (char, letter) ∈ shortForms) : Form char ['\\', letter]
  | unit {form : List Char} (basic : char.toNat < 0x10000) (escape : UnitForm char.toNat form) :
      Form char form
  | pair {high low : List Char} (beyond : 0x10000 ≤ char.toNat)
      (highForm : UnitForm (0xD800 + (char.toNat - 0x10000) / 0x400) high)
      (lowForm : UnitForm (0xDC00 + (char.toNat - 0x10000) % 0x400) low) :
      Form char (high ++ low)

theorem hexDigit?_of_isHex {value : Nat} {digit : Char} (small : value < 16)
    (hex : IsHex value digit) : hexDigit? digit = some value := by
  have all : ∀ value : Fin 16, hexDigit? (Nat.digitChar value) = some value.val ∧
      hexDigit? (Nat.digitChar value).toUpper = some value.val := by decide
  rcases hex with rfl | rfl
  · exact (all ⟨value, small⟩).1
  · exact (all ⟨value, small⟩).2

theorem UnitForm.unit?_eq {code : Nat} {form : List Char} (escape : UnitForm code form)
    (small : code < 0x10000) :
    ∃ first second third fourth, form = ['\\', 'u', first, second, third, fourth] ∧
      unit? first second third fourth = some code := by
  cases escape with
  | @digits first second third fourth first_hex second_hex third_hex fourth_hex =>
      refine ⟨first, second, third, fourth, rfl, ?_⟩
      simp only [unit?, hexDigit?_of_isHex (by omega) first_hex,
        hexDigit?_of_isHex (by omega) second_hex, hexDigit?_of_isHex (by omega) third_hex,
        hexDigit?_of_isHex (by omega) fourth_hex, Option.bind_eq_bind, Option.bind_some,
        Option.pure_def, Option.some.injEq]
      omega

/-- Reading takes every form of a character for a spelling of it. -/
theorem Form.spells {char : Char} {form : List Char} (isForm : Form char form) :
    Spells char form := by
  cases isForm with
  | raw printable notQuote notBackslash =>
      apply Spells.plain ?_ notQuote notBackslash
      simpa [isControl] using printable
  | short short_mem =>
      have all : ∀ entry ∈ shortForms, shortEscape? entry.2 = some entry.1 := by decide
      exact Spells.short (all _ short_mem)
  | unit basic escape =>
      rcases escape.unit?_eq basic with ⟨first, second, third, fourth, rfl, unit_eq⟩
      exact Spells.unit unit_eq
  | pair beyond highForm lowForm =>
      have valid : char.toNat < 0xD800 ∨ 0xDFFF < char.toNat ∧ char.toNat < 0x110000 := char.valid
      rcases highForm.unit?_eq (by omega) with ⟨_, _, _, _, rfl, high_eq⟩
      rcases lowForm.unit?_eq (by omega) with ⟨_, _, _, _, rfl, low_eq⟩
      have spells := Spells.pair high_eq low_eq (by simp [isHighSurrogate]; omega)
        (by simp [isLowSurrogate]; omega)
      have paired : pairedChar (0xD800 + (char.toNat - 0x10000) / 0x400)
          (0xDC00 + (char.toNat - 0x10000) % 0x400) = char := by
        have code_eq : 0x10000 + (0xD800 + (char.toNat - 0x10000) / 0x400 - 0xD800) * 0x400 +
            (0xDC00 + (char.toNat - 0x10000) % 0x400 - 0xDC00) = char.toNat := by omega
        rw [pairedChar, code_eq, Char.ofNat_toNat]
      rwa [paired] at spells

theorem form_unitEscape {char : Char} (small : char.toNat < 0x10000) :
    Form char (unitEscape char.toNat) := by
  apply Form.unit small
  apply UnitForm.digits
  · left
    rw [Nat.mod_eq_of_lt (by omega)]
  all_goals exact Or.inl rfl

/-- Writing uses one of the forms. -/
theorem form_escape (char : Char) : Form char (escape char) := by
  unfold escape
  split
  case h_8 notQuote notBackslash _ _ _ _ _ =>
    split
    · rename_i control
      apply form_unitEscape
      simp only [isControl, decide_eq_true_eq] at control
      omega
    · rename_i printable
      exact Form.raw (by simpa [isControl] using printable) notQuote notBackslash
  all_goals exact Form.short (by decide)

theorem spelling_flatMap_escape (chars : List Char) : Spelling chars (chars.flatMap escape) := by
  induction chars with
  | nil => exact Spelling.nil
  | cons char rest ih => exact Spelling.cons (form_escape char).spells ih

/-- A written string is read back behind its opening quote. -/
theorem scan_write (text : String) (rest : List Char) :
    ∃ pieces, scan (text.toList.flatMap escape ++ '"' :: rest) = some (pieces, rest) ∧
      text? pieces = some text := by
  rcases (spelling_flatMap_escape text.toList).scan_closed rest with ⟨pieces, scan_eq, combine_eq⟩
  exact ⟨pieces, scan_eq, by rw [text?, combine_eq, Option.map_some, String.ofList_toList]⟩

end ProtoSchema.Literal
