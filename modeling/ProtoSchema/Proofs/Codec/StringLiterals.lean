import Mathlib.Data.List.Forall2
import ProtoSchema.Proofs.Codec.RoundTrip
import ProtoSchema.Proofs.Json.Composition
import ProtoSchema.Proofs.Text.UniqueReading

/-!
# String literals

Whichever form each of its characters takes, a string between quotes is read back, and reading stops
behind the closing quote. No form holds a control character, or a quote that no backslash escapes.
Writing picks one of the forms, and all else that it writes are numbers, words and brackets, so the
text of a value is one line: `Literal.forms_read_back`.
-/

namespace ProtoSchema

namespace Text

/-- Free of control characters. -/
def Printable (text : List Char) : Prop :=
  ∀ char ∈ text, 0x20 ≤ char.toNat

instance : DecidablePred Printable :=
  fun text => List.decidableBAll (fun char : Char => 0x20 ≤ char.toNat) text

/-- Whether a text holds a quote that no backslash escapes. -/
def hasBareQuote : List Char → Bool
  | [] => false
  | '\\' :: _ :: rest => hasBareQuote rest
  | char :: rest => char == '"' || hasBareQuote rest

variable {char : Char} {text rest : List Char}

theorem printable_append : Printable (text ++ rest) ↔ Printable text ∧ Printable rest :=
  List.forall_mem_append

theorem printable_cons : Printable (char :: rest) ↔ 0x20 ≤ char.toNat ∧ Printable rest :=
  List.forall_mem_cons

theorem printable_intRepr (integer : Int) : Printable (Int.repr integer).toList := by
  intro char char_mem
  by_cases sign : char = '-'
  · rw [sign]
    decide
  · have digit : char.isDigit = true := by
      by_contra notDigit
      exact notMem_intRepr (by simpa using notDigit) sign integer char_mem
    have lower : '0'.toNat ≤ char.toNat := by
      simp only [Char.isDigit, Bool.and_eq_true, decide_eq_true_eq] at digit
      exact digit.1
    exact Nat.le_trans (show 0x20 ≤ '0'.toNat by decide) lower

theorem hasBareQuote_plain (notQuote : char ≠ '"') (notBackslash : char ≠ '\\') :
    hasBareQuote (char :: rest) = hasBareQuote rest := by
  rw [hasBareQuote]
  · simp [notQuote]
  · intro _ _ backslash
    exact absurd backslash notBackslash

/-- A text without control characters is one line. -/
theorem charLines_of_printable (nonempty : text ≠ []) (printable : Printable text) :
    charLines text = [text] := by
  induction text with
  | nil => exact absurd rfl nonempty
  | cons char rest ih =>
      rw [printable_cons] at printable
      have notControl : ∀ control : Char, control.toNat < 0x20 → char ≠ control := by
        rintro control below rfl
        omega
      rw [charLines]
      · by_cases last : rest = []
        · subst last
          rfl
        · rw [ih last printable.2]
      · exact notControl '\n' (by decide)
      · intro _ isReturn
        exact absurd isReturn (notControl '\r' (by decide))

end Text

namespace Literal

open Text

theorem IsHex.visible {value : Nat} {digit : Char} (small : value < 16) (hex : IsHex value digit) :
    0x20 ≤ digit.toNat ∧ digit ≠ '"' ∧ digit ≠ '\\' := by
  let visible : Char → Prop := fun digit => 0x20 ≤ digit.toNat ∧ digit ≠ '"' ∧ digit ≠ '\\'
  have all : ∀ value : Fin 16,
      visible (Nat.digitChar value) ∧ visible (Nat.digitChar value).toUpper := by decide
  rcases hex with rfl | rfl
  · exact (all ⟨value, small⟩).1
  · exact (all ⟨value, small⟩).2

variable {char : Char} {form : List Char}

theorem UnitForm.printable {code : Nat} (escape : UnitForm code form) (small : code < 0x10000) :
    Printable form := by
  cases escape with
  | digits first_hex second_hex third_hex fourth_hex =>
      simp only [printable_cons]
      refine ⟨by decide, by decide, ?_, ?_, ?_, ?_, by decide⟩
      · exact (first_hex.visible (by omega)).1
      · exact (second_hex.visible (by omega)).1
      · exact (third_hex.visible (by omega)).1
      · exact (fourth_hex.visible (by omega)).1

theorem UnitForm.hasBareQuote_append {code : Nat} (escape : UnitForm code form)
    (small : code < 0x10000) (rest : List Char) :
    hasBareQuote (form ++ rest) = hasBareQuote rest := by
  cases escape with
  | digits first_hex second_hex third_hex fourth_hex =>
      have first_plain := (first_hex.visible (by omega)).2
      have second_plain := (second_hex.visible (by omega)).2
      have third_plain := (third_hex.visible (by omega)).2
      have fourth_plain := (fourth_hex.visible (by omega)).2
      simp only [List.cons_append, List.nil_append, hasBareQuote]
      rw [hasBareQuote_plain first_plain.1 first_plain.2,
        hasBareQuote_plain second_plain.1 second_plain.2,
        hasBareQuote_plain third_plain.1 third_plain.2,
        hasBareQuote_plain fourth_plain.1 fourth_plain.2]

theorem Form.units_small (beyond : 0x10000 ≤ char.toNat) :
    0xD800 + (char.toNat - 0x10000) / 0x400 < 0x10000 ∧
      0xDC00 + (char.toNat - 0x10000) % 0x400 < 0x10000 := by
  have valid : char.toNat < 0xD800 ∨ 0xDFFF < char.toNat ∧ char.toNat < 0x110000 := char.valid
  omega

theorem Form.printable (isForm : Form char form) : Printable form := by
  cases isForm with
  | raw printable _ _ => simpa [Printable] using printable
  | short short_mem =>
      have all : ∀ entry ∈ shortForms, Printable ['\\', entry.2] := by decide
      exact all _ short_mem
  | unit basic escape => exact escape.printable basic
  | pair beyond highForm lowForm =>
      have small := Form.units_small beyond
      rw [printable_append]
      exact ⟨highForm.printable small.1, lowForm.printable small.2⟩

theorem Form.hasBareQuote_append (isForm : Form char form) (rest : List Char) :
    hasBareQuote (form ++ rest) = hasBareQuote rest := by
  cases isForm with
  | raw _ notQuote notBackslash => exact hasBareQuote_plain notQuote notBackslash
  | short _ => rfl
  | unit basic escape => exact escape.hasBareQuote_append basic rest
  | pair beyond highForm lowForm =>
      have small := Form.units_small beyond
      rw [List.append_assoc, highForm.hasBareQuote_append small.1,
        lowForm.hasBareQuote_append small.2]

variable {chars : List Char} {forms : List (List Char)}

theorem spelling_flatten (isForms : List.Forall₂ Form chars forms) :
    Spelling chars forms.flatten := by
  induction isForms with
  | nil => exact Spelling.nil
  | cons isForm _ ih => exact Spelling.cons isForm.spells ih

theorem printable_flatten (isForms : List.Forall₂ Form chars forms) : Printable forms.flatten := by
  induction isForms with
  | nil => simp [Printable]
  | cons isForm _ ih =>
      rw [List.flatten_cons, printable_append]
      exact ⟨isForm.printable, ih⟩

theorem hasBareQuote_flatten (isForms : List.Forall₂ Form chars forms) :
    hasBareQuote forms.flatten = false := by
  induction isForms with
  | nil => rfl
  | cons isForm _ ih => rw [List.flatten_cons, isForm.hasBareQuote_append, ih]

theorem forms_escape (chars : List Char) : List.Forall₂ Form chars (chars.map escape) := by
  induction chars with
  | nil => exact List.Forall₂.nil
  | cons char rest ih => exact List.Forall₂.cons (form_escape char) ih

theorem write_eq_forms (chars : List Char) :
    write chars = '"' :: ((chars.map escape).flatten ++ ['"']) := by
  rw [write, List.flatMap_def, List.cons_append]

theorem printable_write (chars : List Char) : Printable (write chars) := by
  rw [write_eq_forms, printable_cons, printable_append]
  exact ⟨by decide, printable_flatten (forms_escape chars), by decide⟩

end Literal

namespace Json

open Text

mutual

theorem printable_chars (json : Json) : Printable json.chars := by
  match json with
  | null => decide
  | bool true => decide
  | bool false => decide
  | int value => exact printable_intRepr value
  | str value => exact Literal.printable_write value.toList
  | arr items =>
      rw [chars, List.cons_append, printable_cons, printable_append]
      exact ⟨by decide, printable_itemChars items, by decide⟩
  | obj members =>
      rw [chars, List.cons_append, printable_cons, printable_append]
      exact ⟨by decide, printable_memberChars members, by decide⟩

theorem printable_itemChars (items : List Json) : Printable (itemChars items) := by
  match items with
  | [] => simp [Printable, itemChars]
  | [item] => exact printable_chars item
  | item :: next :: rest =>
      rw [itemChars, printable_append, printable_cons]
      · exact ⟨printable_chars item, by decide, printable_itemChars (next :: rest)⟩
      · simp

theorem printable_memberChars (members : List (String × Json)) :
    Printable (memberChars members) := by
  match members with
  | [] => simp [Printable, memberChars]
  | [(name, value)] =>
      rw [memberChars, printable_append, printable_cons]
      exact ⟨Literal.printable_write name.toList, by decide, printable_chars value⟩
  | (name, value) :: next :: rest =>
      rw [memberChars, printable_append, printable_append, printable_cons, printable_cons]
      · exact ⟨⟨Literal.printable_write name.toList, by decide, printable_chars value⟩, by decide,
          printable_memberChars (next :: rest)⟩
      · simp

end

theorem lines_render (json : Json) : Text.lines json.render = [json.render] := by
  have nonempty : json.chars ≠ [] := by
    rcases Doc.chars_eq_cons json with ⟨char, more, chars_eq, -⟩
    simp [chars_eq]
  rw [Text.lines, render, String.toList_ofList,
    charLines_of_printable nonempty json.printable_chars, List.map_singleton]

end Json

namespace Literal

open Text

theorem scan_forms {text : String} {forms : List (List Char)}
    (isForms : List.Forall₂ Form text.toList forms) (rest : List Char) :
    ∃ pieces, scan (forms.flatten ++ '"' :: rest) = some (pieces, rest) ∧
      text? pieces = some text := by
  rcases (spelling_flatten isForms).scan_closed rest with ⟨pieces, scan_eq, combine_eq⟩
  refine ⟨pieces, scan_eq, ?_⟩
  rw [text?, combine_eq, Option.map_some, String.ofList_toList]

theorem scanDoc_forms {text : String} {forms : List (List Char)}
    (isForms : List.Forall₂ Form text.toList forms) (rest : List Char) (bound : Nat) :
    Doc.scan (bound + 1) ('"' :: (forms.flatten ++ '"' :: rest)) =
      (.str (some text), some rest) := by
  rcases scan_forms isForms rest with ⟨pieces, scan_eq, text_eq⟩
  rw [Doc.scan, Doc.skipBlanks_cons (by decide)]
  simp only [Doc.scanString, scan_eq, text_eq]

/-- A string in any forms of its characters is read back, as a piece of a text that goes on and as
the text of a package, and nothing behind the closing quote is touched. The forms in which a string
is written hold no control characters and no bare quotes, and what is written for a value of any
kind is one line without control characters. -/
theorem forms_read_back (text : String) (forms : List (List Char))
    (isForms : List.Forall₂ Form text.toList forms) (rest : List Char) :
    ((∃ pieces, scan (forms.flatten ++ '"' :: rest) = some (pieces, rest) ∧
        text? pieces = some text) ∧
      (∀ bound, Doc.scan (bound + 1) ('"' :: (forms.flatten ++ '"' :: rest)) =
        (.str (some text), some rest)) ∧
      Kind.package.read (String.ofList ('"' :: (forms.flatten ++ ['"']))) = .ok ⟨text⟩) ∧
    (∀ other : String, ∃ written : List (List Char), List.Forall₂ Form other.toList written ∧
      write other.toList = '"' :: (written.flatten ++ ['"']) ∧
      Printable written.flatten ∧ hasBareQuote written.flatten = false) ∧
    ∀ (kind : Kind) (value : kind.Value), Printable (kind.write value).toList ∧
      Text.lines (kind.write value) = [kind.write value] := by
  refine ⟨⟨scan_forms isForms rest, scanDoc_forms isForms rest, ?_⟩, ?_, ?_⟩
  · have document : Document.ofText (String.ofList ('"' :: (forms.flatten ++ ['"']))) =
        ⟨.str (some text), true⟩ :=
      Document.ofText_of_scan String.toList_ofList (scanDoc_forms isForms [] _)
    rw [Kind.read, Decoder.ofText, document]
    rfl
  · intro other
    have written := forms_escape other.toList
    exact ⟨_, written, write_eq_forms _, printable_flatten written, hasBareQuote_flatten written⟩
  · intro kind value
    refine ⟨?_, Json.lines_render _⟩
    rw [Kind.write, Json.render, String.toList_ofList]
    exact Json.printable_chars _

/-- A raw letter, a short escape, a quote and an astral character by their numbers, and a slash by
its escape, with digits of either case, before a text that goes on with a quote. -/
theorem forms_read_back_mixed :
    Doc.scan 1 "\"é\\n\\u0022\\uD83d\\udE00\\/\"\"".toList = (.str (some "é\n\"😀/"), some ['"']) ∧
      Kind.package.read "\"é\\n\\u0022\\uD83d\\udE00\\/\"" = .ok ⟨"é\n\"😀/"⟩ := by
  have quote : Form '"' ['\\', 'u', '0', '0', '2', '2'] := by
    apply Form.unit (by decide)
    apply UnitForm.digits <;> decide
  have face : Form '😀' (['\\', 'u', 'D', '8', '3', 'd'] ++ ['\\', 'u', 'd', 'E', '0', '0']) := by
    apply Form.pair (by decide)
    · apply UnitForm.digits <;> decide
    · apply UnitForm.digits <;> decide
  have isForms : List.Forall₂ Form "é\n\"😀/".toList [['é'], ['\\', 'n'],
      ['\\', 'u', '0', '0', '2', '2'],
      ['\\', 'u', 'D', '8', '3', 'd'] ++ ['\\', 'u', 'd', 'E', '0', '0'], ['\\', '/']] :=
    .cons (.raw (by decide) (by decide) (by decide)) (.cons (.short (by decide))
      (.cons quote (.cons face (.cons (.short (by decide)) .nil))))
  have read_back := forms_read_back "é\n\"😀/" _ isForms ['"']
  exact ⟨read_back.1.2.1 0, read_back.1.2.2⟩

end Literal

end ProtoSchema
