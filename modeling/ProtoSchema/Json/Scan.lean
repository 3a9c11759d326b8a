import ProtoSchema.Json.Doc

/-!
# From text to documents

Each scanning function takes the text that is left and answers with what it found and the text that
follows, or with no text once a fault was met: what stands behind a fault is never looked at.

The functions are bounded by a number that each step reduces by one. Of any two successive steps
one consumes a character, so a bound above twice the length of the text is never reached, and
`Document.ofText` supplies such a bound.
-/

namespace ProtoSchema

namespace Doc

/-- Whether a character may stand between the tokens of a text. -/
def isBlank (char : Char) : Bool :=
  char == ' ' || char == '\t' || char == '\n' || char == '\r'

/-- The text from its first character that is not blank. -/
def skipBlanks (text : List Char) : List Char :=
  text.dropWhile isBlank

/-- A number, which may be malformed. -/
def scanNumber (text : List Char) : Doc × Option (List Char) :=
  match Numeral.scan text with
  | some (numeral, rest) => (.number numeral.number, some rest)
  | none => (.fault, none)

/-- A string whose opening quote has been read. -/
def scanString (text : List Char) : Doc × Option (List Char) :=
  match Literal.scan text with
  | some (pieces, rest) => (.str (Literal.text? pieces), some rest)
  | none => (.fault, none)

mutual

/-- The value at the front of a text. -/
def scan : Nat → List Char → Doc × Option (List Char)
  | 0, _ => (.fault, none)
  | bound + 1, text =>
    match skipBlanks text with
    | [] => (.fault, none)
    | 'n' :: 'u' :: 'l' :: 'l' :: rest => (.null, some rest)
    | 't' :: 'r' :: 'u' :: 'e' :: rest => (.bool true, some rest)
    | 'f' :: 'a' :: 'l' :: 's' :: 'e' :: rest => (.bool false, some rest)
    | '"' :: rest => scanString rest
    | '[' :: rest =>
      match skipBlanks rest with
      | ']' :: rest => (.arr [] .closed, some rest)
      | rest =>
        let (items, ending, rest) := scanItems bound rest
        (.arr items ending, rest)
    | '\x7b' :: rest =>
      match skipBlanks rest with
      | '\x7d' :: rest => (.obj [] .closed, some rest)
      | rest =>
        let (members, ending, rest) := scanMembers bound rest
        (.obj members ending, rest)
    | char :: rest =>
      if char == '-' || char.isDigit then scanNumber (char :: rest) else (.fault, none)

/-- The items of an array that has at least one, up to its end or its first fault. -/
def scanItems : Nat → List Char → List Doc × Ending × Option (List Char)
  | 0, _ => ([], .broken, none)
  | bound + 1, text =>
    match scan bound text with
    | (item, none) => ([item], .broken, none)
    | (item, some rest) =>
      match skipBlanks rest with
      | ']' :: rest => ([item], .closed, some rest)
      | ',' :: rest =>
        let (items, ending, rest) := scanItems bound rest
        (item :: items, ending, rest)
      | _ => ([item], .broken, none)

/-- The members of an object that has at least one, up to its end or its first fault. -/
def scanMembers : Nat → List Char → List (Option String × Doc) × Ending × Option (List Char)
  | 0, _ => ([], .broken, none)
  | bound + 1, text =>
    match skipBlanks text with
    | '"' :: rest =>
      match Literal.scan rest with
      | none => ([], .broken, none)
      | some (pieces, rest) =>
        match skipBlanks rest with
        | ':' :: rest =>
          match scan bound rest with
          | (value, none) => ([(Literal.text? pieces, value)], .broken, none)
          | (value, some rest) =>
            match skipBlanks rest with
            | '\x7d' :: rest => ([(Literal.text? pieces, value)], .closed, some rest)
            | ',' :: rest =>
              let (members, ending, rest) := scanMembers bound rest
              ((Literal.text? pieces, value) :: members, ending, rest)
            | _ => ([(Literal.text? pieces, value)], .broken, none)
        | _ => ([(Literal.text? pieces, .fault)], .broken, none)
    -- No name stands here, so there is no member that a reader could take up.
    | _ => ([], .broken, none)

end

end Doc

/-- A whole text: the document it holds, and whether nothing follows it. -/
structure Document where
  root : Doc
  complete : Bool
  deriving Repr, Inhabited

/-- Reads a text as a document. -/
def Document.ofText (text : String) : Document :=
  match Doc.scan (2 * text.toList.length + 1) text.toList with
  | (root, none) => ⟨root, false⟩
  | (root, some rest) => ⟨root, (Doc.skipBlanks rest).isEmpty⟩

end ProtoSchema
