/-!
# Text as bytes

Output is a sequence of bytes, and text reaches it in UTF-8. `bytes` encodes, `decode?` reads back
a sequence that is valid as a whole, and `decodeLossy` reads any sequence. Bytes that begin like a
character and break off are replaced together: as many of them as could still have become a
character give one replacement character.
-/

namespace ProtoSchema.Text

/-- The byte that ends a line. -/
def newline : UInt8 := 10

/-- The byte that indents. -/
def space : UInt8 := 32

/-- The UTF-8 encoding of a text. -/
def bytes (text : String) : List UInt8 :=
  text.toList.flatMap String.utf8EncodeChar

/-- The text that a byte sequence encodes, if it is valid UTF-8. -/
def decode? (content : List UInt8) : Option String :=
  String.fromUTF8? content.toByteArray

/-- The character that stands for bytes that encode none. -/
def replacement : Char := '\uFFFD'

/-- The character that starts at the head of a byte sequence. -/
def headChar? (content : List UInt8) : Option Char :=
  (content.take 4).toByteArray.utf8DecodeChar? 0

/-- What a character of several bytes owes after its first byte. -/
structure Continuation where
  /-- The least byte that may come second. -/
  least : UInt8 := 0x80
  /-- The greatest byte that may come second. -/
  greatest : UInt8 := 0xBF
  /-- How many bytes come after the second. -/
  more : Nat
  deriving DecidableEq, Repr

/-- What is owed after a byte that starts a character of several bytes. The bounds of the second
byte leave out overlong forms, surrogates and what lies beyond the last code point. -/
def continuation? (first : UInt8) : Option Continuation :=
  if 0xC2 ≤ first ∧ first ≤ 0xDF then some { more := 0 }
  else if first = 0xE0 then some { least := 0xA0, more := 1 }
  else if first = 0xED then some { greatest := 0x9F, more := 1 }
  else if 0xE1 ≤ first ∧ first ≤ 0xEF then some { more := 1 }
  else if first = 0xF0 then some { least := 0x90, more := 2 }
  else if 0xF1 ≤ first ∧ first ≤ 0xF3 then some { more := 2 }
  else if first = 0xF4 then some { greatest := 0x8F, more := 2 }
  else none

/-- How many bytes after `first` belong to the same broken character: those that could still have
become one, up to the byte that rules it out. -/
def brokenOff (first : UInt8) (rest : List UInt8) : Nat :=
  match continuation? first, rest with
  | some owed, second :: rest =>
    if owed.least ≤ second ∧ second ≤ owed.greatest then
      1 + ((rest.take owed.more).takeWhile fun byte => 0x80 ≤ byte ∧ byte ≤ 0xBF).length
    else
      0
  | _, _ => 0

/-- The characters of a byte sequence, with the replacement character for each longest run of bytes
that begins like a character and is none. The first argument bounds the number of characters. -/
def lossyChars : Nat → List UInt8 → List Char
  | 0, _ => []
  | _ + 1, [] => []
  | bound + 1, byte :: rest =>
    match headChar? (byte :: rest) with
    | some char => char :: lossyChars bound ((byte :: rest).drop char.utf8Size)
    | none => replacement :: lossyChars bound (rest.drop (brokenOff byte rest))

/-- The text of a byte sequence, with the replacement character where it is not valid UTF-8. A
character takes at least one byte, so the number of bytes bounds the number of characters. -/
def decodeLossy (content : List UInt8) : String :=
  String.ofList (lossyChars content.length content)

@[simp]
theorem bytes_append (left right : String) :
    bytes (left ++ right) = bytes left ++ bytes right := by
  simp [bytes]

end ProtoSchema.Text
