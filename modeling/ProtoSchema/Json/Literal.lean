/-!
# String literals

How a string is spelled between quotes. Writing escapes the quote, the backslash and the control
characters, and nothing else. Reading accepts every spelling: a character may stand for itself, or
be written by a short escape, or by the hexadecimal number of its UTF-16 unit, where a character
beyond the basic plane takes two units, a high and a low surrogate.

Reading goes in two steps. `scan` finds the end of the literal and the pieces it is made of, and
`combine` puts the pieces together, which fails at a surrogate without its partner. The steps are
apart because the first alone decides where the literal ends.
-/

namespace ProtoSchema.Literal

/-- Whether a character must not stand in a literal as it is: the controls below the space. -/
def isControl (char : Char) : Bool :=
  char.toNat < 0x20

/-- The escape that spells a character by four hexadecimal digits. -/
def unitEscape (code : Nat) : List Char :=
  ['\\', 'u', Nat.digitChar (code / 4096 % 16), Nat.digitChar (code / 256 % 16),
    Nat.digitChar (code / 16 % 16), Nat.digitChar (code % 16)]

/-- How a character is written. -/
def escape (char : Char) : List Char :=
  match char with
  | '"' => ['\\', '"']
  | '\\' => ['\\', '\\']
  | '\x08' => ['\\', 'b']
  | '\t' => ['\\', 't']
  | '\n' => ['\\', 'n']
  | '\x0c' => ['\\', 'f']
  | '\r' => ['\\', 'r']
  | char => if isControl char then unitEscape char.toNat else [char]

/-- How a string is written, with its quotes. -/
def write (text : List Char) : List Char :=
  '"' :: text.flatMap escape ++ ['"']

/-- A piece of a literal: a character, or a UTF-16 unit given by its number. -/
inductive Piece
  | char (char : Char)
  | unit (code : Nat)
  deriving DecidableEq, Repr, Inhabited

/-- The character that a one-letter escape stands for. -/
def shortEscape? : Char → Option Char
  | '"' => some '"'
  | '\\' => some '\\'
  | '/' => some '/'
  | 'b' => some '\x08'
  | 'f' => some '\x0c'
  | 'n' => some '\n'
  | 'r' => some '\r'
  | 't' => some '\t'
  | _ => none

/-- The value of a hexadecimal digit of either case. -/
def hexDigit? (char : Char) : Option Nat :=
  if '0' ≤ char ∧ char ≤ '9' then some (char.toNat - '0'.toNat)
  else if 'a' ≤ char ∧ char ≤ 'f' then some (char.toNat - 'a'.toNat + 10)
  else if 'A' ≤ char ∧ char ≤ 'F' then some (char.toNat - 'A'.toNat + 10)
  else none

/-- The number that four hexadecimal digits spell. -/
def unit? (first second third fourth : Char) : Option Nat := do
  let first ← hexDigit? first
  let second ← hexDigit? second
  let third ← hexDigit? third
  let fourth ← hexDigit? fourth
  return ((first * 16 + second) * 16 + third) * 16 + fourth

/-- The pieces of a literal whose opening quote has been read, and what follows its closing
quote. -/
def scan : List Char → Option (List Piece × List Char)
  | [] => none
  | '"' :: rest => some ([], rest)
  | '\\' :: 'u' :: first :: second :: third :: fourth :: rest =>
    match unit? first second third fourth, scan rest with
    | some code, some (pieces, rest) => some (.unit code :: pieces, rest)
    | _, _ => none
  | '\\' :: letter :: rest =>
    match shortEscape? letter, scan rest with
    | some char, some (pieces, rest) => some (.char char :: pieces, rest)
    | _, _ => none
  | char :: rest =>
    if isControl char || char == '\\' then
      none
    else
      match scan rest with
      | some (pieces, rest) => some (.char char :: pieces, rest)
      | none => none

/-- Whether a unit is the first half of a pair. -/
def isHighSurrogate (code : Nat) : Bool :=
  0xD800 ≤ code && code ≤ 0xDBFF

/-- Whether a unit is the second half of a pair. -/
def isLowSurrogate (code : Nat) : Bool :=
  0xDC00 ≤ code && code ≤ 0xDFFF

/-- The character that a pair of surrogates stands for. -/
def pairedChar (high low : Nat) : Char :=
  Char.ofNat (0x10000 + (high - 0xD800) * 0x400 + (low - 0xDC00))

/-- The characters that pieces stand for, unless a surrogate lacks its partner. -/
def combine : List Piece → Option (List Char)
  | [] => some []
  | .char char :: rest => (combine rest).map (char :: ·)
  | .unit high :: .unit low :: rest =>
    if isHighSurrogate high then
      if isLowSurrogate low then (combine rest).map (pairedChar high low :: ·) else none
    else if isLowSurrogate high then
      none
    else
      (combine (.unit low :: rest)).map (Char.ofNat high :: ·)
  | .unit code :: rest =>
    if isHighSurrogate code || isLowSurrogate code then none
    else (combine rest).map (Char.ofNat code :: ·)

/-- The string that pieces stand for, unless a surrogate lacks its partner. -/
def text? (pieces : List Piece) : Option String :=
  (combine pieces).map String.ofList

end ProtoSchema.Literal
