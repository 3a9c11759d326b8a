import ProtoSchema.Json.Double

/-!
# Number literals

A literal is a sign, an integer part without a needless leading zero, and perhaps a fraction and an
exponent. What counts is which of three kinds it is:

* an integer, if it has neither fraction nor exponent, is not `-0`, and fits into 64 bits, signed if
  it has a sign and unsigned if not;
* any other number that is not too great for a double;
* a literal that is too great for a double, and is no number at all.

A literal is read into a double with limited effort: its leading digits are collected for as long
as they fit into 64 bits, and the rounded collection is multiplied or divided by the rounded power
of ten that is left.
-/

namespace ProtoSchema

/-- A number literal. -/
structure Numeral where
  /-- Whether there is a minus sign. -/
  negative : Bool
  /-- The digits of the integer part. -/
  whole : List Nat
  /-- The digits of the fraction, if there is one. -/
  fraction : Option (List Nat)
  /-- The exponent, if there is one. -/
  exponent : Option Int
  deriving DecidableEq, Repr, Inhabited

/-- What a number literal stands for. -/
inductive Number
  /-- An integer of 64 bits. -/
  | integer (value : Int)
  /-- Any other number, as the double it is read into. -/
  | fractional (value : Double)
  /-- Nothing, since it is too great for a double. -/
  | overflow
  deriving DecidableEq, Repr, Inhabited

namespace Numeral

/-- The digits at the front of a text, and what follows them. -/
def digits (text : List Char) : List Nat × List Char :=
  ((text.takeWhile Char.isDigit).map (fun digit => digit.toNat - '0'.toNat),
    text.dropWhile Char.isDigit)

/-- The number that decimal digits spell. -/
def value (digits : List Nat) : Nat :=
  digits.foldl (fun number digit => number * 10 + digit) 0

/-- An integer part is not empty, and starts with a zero only if it is one. -/
def isWhole : List Nat → Bool
  | [] => false
  | [_] => true
  | first :: _ => first != 0

/-- The fraction at the front of a text, if a point announces one. Fails if there is a point
without a digit behind it. -/
def scanFraction : List Char → Option (Option (List Nat) × List Char)
  | '.' :: text =>
    match digits text with
    | ([], _) => none
    | (digits, rest) => some (some digits, rest)
  | text => some (none, text)

/-- The digits of an exponent, under its sign. -/
def scanExponentDigits (negative : Bool) (text : List Char) :
    Option (Option Int × List Char) :=
  match digits text with
  | ([], _) => none
  | (digits, rest) => some (some (if negative then -(value digits : Int) else value digits), rest)

/-- The exponent behind its letter. -/
def scanExponentBody : List Char → Option (Option Int × List Char)
  | '+' :: text => scanExponentDigits false text
  | '-' :: text => scanExponentDigits true text
  | text => scanExponentDigits false text

/-- The exponent at the front of a text, if a letter announces one. Fails if there is a letter
without a digit behind it. -/
def scanExponent : List Char → Option (Option Int × List Char)
  | 'e' :: text => scanExponentBody text
  | 'E' :: text => scanExponentBody text
  | text => some (none, text)

/-- The rest of a literal behind its sign. -/
def scanUnsigned (negative : Bool) (text : List Char) : Option (Numeral × List Char) := do
  let (whole, text) := digits text
  guard (isWhole whole)
  let (fraction, text) ← scanFraction text
  let (exponent, text) ← scanExponent text
  return (⟨negative, whole, fraction, exponent⟩, text)

/-- The literal at the front of a text, and what follows it. -/
def scan : List Char → Option (Numeral × List Char)
  | '-' :: text => scanUnsigned true text
  | text => scanUnsigned false text

/-- The greatest unsigned integer of 64 bits. -/
def maxUnsigned : Nat := 18446744073709551615

/-- The greatest absolute value of a signed integer of 64 bits. -/
def maxNegated : Nat := 9223372036854775808

/-- Appends digits to a number for as long as it fits into 64 bits; also answers how many digits
are left. -/
def absorb (number : Nat) : List Nat → Nat × Nat
  | [] => (number, 0)
  | digit :: rest =>
    if number * 10 + digit ≤ maxUnsigned then
      absorb (number * 10 + digit) rest
    else
      (number, rest.length + 1)

/-- The collected leading digits of a literal, and the power of ten that belongs to them. -/
def scaled (numeral : Numeral) : Nat × Int :=
  -- A digit of the integer part that is left out still counts as a factor of ten.
  let (leading, unread) := absorb 0 numeral.whole
  let fraction := numeral.fraction.getD []
  -- A digit of the fraction that is left out counts for nothing.
  let (leading, ignored) := absorb leading fraction
  (leading, unread - (fraction.length - ignored : Nat) + numeral.exponent.getD 0)

/-- The double that a literal is read into, if it is not too great for one. -/
def double? (numeral : Numeral) : Option Double :=
  let (leading, power) := numeral.scaled
  Double.ofScaled? numeral.negative leading power

/-- The integer that a literal stands for, if it is one. -/
def integer? (numeral : Numeral) : Option Int :=
  let magnitude := value numeral.whole
  if numeral.fraction.isSome || numeral.exponent.isSome then none
  else if numeral.negative then
    if magnitude = 0 ∨ maxNegated < magnitude then none else some (-magnitude)
  else
    if maxUnsigned < magnitude then none else some magnitude

/-- What a literal stands for. -/
def number (numeral : Numeral) : Number :=
  match numeral.integer? with
  | some value => .integer value
  | none =>
    match numeral.double? with
    | some value => .fractional value
    | none => .overflow

end Numeral

end ProtoSchema
