/-!
# Doubles

A number that is not an integer is kept as a double. All finite doubles are multiples of the least
one above zero, so a double is a sign and a number of such units, of which only the leading 53
binary digits count. A fraction is rounded to the nearest double, a half to the even neighbour, and
there is none for a fraction that is too great.

A double is shown by as few decimal digits as are rounded to it again, and by the nearest such
digits if there is a choice. They stand around a decimal point if that is not far away, and else
in front of a power of ten.
-/

namespace ProtoSchema

/-- A finite double. -/
structure Double where
  /-- Whether it has a minus sign. Zero may have one, too. -/
  negative : Bool
  /-- The absolute value, counted in units of the least double above zero. -/
  units : Nat
  deriving DecidableEq, Repr, Inhabited

namespace Double

/-- The number of binary places behind the point: the unit is two to the power of minus this. -/
def places : Nat := 1074

/-- The number of binary digits in front of the point. -/
def digitsInFront : Nat := 1024

/-- The number of binary digits that count. -/
def precision : Nat := 53

/-- How many of the last binary digits of a number are too many to count. -/
def spare (number : Nat) : Nat :=
  number.log2 + 1 - precision

/-- A fraction rounded to an integer, a half to the even one. -/
def roundQuotient (numerator denominator : Nat) : Nat :=
  let quotient := numerator / denominator
  let remainder := numerator % denominator
  let up := denominator < 2 * remainder ∨ (denominator = 2 * remainder ∧ quotient % 2 = 1)
  if up then quotient + 1 else quotient

/-- The double nearest to a fraction, if the fraction is not too great for one. -/
def ofRatio? (negative : Bool) (numerator denominator : Nat) : Option Double :=
  let scaled := numerator <<< places
  let spare := spare (scaled / denominator)
  let units := roundQuotient scaled (denominator <<< spare) <<< spare
  if units < 1 <<< (digitsInFront + places) then some ⟨negative, units⟩ else none

/-- The greatest exponent of a power of ten that is not too great for a double. -/
def maxPower : Nat := 308

/-- The double nearest to a power of ten, up to the greatest one. -/
def powerOfTen? (power : Nat) : Option Double :=
  if power ≤ maxPower then ofRatio? false (Nat.pow 10 power) 1 else none

/-- The product with a power of ten, if that and the product are not too great. -/
def timesPower? (value : Double) (power : Nat) : Option Double := do
  let factor ← powerOfTen? power
  ofRatio? value.negative (value.units * factor.units) (1 <<< (2 * places))

/-- The quotient by a power of ten that is not too great for a double. -/
def overPower? (value : Double) (power : Nat) : Option Double := do
  let divisor ← powerOfTen? power
  ofRatio? value.negative value.units divisor.units

/-- The quotient by `steps` greatest powers of ten and another one, rounded after each. -/
def overPowers? (value : Double) : (steps power : Nat) → Option Double
  | 0, power => value.overPower? power
  | steps + 1, power =>
    -- Nothing is left to divide, however many steps are left.
    if value.units = 0 then some value
    else do (← value.overPower? maxPower).overPowers? steps power

/-- A number under a power of ten: both are rounded, and so is what they come to. Zero stays zero,
however great the power. -/
def ofScaled? (negative : Bool) (number : Nat) (power : Int) : Option Double := do
  let value ← ofRatio? negative number 1
  if value.units = 0 then some value
  else if 0 ≤ power then value.timesPower? power.toNat
  else
    let steps := ((-power).toNat - 1) / maxPower
    value.overPowers? steps ((-power).toNat - steps * maxPower)

/-! ## Text -/

/-- A decimal number, counted in quarters of a unit over `decimalScale`. -/
def decimalCount (digits : Nat) (power : Int) : Nat :=
  (digits * Nat.pow 10 power.toNat) <<< (places + 2)

/-- What a quarter of a unit is counted as, so that decimal places are counted, too. -/
def decimalScale (power : Int) : Nat :=
  Nat.pow 10 (-power).toNat

/-- How many quarters of a unit a number may lie below the double it is rounded to: half the
distance between doubles, or a quarter of it below a power of two, where they are closer. -/
def marginBelow (value : Double) : Nat :=
  let spare := spare value.units
  (if 0 < spare ∧ value.units = 1 <<< (spare + (precision - 1)) then 1 else 2) <<< spare

/-- How many quarters of a unit a number may lie above the double it is rounded to. -/
def marginAbove (value : Double) : Nat :=
  2 <<< spare value.units

/-- Whether a decimal number is rounded to the double. On the very border it is if the last binary
digit that counts is even. -/
@[irreducible]
def takes (value : Double) (digits : Nat) (power : Int) : Bool :=
  let least := (4 * value.units - value.marginBelow) * decimalScale power
  let greatest := (4 * value.units + value.marginAbove) * decimalScale power
  let count := decimalCount digits power
  if (value.units >>> spare value.units) % 2 = 0 then least ≤ count && count ≤ greatest
  else least < count && count < greatest

/-- The digits under a power of ten that are rounded to the double, if there are any. Only those
next to it on either side are candidates, the nearer ones first. -/
def digitsAt? (value : Double) (power : Int) : Option Nat :=
  let exact := 4 * value.units * decimalScale power
  let grid := decimalCount 1 power
  [roundQuotient exact grid, exact / grid, exact / grid + 1].find? (value.takes · power)

/-- Searches digits that are rounded to the double, from a power of ten on to lower ones. -/
def searchDigits (value : Double) : (steps : Nat) → (power : Int) → Nat × Int
  | 0, power => ((value.digitsAt? power).getD 0, power)
  | steps + 1, power =>
    match value.digitsAt? power with
    | some digits => (digits, power)
    | none => value.searchDigits steps (power - 1)

/-- The decimal places that are enough for any double: one unit of the last of them is less than a
quarter of the least double. -/
def decimalPlaces : Nat := 324

/-- The fewest decimal digits that are rounded to a double, and their power of ten. -/
def shortestDigits (value : Double) : Nat × Int :=
  value.searchDigits (maxPower + decimalPlaces) maxPower

/-- The text of digits under a power of ten. -/
def layOut (digits : List Char) (power : Int) : List Char :=
  let point := digits.length + power
  if 0 ≤ power ∧ point ≤ 16 then
    digits ++ List.replicate power.toNat '0' ++ ['.', '0']
  else if 0 < point ∧ point ≤ 16 then
    digits.take point.toNat ++ '.' :: digits.drop point.toNat
  else if -5 < point ∧ point ≤ 0 then
    '0' :: '.' :: List.replicate (-point).toNat '0' ++ digits
  else
    digits.take 1 ++ (if digits.length = 1 then [] else '.' :: digits.drop 1) ++
      'e' :: (Int.repr (point - 1)).toList

/-- The text of a double. -/
def text (value : Double) : String :=
  let (digits, power) := value.shortestDigits
  let shown := if value.units = 0 then "0.0"
    else String.ofList (layOut (Nat.toDigits 10 digits) power)
  if value.negative then "-" ++ shown else shown

end Double

end ProtoSchema
