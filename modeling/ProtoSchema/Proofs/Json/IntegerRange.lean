import Mathlib.Data.List.Induction
import Mathlib.Data.List.TakeWhile
import Mathlib.Tactic.Ring
import ProtoSchema.Proofs.Json.Doubles
import ProtoSchema.Proofs.Json.OpenObject

/-!
# The range of integer literals

An integer literal is a sign and digits, and it has an exact value, however great. Reading keeps
that value if it fits into 64 bits and the literal is not `-0`; otherwise it takes the literal for a
number with a fraction: `IntegerLiteral.number_of_fits` and `IntegerLiteral.number_of_not_fits`. The
second needs a limit on the number of digits, because beyond it the literal is too great for a
double and no number at all.

The double is computed from the digits that fit into 64 bits and a power of ten for the others.
Together they stay below the number of all digits, and so there is a double for them,
`Double.exists_ofScaled?`.
-/

namespace ProtoSchema

/-- A sign and digits without a needless zero in front. -/
structure IntegerLiteral where
  negative : Bool
  digits : List Char
  allDigits : ∀ char ∈ digits, char.isDigit = true
  nonempty : digits ≠ []
  noLeadingZero : digits.head? = some '0' → digits = ['0']

namespace IntegerLiteral

/-- The characters of the literal, its sign first. -/
def chars (literal : IntegerLiteral) : List Char :=
  (if literal.negative then ['-'] else []) ++ literal.digits

/-- The text of the literal. -/
def text (literal : IntegerLiteral) : String :=
  String.ofList literal.chars

/-- The number that the digits spell. -/
def magnitude (literal : IntegerLiteral) : Nat :=
  Nat.ofDigitChars 10 literal.digits 0

/-- The exact value of the literal, however great. -/
def value (literal : IntegerLiteral) : Int :=
  if literal.negative then -literal.magnitude else literal.magnitude

/-- The value is an integer of 64 bits, signed or unsigned. -/
def Fits (literal : IntegerLiteral) : Prop :=
  -2 ^ 63 ≤ literal.value ∧ literal.value ≤ 2 ^ 64 - 1

instance (literal : IntegerLiteral) : Decidable literal.Fits :=
  inferInstanceAs (Decidable (_ ∧ _))

/-- The text holds the literal, and blanks around it. -/
def StandsIn (literal : IntegerLiteral) (text : String) : Prop :=
  ∃ before after, (∀ char ∈ before ++ after, Doc.isBlank char = true) ∧
    text.toList = before ++ literal.chars ++ after

end IntegerLiteral

namespace Numeral

theorem digitValue_lt {char : Char} (digit : char.isDigit = true) :
    char.toNat - '0'.toNat < 10 := by
  have bounds := Char.isDigit_iff_toNat.mp digit
  simp only [Char.reduceToNat] at bounds ⊢
  omega

theorem le_ofDigitChars (digits : List Char) (number : Nat) :
    number ≤ Nat.ofDigitChars 10 digits number := by
  induction digits generalizing number with
  | nil => simp
  | cons char digits ih =>
      rw [Nat.ofDigitChars_cons]
      have step_le := ih (10 * number + (char.toNat - '0'.toNat))
      omega

theorem ofDigitChars_pos {char : Char} (digit : char.isDigit = true) (visible : char ≠ '0')
    (digits : List Char) : 0 < Nat.ofDigitChars 10 (char :: digits) 0 := by
  have bounds := Char.isDigit_iff_toNat.mp digit
  have code_ne : char.toNat ≠ '0'.toNat := by
    intro code_eq
    exact visible (Char.toNat_inj.mp code_eq)
  have first_le := le_ofDigitChars digits (10 * 0 + (char.toNat - '0'.toNat))
  rw [Nat.ofDigitChars_cons]
  omega

theorem toDigits_digit {char : Char} (digit : char.isDigit = true) :
    Nat.toDigits 10 (char.toNat - '0'.toNat) = [char] := by
  have bounds := Char.isDigit_iff_toNat.mp digit
  rw [Nat.toDigits_of_lt_base (digitValue_lt digit), List.cons.injEq]
  refine ⟨?_, rfl⟩
  apply Char.toNat_inj.mp
  rw [Nat.toNat_digitChar_of_lt_ten (digitValue_lt digit)]
  simp only [Char.reduceToNat] at bounds ⊢
  omega

/-- Digits without a needless zero in front are the digits of their number. -/
theorem toDigits_ofDigitChars {first : Char} {more : List Char}
    (allDigits : ∀ char ∈ first :: more, char.isDigit = true) (visible : first ≠ '0') :
    Nat.toDigits 10 (Nat.ofDigitChars 10 (first :: more) 0) = first :: more := by
  induction more using List.reverseRecOn with
  | nil =>
      rw [Nat.ofDigitChars_cons, Nat.ofDigitChars_nil]
      simpa using toDigits_digit (allDigits first List.mem_cons_self)
  | append_singleton more last ih =>
      rw [← List.cons_append, List.forall_mem_append, List.forall_mem_singleton] at allDigits
      have front_pos := ofDigitChars_pos (allDigits.1 first List.mem_cons_self) visible more
      have split_eq := Nat.toDigits_append_toDigits (by decide : 1 < 10) front_pos
        (digitValue_lt allDigits.2)
      rw [ih allDigits.1, toDigits_digit allDigits.2] at split_eq
      rw [← List.cons_append, Nat.ofDigitChars_append, Nat.ofDigitChars_cons, Nat.ofDigitChars_nil]
      exact split_eq.symm

/-- The collected digits and the power of ten behind them stay below the number of all digits. -/
theorem absorb_lt {digits : List Nat} (small : ∀ digit ∈ digits, digit < 10) {number power : Nat}
    (number_lt : number < 10 ^ power) :
    (absorb number digits).1 * 10 ^ (absorb number digits).2 < 10 ^ (power + digits.length) ∧
      (absorb number digits).2 ≤ digits.length := by
  induction digits generalizing number power with
  | nil => simpa [absorb] using number_lt
  | cons digit digits ih =>
      rw [List.forall_mem_cons] at small
      rw [absorb]
      split
      · have next_lt : number * 10 + digit < 10 ^ (power + 1) := by
          rw [Nat.pow_succ]
          omega
        have rest := ih small.2 next_lt
        rw [List.length_cons, Nat.add_comm digits.length 1, ← Nat.add_assoc]
        exact ⟨rest.1, by omega⟩
      · rw [List.length_cons, Nat.pow_add 10 power]
        refine ⟨?_, Nat.le_refl _⟩
        exact Nat.mul_lt_mul_of_pos_right number_lt (Nat.pow_pos (show 0 < 10 by decide))

/-- Digits that are not too many have a double, whatever is left out of the collection. -/
theorem exists_double? {digits : List Nat} (small : ∀ digit ∈ digits, digit < 10)
    (short : digits.length ≤ Double.maxPower) (negative : Bool) :
    ∃ value, (Numeral.mk negative digits none none).double? = some value := by
  have bounds := absorb_lt small (show 0 < 10 ^ 0 by decide)
  rcases absorbed : absorb 0 digits with ⟨leading, unread⟩
  rw [absorbed, Nat.zero_add] at bounds
  have scaled_eq : (Numeral.mk negative digits none none).scaled = (leading, (unread : Int)) := by
    simp [scaled, absorbed, absorb]
  have product_lt : leading * 10 ^ unread < 10 ^ Double.maxPower :=
    Nat.lt_of_lt_of_le bounds.1 (Nat.pow_le_pow_right (by decide) short)
  rw [double?, scaled_eq]
  exact Double.exists_ofScaled? negative (Nat.le_trans bounds.2 short) product_lt

theorem ends_blanks {blanks : List Char} (blank : ∀ char ∈ blanks, Doc.isBlank char = true) :
    Ends blanks := by
  cases blanks with
  | nil => exact ends_nil
  | cons char blanks =>
      apply ends_cons
      have char_blank := blank char List.mem_cons_self
      simp only [Doc.isBlank, Bool.or_eq_true, beq_iff_eq] at char_blank
      rcases char_blank with ((rfl | rfl) | rfl) | rfl <;> decide

end Numeral

namespace IntegerLiteral

variable (literal : IntegerLiteral)

/-- The parts of the literal. -/
def numeral : Numeral :=
  ⟨literal.negative, Numeral.digitValues literal.digits, none, none⟩

theorem digits_eq_cons :
    ∃ first more, literal.digits = first :: more ∧ first.isDigit = true := by
  cases digits_eq : literal.digits with
  | nil => exact absurd digits_eq literal.nonempty
  | cons first more => exact ⟨first, more, rfl, literal.allDigits first (by simp [digits_eq])⟩

/-- The literal is a zero, or its digits start with another one. -/
theorem zero_or_visible : literal.digits = ['0'] ∨
    ∃ first more, literal.digits = first :: more ∧ first.isDigit = true ∧ first ≠ '0' := by
  rcases literal.digits_eq_cons with ⟨first, more, digits_eq, digit⟩
  by_cases zero : first = '0'
  · left
    apply literal.noLeadingZero
    simp [digits_eq, zero]
  · right
    exact ⟨first, more, digits_eq, digit, zero⟩

theorem isWhole_digits : Numeral.isWhole (Numeral.digitValues literal.digits) = true := by
  rcases literal.zero_or_visible with digits_eq | ⟨first, more, digits_eq, digit, visible⟩
  · rw [digits_eq]
    rfl
  · rw [digits_eq]
    cases more with
    | nil => rfl
    | cons second more =>
        have first_pos := Numeral.ofDigitChars_pos digit visible []
        simp only [Nat.ofDigitChars_cons, Nat.ofDigitChars_nil] at first_pos
        simp only [Numeral.digitValues, List.map_cons, Numeral.isWhole, bne_iff_ne]
        omega

theorem scan_chars {rest : List Char} (ends : Numeral.Ends rest) :
    Numeral.scan (literal.chars ++ rest) = some (literal.numeral, rest) := by
  have unsigned := fun negative =>
    Numeral.scanUnsigned_digits negative literal.allDigits literal.isWhole_digits ends
  cases negative : literal.negative with
  | true =>
      rw [chars, negative, if_pos rfl, List.singleton_append, List.cons_append, Numeral.scan,
        unsigned, numeral, negative]
  | false =>
      rw [chars, negative, if_neg (by decide), List.nil_append, Numeral.scan, unsigned, numeral,
        negative]
      intro text text_eq
      rcases literal.digits_eq_cons with ⟨first, more, digits_eq, digit⟩
      rw [digits_eq, List.cons_append, List.cons.injEq] at text_eq
      rw [text_eq.1] at digit
      cases digit

theorem chars_eq_cons :
    ∃ char more, literal.chars = char :: more ∧ (char = '-' ∨ char.isDigit = true) := by
  cases negative : literal.negative with
  | true => exact ⟨'-', literal.digits, by simp [chars, negative], Or.inl rfl⟩
  | false =>
      rcases literal.digits_eq_cons with ⟨first, more, digits_eq, digit⟩
      exact ⟨first, more, by simp [chars, negative, digits_eq], Or.inr digit⟩

variable {literal}

/-- A text of the literal and blanks holds its number. -/
theorem StandsIn.ofText_eq {shown : String} (stands : literal.StandsIn shown) :
    Document.ofText shown = ⟨.number literal.numeral.number, true⟩ := by
  rcases stands with ⟨before, after, blank, shown_eq⟩
  rw [List.forall_mem_append] at blank
  rcases literal.chars_eq_cons with ⟨char, more, chars_eq, numeric⟩
  have trimmed : Doc.skipBlanks (before ++ literal.chars ++ after) = literal.chars ++ after := by
    rw [List.append_assoc, chars_eq, List.cons_append]
    exact Doc.skipBlanks_blanks blank.1 (Doc.isBlank_of_numeric numeric) _
  have scan_eq : Doc.scan (2 * shown.toList.length + 1) shown.toList =
      (.number literal.numeral.number, some after) := by
    rw [shown_eq, ← Doc.scan_skipBlanks, trimmed, chars_eq, List.cons_append,
      Doc.scan_number_head numeric, ← List.cons_append, ← chars_eq, Doc.scanNumber,
      literal.scan_chars (Numeral.ends_blanks blank.2)]
  have after_eq : Doc.skipBlanks after = [] := by
    rw [Doc.skipBlanks, List.dropWhile_eq_nil_iff]
    exact blank.2
  rw [Document.ofText, scan_eq]
  simp [after_eq]

/-- Only minus zero has a sign without effect. -/
theorem text_eq_minusZero_iff :
    literal.text = "-0" ↔ literal.negative = true ∧ literal.magnitude = 0 := by
  have text_iff : literal.text = "-0" ↔ literal.chars = ['-', '0'] := by
    rw [text, ← String.toList_inj, String.toList_ofList]
    rfl
  rw [text_iff]
  rcases literal.zero_or_visible with digits_eq | ⟨first, more, digits_eq, digit, visible⟩
  · have magnitude_eq : literal.magnitude = 0 := by
      rw [magnitude, digits_eq]
      rfl
    cases negative : literal.negative <;> simp [chars, negative, digits_eq, magnitude_eq]
  · have positive : 0 < literal.magnitude := by
      rw [magnitude, digits_eq]
      exact Numeral.ofDigitChars_pos digit visible more
    have notSign : first ≠ '-' := by
      rintro rfl
      cases digit
    cases negative : literal.negative with
    | true => simp [chars, negative, digits_eq, visible, positive.ne']
    | false => simp [chars, negative, digits_eq, notSign]

/-- Every literal but minus zero is the one that its value is written as. -/
theorem text_eq_repr (notMinusZero : literal.text ≠ "-0") :
    literal.text = Int.repr literal.value := by
  rw [Ne, text_eq_minusZero_iff] at notMinusZero
  have digits_eq : literal.digits = Nat.toDigits 10 literal.magnitude := by
    rcases literal.zero_or_visible with digits_eq | ⟨first, more, digits_eq, -, visible⟩
    · rw [magnitude, digits_eq]
      rfl
    · have allDigits := literal.allDigits
      rw [digits_eq] at allDigits
      rw [magnitude, digits_eq, Numeral.toDigits_ofDigitChars allDigits visible]
  rw [← String.toList_inj, text, String.toList_ofList, chars, digits_eq, Int.repr_eq_if, value]
  cases negative : literal.negative with
  | true =>
      have nonzero : literal.magnitude ≠ 0 := fun zero => notMinusZero ⟨negative, zero⟩
      rw [if_pos rfl, if_pos rfl, if_neg (by omega)]
      simp
  | false =>
      rw [if_neg (by decide), if_neg Bool.false_ne_true, if_pos (by omega)]
      simp

/-- A literal stands for its value, unless it is minus zero or does not fit into 64 bits. -/
theorem integer?_numeral : literal.numeral.integer? =
    if literal.text = "-0" ∨ ¬ literal.Fits then none else some literal.value := by
  have magnitude_eq : Numeral.value literal.numeral.whole = literal.magnitude :=
    Numeral.value_digitValues literal.digits
  have integer_eq : literal.numeral.integer? =
      if literal.negative then
        if literal.magnitude = 0 ∨ Numeral.maxNegated < literal.magnitude then none
        else some (-(literal.magnitude : Int))
      else if Numeral.maxUnsigned < literal.magnitude then none
      else some (literal.magnitude : Int) := by
    rw [Numeral.integer?, magnitude_eq]
    rfl
  simp only [integer_eq, text_eq_minusZero_iff, Fits, value, Numeral.maxNegated,
    Numeral.maxUnsigned]
  cases literal.negative with
  | true =>
      simp only [if_true, true_and]
      congr 1
      apply propext
      omega
  | false =>
      simp only [Bool.false_eq_true, if_false, false_and, false_or]
      congr 1
      apply propext
      omega

theorem number_of_fits (notMinusZero : literal.text ≠ "-0") (fits : literal.Fits) :
    literal.numeral.number = .integer literal.value := by
  rw [Numeral.number, integer?_numeral, if_neg (by simp [notMinusZero, fits])]

/-- A literal that stands for no integer is taken for a double, if its digits are not too many. -/
theorem number_of_not_fits (short : literal.digits.length ≤ 308)
    (unfit : literal.text = "-0" ∨ ¬ literal.Fits) :
    ∃ value, literal.numeral.double? = some value ∧
      literal.numeral.number = .fractional value := by
  have small : ∀ digit ∈ Numeral.digitValues literal.digits, digit < 10 := by
    intro digit digit_mem
    rcases List.mem_map.mp digit_mem with ⟨char, char_mem, rfl⟩
    exact Numeral.digitValue_lt (literal.allDigits char char_mem)
  have length_le : (Numeral.digitValues literal.digits).length ≤ Double.maxPower := by
    rw [Numeral.digitValues, List.length_map]
    exact short
  rcases Numeral.exists_double? small length_le literal.negative with ⟨value, value_eq⟩
  refine ⟨value, value_eq, ?_⟩
  have double_eq : literal.numeral.double? = some value := value_eq
  rw [Numeral.number, integer?_numeral, if_pos unfit, double_eq]

end IntegerLiteral

end ProtoSchema
