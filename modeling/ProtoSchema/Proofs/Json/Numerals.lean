import Mathlib.Data.Option.Basic
import ProtoSchema.Json.Number

/-!
# Integer literals

A literal that consists of digits alone, perhaps behind a sign, is read as these digits and nothing
else, provided that what follows it cannot belong to a number. The text of an integer is such a
literal, and its digits stand for the integer again as long as it fits into 64 bits.
-/

namespace ProtoSchema.Numeral

/-- The values of digits. -/
def digitValues (chars : List Char) : List Nat :=
  chars.map fun digit => digit.toNat - '0'.toNat

/-- The text does not go on with anything that could belong to a number. -/
def Ends (text : List Char) : Prop :=
  ∀ char ∈ text.head?, char.isDigit = false ∧ char ≠ '.' ∧ char ≠ 'e' ∧ char ≠ 'E'

theorem ends_nil : Ends [] := by
  intro char char_mem
  simp at char_mem

theorem ends_cons {char : Char} (rest : List Char)
    (stops : char.isDigit = false ∧ char ≠ '.' ∧ char ≠ 'e' ∧ char ≠ 'E') :
    Ends (char :: rest) := by
  intro other other_mem
  simp only [List.head?_cons, Option.mem_def, Option.some.injEq] at other_mem
  rwa [← other_mem]

theorem digits_append {chars rest : List Char} (allDigits : ∀ char ∈ chars, char.isDigit = true)
    (ends : Ends rest) : digits (chars ++ rest) = (digitValues chars, rest) := by
  have stops : rest.takeWhile Char.isDigit = [] ∧ rest.dropWhile Char.isDigit = rest := by
    cases rest with
    | nil => exact ⟨rfl, rfl⟩
    | cons char rest =>
        have notDigit := (ends char rfl).1
        simp [notDigit]
  rw [digits, List.takeWhile_append_of_pos allDigits, List.dropWhile_append_of_pos allDigits,
    stops.1, stops.2, List.append_nil, digitValues]

theorem scanFraction_ends {text : List Char} (ends : Ends text) :
    scanFraction text = some (none, text) := by
  cases text with
  | nil => rfl
  | cons char rest =>
      have notPoint := (ends char rfl).2.1
      rw [scanFraction]
      intro rest' text_eq
      simp only [List.cons.injEq] at text_eq
      exact notPoint text_eq.1

theorem scanExponent_ends {text : List Char} (ends : Ends text) :
    scanExponent text = some (none, text) := by
  cases text with
  | nil => rfl
  | cons char rest =>
      rcases ends char rfl with ⟨-, -, notLower, notUpper⟩
      rw [scanExponent]
      · intro rest' text_eq
        simp only [List.cons.injEq] at text_eq
        exact notLower text_eq.1
      · intro rest' text_eq
        simp only [List.cons.injEq] at text_eq
        exact notUpper text_eq.1

/-- Digits without a needless zero in front are read as they are. -/
theorem scanUnsigned_digits (negative : Bool) {chars rest : List Char}
    (allDigits : ∀ char ∈ chars, char.isDigit = true)
    (whole : isWhole (digitValues chars) = true) (ends : Ends rest) :
    scanUnsigned negative (chars ++ rest) =
      some (⟨negative, digitValues chars, none, none⟩, rest) := by
  simp [scanUnsigned, digits_append allDigits ends, whole, guard, scanFraction_ends ends,
    scanExponent_ends ends]

theorem value_digitValues (chars : List Char) :
    value (digitValues chars) = Nat.ofDigitChars 10 chars 0 := by
  simp only [value, digitValues, List.foldl_map, Nat.ofDigitChars_eq_foldl, Nat.mul_comm]

/-- The digits of a positive number do not start with a zero. -/
theorem digitValues_toDigits {number : Nat} (positive : 0 < number) :
    ∃ first rest, digitValues (Nat.toDigits 10 number) = first :: rest ∧ first ≠ 0 := by
  induction number using Nat.strongRecOn with
  | ind number ih =>
      by_cases small : number < 10
      · refine ⟨number, [], ?_, by omega⟩
        rw [Nat.toDigits_of_lt_base small]
        simp [digitValues, Nat.toNat_digitChar_sub_48_of_lt_ten small]
      · rcases ih (number / 10) (by omega) (by omega) with ⟨first, rest, digits_eq, first_ne⟩
        refine ⟨first, rest ++ digitValues [Nat.digitChar (number % 10)], ?_, first_ne⟩
        rw [Nat.toDigits_of_base_le (by decide) (by omega), ← List.cons_append, ← digits_eq]
        simp [digitValues]

theorem isWhole_toDigits (number : Nat) :
    isWhole (digitValues (Nat.toDigits 10 number)) = true := by
  by_cases zero : number = 0
  · subst zero
    rfl
  · rcases digitValues_toDigits (Nat.pos_of_ne_zero zero) with ⟨first, rest, digits_eq, first_ne⟩
    rw [digits_eq]
    cases rest with
    | nil => rfl
    | cons second rest => simpa [isWhole] using first_ne

/-- The literal that an integer is written as. -/
def ofInt (integer : Int) : Numeral :=
  ⟨decide (integer < 0), digitValues (Nat.toDigits 10 integer.natAbs), none, none⟩

theorem isDigit_of_mem_toDigits {number : Nat} {char : Char}
    (char_mem : char ∈ Nat.toDigits 10 number) : char.isDigit = true :=
  Nat.isDigit_of_mem_toDigits (by decide) (by decide) char_mem

/-- An integer is written with a sign or a digit at its front. -/
theorem repr_eq_cons (value : Int) :
    ∃ char more, (Int.repr value).toList = char :: more ∧ (char = '-' ∨ char.isDigit = true) := by
  rw [Int.repr_eq_if]
  split
  · cases digits_eq : Nat.toDigits 10 value.toNat with
    | nil => exact absurd digits_eq Nat.toDigits_ne_nil
    | cons first more =>
        refine ⟨first, more, by simp [digits_eq], Or.inr ?_⟩
        apply isDigit_of_mem_toDigits
        rw [digits_eq]
        exact List.mem_cons_self
  · exact ⟨'-', (-value).toNat.repr.toList, by simp, Or.inl rfl⟩

/-- The text of an integer is read as its literal. -/
theorem scan_repr (integer : Int) {rest : List Char} (ends : Ends rest) :
    scan ((Int.repr integer).toList ++ rest) = some (ofInt integer, rest) := by
  have unsigned : ∀ negative, scanUnsigned negative (Nat.toDigits 10 integer.natAbs ++ rest) =
      some (⟨negative, digitValues (Nat.toDigits 10 integer.natAbs), none, none⟩, rest) :=
    fun negative => scanUnsigned_digits negative (fun _ => isDigit_of_mem_toDigits)
      (isWhole_toDigits _) ends
  by_cases negative : integer < 0
  · have repr_eq : (Int.repr integer).toList = '-' :: Nat.toDigits 10 integer.natAbs := by
      rw [Int.repr_eq_if, if_neg (by omega), show (-integer).toNat = integer.natAbs by omega]
      simp
    rw [repr_eq, List.cons_append, scan, unsigned, ofInt, decide_eq_true negative]
  · have repr_eq : (Int.repr integer).toList = Nat.toDigits 10 integer.natAbs := by
      rw [Int.repr_eq_if, if_pos (by omega), show integer.toNat = integer.natAbs by omega]
      simp
    rw [repr_eq, scan, unsigned, ofInt, decide_eq_false negative]
    intro text text_eq
    have sign_mem : '-' ∈ Nat.toDigits 10 integer.natAbs := by
      cases digits_eq : Nat.toDigits 10 integer.natAbs with
      | nil => exact absurd digits_eq Nat.toDigits_ne_nil
      | cons first more =>
          rw [digits_eq, List.cons_append, List.cons.injEq] at text_eq
          simp [text_eq.1]
    exact absurd (isDigit_of_mem_toDigits sign_mem) (by decide)

/-- The literal of an integer that fits into 64 bits stands for it. -/
theorem number_ofInt {integer : Int} (least : -9223372036854775808 ≤ integer)
    (greatest : integer ≤ 18446744073709551615) : (ofInt integer).number = .integer integer := by
  have value_eq : value (digitValues (Nat.toDigits 10 integer.natAbs)) = integer.natAbs := by
    rw [value_digitValues, Nat.ofDigitChars_ten_toDigits]
  have integer_eq : (ofInt integer).integer? = some integer := by
    simp only [integer?, ofInt, value_eq, Option.isSome_none, Bool.or_self, Bool.false_eq_true,
      if_false, decide_eq_true_eq, maxNegated, maxUnsigned]
    by_cases negative : integer < 0
    · rw [if_pos negative, if_neg (by omega)]
      simp only [Option.some.injEq]
      omega
    · rw [if_neg negative, if_neg (by omega)]
      simp only [Option.some.injEq]
      omega
  rw [number, integer_eq]

end ProtoSchema.Numeral
