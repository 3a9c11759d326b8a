import Mathlib.Tactic.GCongr
import Mathlib.Tactic.Ring
import ProtoSchema.Json.Double

/-!
# Reading and showing doubles

A number under a power of ten is read into a double in three roundings: of the number, of the
power, and of their product. Each of them gives at most half of the last binary digit that counts
more than there was. That is little enough for everything below the greatest power of ten: there is
a double for it, `Double.exists_ofScaled?`.

A double is shown by digits that are rounded to it, `Double.takes_shortestDigits`. The search for
them always comes to such digits, since those at its last power of ten lie closer together than the
doubles do.
-/

namespace ProtoSchema.Double

/-- Rounding goes up by at most half of the divisor. -/
theorem roundQuotient_mul_le (numerator denominator : Nat) :
    2 * (roundQuotient numerator denominator * denominator) ≤ 2 * numerator + denominator := by
  have parts_eq := Nat.div_add_mod' numerator denominator
  simp only [roundQuotient]
  split
  · rw [Nat.add_mul, Nat.one_mul]
    omega
  · omega

/-- The last binary digit that counts is small beside the quotient, or it is the last digit of
all. -/
theorem shiftLeft_spare_le (scaled denominator : Nat) :
    8 * (denominator <<< spare (scaled / denominator)) ≤ scaled + 8 * denominator := by
  generalize quotient_eq : scaled / denominator = quotient
  by_cases short : quotient.log2 < precision
  · have spare_eq : spare quotient = 0 := by
      rw [spare]
      omega
    rw [spare_eq, Nat.shiftLeft_zero]
    omega
  · have quotient_pos : quotient ≠ 0 := by
      rintro rfl
      simp [precision] at short
    have digit_le : 8 * 2 ^ spare quotient ≤ quotient := by
      calc 8 * 2 ^ spare quotient = 2 ^ (3 + spare quotient) := by rw [Nat.pow_add]
        _ ≤ 2 ^ quotient.log2 := by
          apply Nat.pow_le_pow_right (by decide)
          simp only [spare, precision] at short ⊢
          omega
        _ ≤ quotient := Nat.log2_self_le quotient_pos
    have scaled_le : denominator * quotient ≤ scaled := by
      rw [← quotient_eq]
      exact Nat.mul_div_le scaled denominator
    have product_le := Nat.mul_le_mul_left denominator digit_le
    rw [Nat.shiftLeft_eq, Nat.mul_left_comm]
    omega

/-- A fraction is rounded up by less than a sixteenth, or by at most half a unit. -/
theorem units_mul_le (scaled denominator : Nat) :
    let spare := spare (scaled / denominator)
    16 * (roundQuotient scaled (denominator <<< spare) <<< spare * denominator) ≤
      17 * scaled + 8 * denominator := by
  intro spare
  have rounded_le := roundQuotient_mul_le scaled (denominator <<< spare)
  have digit_le := shiftLeft_spare_le scaled denominator
  have regroup : roundQuotient scaled (denominator <<< spare) <<< spare * denominator =
      roundQuotient scaled (denominator <<< spare) * denominator <<< spare := by
    simp only [Nat.shiftLeft_eq]
    ring
  change 8 * (denominator <<< spare) ≤ _ at digit_le
  omega

/-- There is a double for every fraction that is not too great even after rounding. -/
theorem exists_ofRatio? (negative : Bool) (numerator denominator : Nat)
    (small : 17 * numerator <<< places + 8 * denominator <
      16 * (1 <<< (digitsInFront + places) * denominator)) :
    ∃ units, ofRatio? negative numerator denominator = some ⟨negative, units⟩ ∧
      16 * (units * denominator) ≤ 17 * numerator <<< places + 8 * denominator := by
  have units_le := units_mul_le (numerator <<< places) denominator
  refine ⟨_, if_pos ?_, units_le⟩
  apply Nat.lt_of_mul_lt_mul_right (a := denominator)
  omega

/-- An integer up to the greatest power of ten is rounded up by at most an eighth. -/
theorem exists_ofRatio?_one (negative : Bool) {number : Nat} (small : number ≤ 10 ^ maxPower) :
    ∃ units, ofRatio? negative number 1 = some ⟨negative, units⟩ ∧
      8 * units ≤ 9 * number <<< places := by
  have room : 17 * (10 ^ maxPower * 2 ^ places) + 8 < 16 * 2 ^ (digitsInFront + places) := by
    decide +kernel
  have unit_le : 8 ≤ 2 ^ places := by decide +kernel
  have scaled_le := Nat.mul_le_mul_right (2 ^ places) small
  simp only [Nat.shiftLeft_eq]
  have fits : 17 * number <<< places + 8 * 1 < 16 * (1 <<< (digitsInFront + places) * 1) := by
    simp only [Nat.shiftLeft_eq]
    omega
  rcases exists_ofRatio? negative number 1 fits with ⟨units, units_eq, units_le⟩
  refine ⟨units, units_eq, ?_⟩
  simp only [Nat.shiftLeft_eq] at units_le
  rcases Nat.eq_zero_or_pos number with rfl | positive
  · omega
  · have scaled_ge := Nat.mul_le_mul_right (2 ^ places) positive
    omega

/-- A number below the greatest power of ten has a double, however it is split into a number and a
power of ten. -/
theorem exists_ofScaled? (negative : Bool) {number power : Nat} (power_le : power ≤ maxPower)
    (small : number * 10 ^ power < 10 ^ maxPower) :
    ∃ value, ofScaled? negative number power = some value := by
  have number_le : number ≤ 10 ^ maxPower :=
    (Nat.le_mul_of_pos_right number (Nat.pow_pos (by decide))).trans small.le
  have factor_le : 10 ^ power ≤ 10 ^ maxPower := Nat.pow_le_pow_right (by decide) power_le
  rcases exists_ofRatio?_one negative number_le with ⟨units, units_eq, units_le⟩
  rcases exists_ofRatio?_one false factor_le with ⟨factor, factor_eq, factor_le⟩
  by_cases zero : units = 0
  · exact ⟨⟨negative, units⟩, by simp [ofScaled?, units_eq, zero]⟩
  · have product_le : 64 * (units * factor) ≤
        81 * (number * 10 ^ power * 2 ^ places) * 2 ^ places := by
      have rounded_le := Nat.mul_le_mul units_le factor_le
      simp only [Nat.shiftLeft_eq] at rounded_le
      calc 64 * (units * factor) = 8 * units * (8 * factor) := by ring
        _ ≤ 9 * (number * 2 ^ places) * (9 * (10 ^ power * 2 ^ places)) := rounded_le
        _ = 81 * (number * 10 ^ power * 2 ^ places) * 2 ^ places := by ring
    -- The three roundings make the product greater by less than the room above the power of ten.
    have room : 17 * (81 * (10 ^ maxPower * 2 ^ places) * 2 ^ places * 2 ^ places) +
        512 * 2 ^ (2 * places) < 1024 * (2 ^ (digitsInFront + places) * 2 ^ (2 * places)) := by
      decide +kernel
    have small_le : 81 * (number * 10 ^ power * 2 ^ places) * 2 ^ places * 2 ^ places ≤
        81 * (10 ^ maxPower * 2 ^ places) * 2 ^ places * 2 ^ places := by
      gcongr
    have scaled_le := Nat.mul_le_mul_right (2 ^ places) product_le
    have fits : 17 * (units * factor) <<< places + 8 * 1 <<< (2 * places) <
        16 * (1 <<< (digitsInFront + places) * 1 <<< (2 * places)) := by
      simp only [Nat.shiftLeft_eq, Nat.one_mul]
      rw [Nat.mul_assoc] at scaled_le
      omega
    rcases exists_ofRatio? negative (units * factor) _ fits with ⟨product, product_eq, -⟩
    refine ⟨⟨negative, product⟩, ?_⟩
    simp [ofScaled?, timesPower?, powerOfTen?, units_eq, zero, factor_eq, power_le, product_eq]

/-! ## Digits -/

/-- Behind enough decimal places, decimal numbers lie closer together than quarters of a unit. -/
theorem decimalCount_lt_scale {power : Int} (low : power ≤ -decimalPlaces) :
    decimalCount 1 power < decimalScale power := by
  have power_eq : power.toNat = 0 := by
    simp only [decimalPlaces] at low
    omega
  calc decimalCount 1 power = 2 ^ (places + 2) := by
        simp [decimalCount, power_eq, Nat.shiftLeft_eq]
    _ < 10 ^ decimalPlaces := by decide +kernel
    _ ≤ 10 ^ (-power).toNat := Nat.pow_le_pow_right (by decide) (by omega)

theorem marginBelow_pos (value : Double) : 0 < value.marginBelow := by
  rw [marginBelow, Nat.shiftLeft_eq]
  apply Nat.mul_pos
  · split <;> decide
  · exact Nat.two_pow_pos _

theorem marginAbove_pos (value : Double) : 0 < value.marginAbove := by
  rw [marginAbove, Nat.shiftLeft_eq]
  exact Nat.mul_pos (by decide) (Nat.two_pow_pos _)

/-- A decimal number that lies less than a quarter of a unit below a double is rounded to it. -/
theorem takes_of_near {value : Double} {digits : Nat} {power : Int}
    (count_le : decimalCount digits power ≤ 4 * value.units * decimalScale power)
    (lt_count : 4 * value.units * decimalScale power <
      decimalCount digits power + decimalScale power) :
    value.takes digits power = true := by
  have above_le := Nat.le_mul_of_pos_left (decimalScale power) value.marginAbove_pos
  have below_le := Nat.le_mul_of_pos_left (decimalScale power) value.marginBelow_pos
  have lt_greatest : decimalCount digits power <
      (4 * value.units + value.marginAbove) * decimalScale power := by
    rw [Nat.add_mul]
    omega
  unfold takes
  by_cases zero : value.units = 0
  · simpa [zero] using lt_greatest.le
  · have least_lt : (4 * value.units - value.marginBelow) * decimalScale power <
        decimalCount digits power := by
      have scale_le := Nat.le_mul_of_pos_left (decimalScale power)
        (show 0 < 4 * value.units by omega)
      rw [Nat.sub_mul]
      omega
    simp [least_lt, least_lt.le, lt_greatest, lt_greatest.le]

/-- Behind enough decimal places, the digits just below a double are rounded to it. -/
theorem takes_quotient (value : Double) {power : Int} (low : power ≤ -decimalPlaces) :
    value.takes (4 * value.units * decimalScale power / decimalCount 1 power) power = true := by
  have count_eq : ∀ digits, decimalCount digits power = digits * decimalCount 1 power := by
    intro digits
    simp only [decimalCount, Nat.shiftLeft_eq]
    ring
  have grid_lt := decimalCount_lt_scale low
  have grid_pos : 0 < decimalCount 1 power := by
    simp [decimalCount, Nat.shiftLeft_eq]
  apply takes_of_near
  · rw [count_eq]
    exact Nat.div_mul_le_self _ _
  · rw [count_eq]
    exact (Nat.lt_div_mul_add grid_pos).trans (Nat.add_lt_add_left grid_lt _)

theorem takes_of_digitsAt? {value : Double} {power : Int} {digits : Nat}
    (digits_eq : value.digitsAt? power = some digits) : value.takes digits power = true := by
  rw [digitsAt?] at digits_eq
  exact List.find?_some (p := (value.takes · power)) digits_eq

/-- The search ends at digits that are rounded to the double, if it goes down far enough. -/
theorem takes_searchDigits (value : Double) (steps : Nat) {power : Int}
    (far : power - steps ≤ -decimalPlaces) :
    value.takes (value.searchDigits steps power).1 (value.searchDigits steps power).2 = true := by
  induction steps generalizing power with
  | zero =>
      have taken := value.takes_quotient (by simpa using far)
      rw [searchDigits]
      cases digits_eq : value.digitsAt? power with
      | some digits => exact takes_of_digitsAt? digits_eq
      | none =>
          rw [digitsAt?, List.find?_eq_none] at digits_eq
          exact absurd taken (digits_eq _ (by simp))
  | succ steps ih =>
      rw [searchDigits]
      cases digits_eq : value.digitsAt? power with
      | some digits => exact takes_of_digitsAt? digits_eq
      | none => exact ih (by omega)

/-- The digits that a double is shown by are rounded to it again. -/
theorem takes_shortestDigits (value : Double) :
    value.takes value.shortestDigits.1 value.shortestDigits.2 = true := by
  apply takes_searchDigits
  rw [Int.natCast_add]
  omega

-- This power of ten lies exactly between two doubles, and the even one is shown by it.
example : (ofScaled? true 1 23).map text = some "-1e23" := by decide +kernel

end ProtoSchema.Double
