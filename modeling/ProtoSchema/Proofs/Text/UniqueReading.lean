import ProtoSchema.Proofs.Json.Numerals

/-!
# Unique reading

When can a text that was put together be taken apart in only one way? A word ends at a separator
that does not occur in it, `split_unique`. A code delimits its values if equal codes with anything
behind them are codes of the same value, `Delimits`. A sequence of such codes can be taken apart if
it can be seen where the sequence ends: what follows must not look like the beginning of another
code, `Delimits.flatMap`. The texts of numbers are read in one way as well.
-/

namespace ProtoSchema.Text

variable {α β : Type}

/-- A separator is found where it occurs first. -/
theorem split_unique {separator : α} {word word' rest rest' : List α}
    (absent : separator ∉ word) (absent' : separator ∉ word')
    (split_eq : word ++ separator :: rest = word' ++ separator :: rest') :
    word = word' ∧ rest = rest' := by
  induction word generalizing word' with
  | nil =>
      cases word' with
      | nil => exact ⟨rfl, (List.cons.inj split_eq).2⟩
      | cons first word' =>
          rw [(List.cons.inj split_eq).1] at absent'
          exact absurd List.mem_cons_self absent'
  | cons first word ih =>
      cases word' with
      | nil =>
          rw [← (List.cons.inj split_eq).1] at absent
          exact absurd List.mem_cons_self absent
      | cons first' word' =>
          rcases List.cons.inj split_eq with ⟨rfl, more_eq⟩
          rw [List.mem_cons, not_or] at absent absent'
          rcases ih absent.2 absent'.2 more_eq with ⟨rfl, rest_eq⟩
          exact ⟨rfl, rest_eq⟩

/-- Equal codes are codes of the same value, whatever follows them. -/
structure Delimits (valid : α → Prop) (code : α → List β) : Prop where
  unique : ∀ {value value' : α} {rest rest' : List β}, valid value → valid value' →
    code value ++ rest = code value' ++ rest' → value = value' ∧ rest = rest'

theorem Delimits.mono {valid valid' : α → Prop} {code : α → List β} (delimits : Delimits valid code)
    (stronger : ∀ value, valid' value → valid value) : Delimits valid' code :=
  ⟨fun isValid isValid' => delimits.unique (stronger _ isValid) (stronger _ isValid')⟩

/-- A sequence of codes is read in one way if what follows it does not look like a code. -/
theorem Delimits.flatMap {valid : α → Prop} {code : α → List β} (delimits : Delimits valid code)
    (opens : List β → Prop)
    (opens_code : ∀ value, valid value → ∀ rest, opens (code value ++ rest))
    {values values' : List α} (allValid : ∀ value ∈ values, valid value)
    (allValid' : ∀ value ∈ values', valid value) {rest rest' : List β}
    (ends : ¬opens rest) (ends' : ¬opens rest')
    (codes_eq : values.flatMap code ++ rest = values'.flatMap code ++ rest') :
    values = values' ∧ rest = rest' := by
  induction values generalizing values' with
  | nil =>
      cases values' with
      | nil => exact ⟨rfl, codes_eq⟩
      | cons value' values' =>
          rw [List.flatMap_cons, List.append_assoc, List.flatMap_nil, List.nil_append] at codes_eq
          rw [codes_eq] at ends
          exact absurd (opens_code value' (allValid' value' List.mem_cons_self) _) ends
  | cons value values ih =>
      have value_valid := allValid value List.mem_cons_self
      cases values' with
      | nil =>
          rw [List.flatMap_cons, List.append_assoc, List.flatMap_nil, List.nil_append] at codes_eq
          rw [← codes_eq] at ends'
          exact absurd (opens_code value value_valid _) ends'
      | cons value' values' =>
          rw [List.flatMap_cons, List.flatMap_cons, List.append_assoc,
            List.append_assoc] at codes_eq
          rcases delimits.unique value_valid (allValid' value' List.mem_cons_self) codes_eq with
            ⟨rfl, more_eq⟩
          rcases ih (fun other other_mem => allValid other (List.mem_cons_of_mem _ other_mem))
            (fun other other_mem => allValid' other (List.mem_cons_of_mem _ other_mem)) more_eq with
            ⟨rfl, rest_eq⟩
          exact ⟨rfl, rest_eq⟩

/-- If neither the codes of a sequence nor what follows it look like codes of another kind, then
the sequence does not. -/
theorem not_opens_flatMap {opens : List β → Prop} {code : α → List β} {values : List α}
    (foreign : ∀ value ∈ values, ∀ rest, ¬opens (code value ++ rest)) {rest : List β}
    (ends : ¬opens rest) : ¬opens (values.flatMap code ++ rest) := by
  cases values with
  | nil => exact ends
  | cons value values =>
      rw [List.flatMap_cons, List.append_assoc]
      exact foreign value List.mem_cons_self _

theorem notMem_natRepr {char : Char} (notDigit : char.isDigit = false) (number : Nat) :
    char ∉ (Nat.repr number).toList := by
  intro char_mem
  have char_mem : char ∈ Nat.toDigits 10 number := by simpa using char_mem
  rw [Numeral.isDigit_of_mem_toDigits char_mem] at notDigit
  cases notDigit

theorem natRepr_injective {number number' : Nat}
    (repr_eq : (Nat.repr number).toList = (Nat.repr number').toList) : number = number' := by
  have digits_eq : Nat.toDigits 10 number = Nat.toDigits 10 number' := by simpa using repr_eq
  rw [← Nat.ofDigitChars_ten_toDigits (n := number), digits_eq, Nat.ofDigitChars_ten_toDigits]

theorem notMem_intRepr {char : Char} (notDigit : char.isDigit = false) (notSign : char ≠ '-')
    (integer : Int) : char ∉ (Int.repr integer).toList := by
  rw [Int.repr_eq_if]
  split
  · exact notMem_natRepr notDigit _
  · simpa [notSign] using notMem_natRepr notDigit (-integer).toNat

theorem intRepr_injective {integer integer' : Int}
    (repr_eq : (Int.repr integer).toList = (Int.repr integer').toList) : integer = integer' := by
  have scan_eq := Numeral.scan_repr integer Numeral.ends_nil
  rw [repr_eq, Numeral.scan_repr integer' Numeral.ends_nil, Option.some.injEq, Prod.mk.injEq,
    Numeral.ofInt, Numeral.ofInt, Numeral.mk.injEq] at scan_eq
  rcases scan_eq with ⟨⟨sign_eq, digits_eq, -⟩, -⟩
  have natAbs_eq : integer'.natAbs = integer.natAbs := by
    have value_eq := congrArg Numeral.value digits_eq
    rwa [Numeral.value_digitValues, Numeral.value_digitValues, Nat.ofDigitChars_ten_toDigits,
      Nat.ofDigitChars_ten_toDigits] at value_eq
  rw [decide_eq_decide] at sign_eq
  omega

end ProtoSchema.Text
