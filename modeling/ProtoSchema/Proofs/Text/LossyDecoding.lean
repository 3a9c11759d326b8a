import ProtoSchema.Text.Bytes

/-!
# Decoding what was encoded

The lenient reading of bytes gives back every text that was encoded: no replacement character takes
the place of anything.
-/

namespace ProtoSchema.Text

/-- An encoded character is found at the head of the bytes, whatever follows it. -/
theorem headChar?_utf8EncodeChar (char : Char) (rest : List UInt8) :
    headChar? (String.utf8EncodeChar char ++ rest) = some char := by
  have fits : (String.utf8EncodeChar char).length ≤ 4 := by
    rw [String.length_utf8EncodeChar]
    exact char.utf8Size_le_four
  rw [headChar?, List.take_append, List.take_of_length_le fits, List.toByteArray_append,
    ByteArray.utf8DecodeChar?_utf8EncodeChar_append]

theorem lossyChars_utf8EncodeChar (char : Char) (rest : List UInt8) (bound : Nat) :
    lossyChars (bound + 1) (String.utf8EncodeChar char ++ rest) =
      char :: lossyChars bound rest := by
  have head_eq := headChar?_utf8EncodeChar char rest
  have drop_eq : (String.utf8EncodeChar char ++ rest).drop char.utf8Size = rest := by
    rw [← String.length_utf8EncodeChar, List.drop_left]
  cases content_eq : String.utf8EncodeChar char ++ rest with
  | nil => simp [String.utf8EncodeChar_ne_nil] at content_eq
  | cons byte more =>
      rw [content_eq] at head_eq drop_eq
      rw [lossyChars, head_eq]
      dsimp only
      rw [drop_eq]

theorem lossyChars_flatMap {chars : List Char} {bound : Nat}
    (enough : (chars.flatMap String.utf8EncodeChar).length ≤ bound) :
    lossyChars bound (chars.flatMap String.utf8EncodeChar) = chars := by
  induction chars generalizing bound with
  | nil => cases bound <;> rfl
  | cons char rest ih =>
      have size_pos := char.utf8Size_pos
      rw [List.flatMap_cons, List.length_append, String.length_utf8EncodeChar] at enough
      rcases Nat.exists_eq_add_of_le' (show 1 ≤ bound by omega) with ⟨bound, rfl⟩
      rw [List.flatMap_cons, lossyChars_utf8EncodeChar, ih (by omega)]

theorem decodeLossy_bytes (text : String) : decodeLossy (bytes text) = text := by
  rw [decodeLossy, bytes, lossyChars_flatMap (Nat.le_refl _), String.ofList_toList]

-- Three bytes of a character that breaks off are replaced together, the bytes of an overlong form
-- one by one.
example : decodeLossy [0xF0, 0x9F, 0x98, 0x41, 0xC0, 0x80] = "\uFFFDA\uFFFD\uFFFD" := by
  decide +kernel

end ProtoSchema.Text
