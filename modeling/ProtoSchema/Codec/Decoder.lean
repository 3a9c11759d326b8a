import ProtoSchema.Codec.ReadError
import ProtoSchema.Json.Scan

/-!
# Decoders

A decoder reads a document as a value. It walks the document in order and answers with its first
problem. Decoders of things that are containers take the number of containers that may still be
opened: with no room left, opening one is a fault.
-/

namespace ProtoSchema

/-- A reader of documents, which answers with a value or with its first problem. -/
abbrev Decoder (α : Type) : Type :=
  Doc → Except ReadError α

namespace Decoder

variable {α : Type}

/-- How many containers of a text may be open at once. -/
def maxNesting : Nat := 127

/-- The error for a document of another type than expected. A document that stands for no value is
malformed first. -/
def mismatch (doc : Doc) (expected : Expected) : Except ReadError α :=
  match doc.shape? with
  | some shape => .error (.invalidType shape expected)
  | none => .error .malformed

/-- Reads a string. One with a lone surrogate stands for no value. -/
def text : Decoder String
  | .str (some text) => .ok text
  | doc => mismatch doc .text

/-- Reads a truth value. -/
def boolean : Decoder Bool
  | .bool value => .ok value
  | doc => mismatch doc .boolean

/-- Reads nothing. -/
def unit : Decoder Unit
  | .null => .ok ()
  | doc => mismatch doc .unit

/-- Reads an integer between two bounds. -/
def integer (least greatest : Int) (expected : Expected) : Decoder Int
  | .number (.integer value) =>
    if least ≤ value ∧ value ≤ greatest then .ok value else .error (.outOfRange value expected)
  | doc => mismatch doc expected

/-- Reads an unsigned integer of 32 bits. -/
def unsigned32 : Decoder UInt32 := fun doc =>
  (integer 0 4294967295 .unsigned32 doc).map fun value => UInt32.ofNat value.toNat

/-- Reads a signed integer of 32 bits. -/
def signed32 : Decoder Int32 := fun doc =>
  (integer (-2147483648) 2147483647 .signed32 doc).map Int32.ofInt

/-- Reads an unsigned integer of 64 bits. -/
def unsigned64 : Decoder UInt64 := fun doc =>
  (integer 0 18446744073709551615 .unsigned64 doc).map fun value => UInt64.ofNat value.toNat

/-- Reads items one after the other. -/
def items (item : Decoder α) : List Doc → Except ReadError (List α)
  | [] => .ok []
  | first :: rest => do
    let value ← item first
    let values ← items item rest
    return value :: values

/-- Reads an array of any number of items. -/
def list (room : Nat) (item : Decoder α) : Decoder (List α)
  | .arr docs ending =>
    if room = 0 then
      .error .malformed
    else do
      let values ← items item docs
      match ending with
      | .closed => .ok values
      | .broken => .error .malformed
  | doc => mismatch doc .sequence

/-- The value of a name. -/
def named (variants : List (String × α)) (name : String) : Except ReadError α :=
  match variants.lookup name with
  | some value => .ok value
  | none => .error (.unknownVariant name (variants.map Prod.fst))

/-- Reads one of several named values, given by its name alone. -/
def variantName (variants : List (String × α)) : Decoder α
  | .str (some name) => named variants name
  | doc => mismatch doc .variantName

/-- Reads one of several named values, given by its name or by an object with that name as its only
member and nothing as its value. If anything but a string stands in the place of that name, the
text is malformed there, and what stands there is not looked at. -/
def variant (room : Nat) (variants : List (String × α)) : Decoder α
  | .str (some name) => named variants name
  | .obj members ending =>
    if room = 0 then
      .error .malformed
    else
      match members with
      | (some name, doc) :: rest => do
        let value ← named variants name
        unit doc
        if rest.isEmpty && ending == .closed then .ok value else .error .malformed
      | _ => .error .malformed
  | _ => .error .malformed

/-- Reads a whole text. -/
def ofText (decoder : Decoder α) (text : String) : Except ReadError α :=
  let document := Document.ofText text
  match decoder document.root with
  | .error error => .error error
  | .ok value => if document.complete then .ok value else .error .malformed

end Decoder

end ProtoSchema
