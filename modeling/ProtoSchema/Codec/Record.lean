import ProtoSchema.Codec.Decoder

/-!
# Records

A record is described by the list of its fields, in order. It is read in either of two forms. In the
keyed form it is an object: members may come in any order, members of other names are skipped, and
a field that does not occur takes its default. In the positional form it is an array of the values
of its fields in order, which may end early if all further fields have a default.

The values of the fields are collected in a `Row`, whose type follows from the fields; `Slots` are
the values found so far while an object is being read.
-/

namespace ProtoSchema

/-- A field of a record. -/
structure RecordField where
  name : String
  Value : Type
  /-- The value of a field that does not occur; without one the field must occur. -/
  fallback : Option Value
  read : Decoder Value

namespace RecordField

/-- A field that must occur. -/
def required {α : Type} (name : String) (read : Decoder α) : RecordField :=
  ⟨name, α, none, read⟩

/-- A field that takes a default if it does not occur. -/
def optional {α : Type} (name : String) (fallback : α) (read : Decoder α) : RecordField :=
  ⟨name, α, some fallback, read⟩

end RecordField

/-- A value for each field. -/
def Row : List RecordField → Type
  | [] => Unit
  | field :: fields => field.Value × Row fields

/-- Perhaps a value for each field. -/
def Slots : List RecordField → Type
  | [] => Unit
  | field :: fields => Option field.Value × Slots fields

namespace Slots

/-- No value found yet. -/
def empty : (fields : List RecordField) → Slots fields
  | [] => ()
  | _ :: fields => (none, empty fields)

/-- Reads a member into the slot of its name. A slot takes one value only; a member without a slot
is skipped. -/
def put (name : String) (doc : Doc) :
    (fields : List RecordField) → Slots fields → Except ReadError (Slots fields)
  | [], slots => if doc.wellFormed then .ok slots else .error .malformed
  | field :: fields, (slot, slots) =>
    if field.name = name then
      match slot with
      -- The name alone decides; the value of a repeated member is not looked at.
      | some _ => .error (.duplicateField name)
      | none => do
        let value ← field.read doc
        return (some value, slots)
    else do
      let slots ← put name doc fields slots
      return (slot, slots)

/-- Reads members in order. -/
def putAll (fields : List RecordField) :
    List (Option String × Doc) → Slots fields → Except ReadError (Slots fields)
  | [], slots => .ok slots
  | (some name, doc) :: rest, slots => do
    let slots ← put name doc fields slots
    putAll fields rest slots
  | (none, _) :: _, _ => .error .malformed

/-- The values found, with the defaults of the fields that did not occur. -/
def complete : (fields : List RecordField) → Slots fields → Except ReadError (Row fields)
  | [], _ => .ok ()
  | field :: fields, (slot, slots) =>
    match slot <|> field.fallback with
    | some value => do
      let row ← complete fields slots
      return (value, row)
    | none => .error (.missingField field.name)

end Slots

namespace Row

/-- Reads the keyed form. -/
def ofMembers (fields : List RecordField) (members : List (Option String × Doc)) (ending : Ending) :
    Except ReadError (Row fields) := do
  let slots ← Slots.putAll fields members (Slots.empty fields)
  match ending with
  | .closed => slots.complete fields
  | .broken => .error .malformed

/-- Reads the positional form from the field at `position` on, for a record whose fields are
described as `expected`. -/
def ofItems (expected : Expected) :
    (position : Nat) → (fields : List RecordField) → List Doc → Ending →
      Except ReadError (Row fields)
  | _, _, [], .broken => .error .malformed
  | _, [], [], .closed => .ok ()
  | _, [], _ :: _, .broken => .error .malformed
  -- All fields are read, and `position` is their number.
  | position, [], surplus, .closed => .error (.tooLong (position + surplus.length) position)
  -- The array has ended: every field from here on takes its default or is the one that is missing.
  | position, field :: fields, [], .closed =>
    match field.fallback with
    | some value => do
      let row ← ofItems expected (position + 1) fields [] .closed
      return (value, row)
    | none => .error (.tooShort position expected)
  | position, field :: fields, item :: items, ending => do
    let value ← field.read item
    let row ← ofItems expected (position + 1) fields items ending
    return (value, row)

end Row

/-- Reads a record in either form and builds a value from its fields. -/
def Decoder.record {α : Type} (room : Nat) (title : String) (fields : List RecordField)
    (build : Row fields → α) : Decoder α
  | .arr items ending =>
    if room = 0 then
      .error .malformed
    else
      (Row.ofItems (.elements title fields.length) 0 fields items ending).map build
  | .obj members ending =>
    if room = 0 then
      .error .malformed
    else
      (Row.ofMembers fields members ending).map build
  | doc => mismatch doc (.record title)

end ProtoSchema
