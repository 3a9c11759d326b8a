import ProtoSchema.Json.Literal
import ProtoSchema.Json.Number

/-!
# JSON as found

A document is what a text turns out to hold when it is read from left to right as JSON. A text that
is not JSON is one too: everything up to the first fault is kept, and a container that breaks off
there says so. A reader that walks a document in order therefore meets its own problems and the
faults of the text in the order in which they stand there.

Some things are well formed as text and yet stand for no value: a string with a lone surrogate, a
number that is too great. They are kept, because they do no harm in a part that nobody reads.
-/

namespace ProtoSchema

/-- How a value looks to a reader that wants another one. -/
inductive Shape
  | null
  | bool (value : Bool)
  | integer (value : Int)
  | fractional (value : Double)
  | string (text : String)
  | sequence
  | map
  deriving DecidableEq, Repr, Inhabited

/-- Whether a container ends with its bracket or breaks off at a fault. -/
inductive Ending
  | closed
  | broken
  deriving DecidableEq, Repr, Inhabited

/-- What stands in a text, up to the first fault. -/
inductive Doc
  | null
  | bool (value : Bool)
  | number (value : Number)
  /-- A string; without its text if that has a lone surrogate. -/
  | str (text : Option String)
  | arr (items : List Doc) (ending : Ending)
  /-- An object; a member goes without its name if that has a lone surrogate. -/
  | obj (members : List (Option String × Doc)) (ending : Ending)
  /-- No value stands here. -/
  | fault
  deriving Repr, Inhabited

namespace Doc

/-- The shape of a value; containers are not looked into. -/
def shape? : Doc → Option Shape
  | null => some .null
  | bool value => some (.bool value)
  | number (.integer value) => some (.integer value)
  | number (.fractional value) => some (.fractional value)
  | number .overflow => none
  | str (some text) => some (.string text)
  | str none => none
  | arr _ _ => some .sequence
  | obj _ _ => some .map
  | fault => none

mutual

/-- Whether a document is well formed as text, so that a reader may skip it. -/
def wellFormed : Doc → Bool
  | fault => false
  | arr items ending => itemsWellFormed items && ending == .closed
  | obj members ending => membersWellFormed members && ending == .closed
  | _ => true

/-- Whether all items are well formed. -/
def itemsWellFormed : List Doc → Bool
  | [] => true
  | item :: rest => item.wellFormed && itemsWellFormed rest

/-- Whether all members are well formed. -/
def membersWellFormed : List (Option String × Doc) → Bool
  | [] => true
  | (_, value) :: rest => value.wellFormed && membersWellFormed rest

end

mutual

/-- Whether a document stands for a value whose containers are nested at most `room` deep. -/
def meaningful (room : Nat) : Doc → Bool
  | null => true
  | bool _ => true
  | number value => value != .overflow
  | str text => text.isSome
  | arr items ending => 0 < room && itemsMeaningful (room - 1) items && ending == .closed
  | obj members ending => 0 < room && membersMeaningful (room - 1) members && ending == .closed
  | fault => false

/-- Whether all items stand for values. -/
def itemsMeaningful (room : Nat) : List Doc → Bool
  | [] => true
  | item :: rest => item.meaningful room && itemsMeaningful room rest

/-- Whether all members have a name and stand for values. -/
def membersMeaningful (room : Nat) : List (Option String × Doc) → Bool
  | [] => true
  | (name, value) :: rest =>
    name.isSome && value.meaningful room && membersMeaningful room rest

end

end Doc

end ProtoSchema
