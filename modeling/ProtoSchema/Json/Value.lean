import ProtoSchema.Json.Literal

/-!
# JSON to write

The values that are written as JSON, and their text: compact, on one line, members in the order
given.
-/

namespace ProtoSchema

/-- A value to write. There are only integers among its numbers, since nothing else is written. -/
inductive Json
  | null
  | bool (value : Bool)
  | int (value : Int)
  | str (value : String)
  | arr (items : List Json)
  | obj (members : List (String × Json))
  deriving Repr, Inhabited

namespace Json

mutual

/-- The text of a value. -/
def chars : Json → List Char
  | null => "null".toList
  | bool true => "true".toList
  | bool false => "false".toList
  | int value => (Int.repr value).toList
  | str value => Literal.write value.toList
  | arr items => '[' :: itemChars items ++ [']']
  | obj members => '\x7b' :: memberChars members ++ ['\x7d']

/-- The text of items, with commas between them. -/
def itemChars : List Json → List Char
  | [] => []
  | [item] => item.chars
  | item :: rest => item.chars ++ ',' :: itemChars rest

/-- The text of members, with commas between them. -/
def memberChars : List (String × Json) → List Char
  | [] => []
  | [(name, value)] => Literal.write name.toList ++ ':' :: value.chars
  | (name, value) :: rest =>
    Literal.write name.toList ++ ':' :: value.chars ++ ',' :: memberChars rest

end

/-- The text of a value. -/
def render (json : Json) : String :=
  String.ofList json.chars

mutual

/-- How deep containers are nested in a value. -/
def depth : Json → Nat
  | arr items => itemDepth items + 1
  | obj members => memberDepth members + 1
  | _ => 0

/-- The greatest depth of items. -/
def itemDepth : List Json → Nat
  | [] => 0
  | item :: rest => max item.depth (itemDepth rest)

/-- The greatest depth of the values of members. -/
def memberDepth : List (String × Json) → Nat
  | [] => 0
  | (_, value) :: rest => max value.depth (memberDepth rest)

end

/-- A list under a name; an empty list is left out. -/
def listMember (name : String) (items : List Json) : List (String × Json) :=
  if items.isEmpty then [] else [(name, arr items)]

/-- A text under a name; an empty text is left out. -/
def textMember (name text : String) : List (String × Json) :=
  if text.isEmpty then [] else [(name, str text)]

end Json

end ProtoSchema
