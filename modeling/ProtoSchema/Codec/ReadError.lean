import ProtoSchema.Json.Doc

/-!
# Read errors

Why a document is not read as a value of some kind, and the text for each reason.
-/

namespace ProtoSchema

/-- What a reader wants. -/
inductive Expected
  | text
  | boolean
  | sequence
  | unit
  | unsigned32
  | signed32
  | unsigned64
  | variantName
  /-- A record, by its title. -/
  | record (title : String)
  /-- A record given by the values of its fields alone. -/
  | elements (title : String) (count : Nat)
  /-- A value under a tag that says of which kind it is. -/
  | tagged (title : String)
  deriving DecidableEq, Repr, Inhabited

/-- A number of things. -/
def countOf (count : Nat) (thing : String) : String :=
  Nat.repr count ++ " " ++ thing ++ (if count = 1 then "" else "s")

namespace Expected

/-- The text for what is wanted. -/
def describe : Expected → String
  | text => "a string"
  | boolean => "a boolean"
  | sequence => "a sequence"
  | unit => "unit"
  | unsigned32 => "u32"
  | signed32 => "i32"
  | unsigned64 => "usize"
  | variantName => "variant identifier"
  | record title => "struct " ++ title
  | elements title count => "struct " ++ title ++ " with " ++ countOf count "element"
  | tagged title => "adjacently tagged enum " ++ title

end Expected

namespace Shape

/-- How a character is shown between the quotes of a message. -/
def showChar (char : Char) : List Char :=
  match char with
  | '"' => ['\\', '"']
  | '\\' => ['\\', '\\']
  | '\t' => ['\\', 't']
  | '\n' => ['\\', 'n']
  | '\r' => ['\\', 'r']
  | '\x00' => ['\\', '0']
  | char =>
    if Literal.isControl char || char == '\x7f' then
      ['\\', 'u', '\x7b'] ++ Nat.toDigits 16 char.toNat ++ ['\x7d']
    else
      [char]

/-- A text as a message shows it, between quotes. -/
def showText (text : String) : String :=
  String.ofList ('"' :: text.toList.flatMap showChar ++ ['"'])

/-- The text for what was found. -/
def describe : Shape → String
  | null => "null"
  | bool true => "boolean `true`"
  | bool false => "boolean `false`"
  | integer value => "integer `" ++ Int.repr value ++ "`"
  | fractional value => "floating point `" ++ value.text ++ "`"
  | string text => "string " ++ showText text
  | sequence => "sequence"
  | map => "map"

end Shape

/-- Why a document is not read as a value. -/
inductive ReadError
  /-- The text is not JSON, or nothing that stands for a value. -/
  | malformed
  /-- A field occurs twice. -/
  | duplicateField (name : String)
  /-- A field without a default does not occur. -/
  | missingField (name : String)
  /-- A value is of the wrong type. -/
  | invalidType (found : Shape) (expected : Expected)
  /-- An integer is out of range. -/
  | outOfRange (value : Int) (expected : Expected)
  /-- A sequence ends at a place where an element is needed. -/
  | tooShort (length : Nat) (expected : Expected)
  /-- A sequence goes on behind its last element. -/
  | tooLong (length count : Nat)
  /-- A name is not among those that there are. -/
  | unknownVariant (name : String) (variants : List String)
  /-- A file is in another dialect. -/
  | unsupportedDialect (name : String)
  deriving DecidableEq, Repr, Inhabited

namespace ReadError

/-- The choice between names. -/
def choice : List String → String
  | [] => "there are no variants"
  | [only] => "expected `" ++ only ++ "`"
  | [first, second] => "expected `" ++ first ++ "` or `" ++ second ++ "`"
  | names => "expected one of " ++ ", ".intercalate (names.map fun name => "`" ++ name ++ "`")

/-- The text of an error. It does not say where in the document the error is met. -/
def message : ReadError → String
  | malformed => "malformed JSON"
  | duplicateField name => "duplicate field `" ++ name ++ "`"
  | missingField name => "missing field `" ++ name ++ "`"
  | invalidType found expected =>
    "invalid type: " ++ found.describe ++ ", expected " ++ expected.describe
  | outOfRange value expected =>
    "invalid value: integer `" ++ Int.repr value ++ "`, expected " ++ expected.describe
  | tooShort length expected =>
    "invalid length " ++ Nat.repr length ++ ", expected " ++ expected.describe
  | tooLong length count =>
    "invalid length " ++ Nat.repr length ++ ", expected " ++ countOf count "element" ++
      " in sequence"
  | unknownVariant name variants => "unknown variant `" ++ name ++ "`, " ++ choice variants
  | unsupportedDialect name =>
    "unsupported syntax '" ++ name ++ "': only \"proto3\" is supported"

/-- The error as it arises while a text is being read: an element too many is then met as a fault
of the text, since the bracket was due. -/
def inText : ReadError → ReadError
  | tooLong _ _ => malformed
  | error => error

end ReadError

end ProtoSchema
