import ProtoSchema.Codec.Message

/-!
# JSON form of type declarations

A declaration of a message or an enum is an object with two members: a tag, which says of which
kind the declaration is, and the declaration itself. They may come in either order. With the tag
first, the declaration is read as it comes. With the declaration first, it is set aside until the
tag is known; it must then be a document that stands for a value, and an element too many is not a
fault of the text any more but an error of its own. The tag and the declaration may also be the two
items of an array; only there a tag of another type is told apart from a fault of the text.
-/

namespace ProtoSchema

/-- Whether a declaration is of a message or of an enum. -/
inductive DeclKind
  | message
  | enum
  deriving DecidableEq, Repr, Inhabited

namespace DeclKind

/-- The tag of a declaration. -/
def word : DeclKind → String
  | message => "message"
  | enum => "enum"

/-- The kinds under their tags. -/
def tags : List (String × DeclKind) :=
  [(message.word, message), (enum.word, enum)]

/-- Reads a tag under its name. -/
def read (room : Nat) : Decoder DeclKind :=
  .variant room tags

/-- Reads a tag in its place in an array, where it is a name and nothing else. -/
def readItem : Decoder DeclKind :=
  .variantName tags

/-- Reads a declaration of a kind. -/
def readDecl (room : Nat) : DeclKind → Decoder TypeDecl
  | message => fun doc => (Message.read room doc).map .message
  | enum => fun doc => (Enumeration.read room doc).map .enum

end DeclKind

namespace TypeDecl

/-- The name of the tag. -/
def tagName : String := "kind"

/-- The name of the member that holds the declaration. -/
def contentName : String := "decl"

/-- What is expected where a declaration is read. -/
def expected : Expected := .tagged "NestedType"

/-- Writes a declaration under its tag, the tag first. -/
def toJson : TypeDecl → Json
  | message declared =>
    .obj [(tagName, .str DeclKind.message.word), (contentName, declared.toJson)]
  | enum declared => .obj [(tagName, .str DeclKind.enum.word), (contentName, declared.toJson)]

/-- What has been found of a declaration. -/
inductive Found
  | nothing
  | tag (kind : DeclKind)
  | content (doc : Doc)
  | both (decl : TypeDecl)

/-- Reads a declaration as it comes. -/
def readNow (room : Nat) (kind : DeclKind) (doc : Doc) : Except ReadError TypeDecl :=
  (kind.readDecl room doc).mapError ReadError.inText

/-- Takes the tag. -/
def Found.addTag (room : Nat) (doc : Doc) : Found → Except ReadError Found
  | nothing => do
    let kind ← DeclKind.read room doc
    return tag kind
  | content decl => do
    let kind ← DeclKind.read room doc
    -- The declaration was set aside, so its errors are not those of a text any more.
    let decl ← kind.readDecl room decl
    return both decl
  | _ => .error (.duplicateField tagName)

/-- Takes the declaration. -/
def Found.addContent (room : Nat) (doc : Doc) : Found → Except ReadError Found
  | nothing => if doc.meaningful room then .ok (content doc) else .error .malformed
  | tag kind => do
    let decl ← readNow room kind doc
    return both decl
  | _ => .error (.duplicateField contentName)

/-- Takes members in order; those of other names are skipped. -/
def Found.addAll (room : Nat) : List (Option String × Doc) → Found → Except ReadError Found
  | [], found => .ok found
  | (some name, doc) :: rest, found =>
    if name = tagName then do
      let found ← found.addTag room doc
      addAll room rest found
    else if name = contentName then do
      let found ← found.addContent room doc
      addAll room rest found
    else if doc.wellFormed then
      addAll room rest found
    else
      .error .malformed
  | (none, _) :: _, _ => .error .malformed

/-- The declaration found, if nothing is missing. -/
def Found.complete : Found → Except ReadError TypeDecl
  | both decl => .ok decl
  | tag _ => .error (.missingField contentName)
  | _ => .error (.missingField tagName)

/-- Reads the form in which the tag and the declaration are the items of an array. -/
def ofItems (room : Nat) (ending : Ending) : List Doc → Except ReadError TypeDecl
  | [] =>
    match ending with
    | .closed => .error (.tooShort 0 expected)
    | .broken => .error .malformed
  | [tag] => do
    let _ ← DeclKind.readItem tag
    match ending with
    | .closed => .error (.tooShort 1 expected)
    | .broken => .error .malformed
  | tag :: content :: rest => do
    let kind ← DeclKind.readItem tag
    let decl ← readNow room kind content
    if rest.isEmpty && ending == .closed then .ok decl else .error .malformed

/-- Reads a declaration in any of its forms. -/
def read (room : Nat) : Decoder TypeDecl
  | .arr items ending =>
    if room = 0 then .error .malformed else ofItems (room - 1) ending items
  | .obj members ending =>
    if room = 0 then
      .error .malformed
    else do
      let found ← Found.addAll (room - 1) members .nothing
      match ending with
      | .closed => found.complete
      | .broken => .error .malformed
  | doc => Decoder.mismatch doc expected

end TypeDecl

end ProtoSchema
