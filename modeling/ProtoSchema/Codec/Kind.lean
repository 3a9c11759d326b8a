import ProtoSchema.Codec.File
import ProtoSchema.Codec.TypeDecl
import ProtoSchema.Schema.Node

/-!
# Kinds

Every kind of value that has a JSON form, under one roof: the word for the kind, the type of its
values, and how they are written and read.
-/

namespace ProtoSchema

/-- The kinds of values. The settings of files, of fields and of enum values are three kinds, since
their records have different titles. -/
inductive Kind
  | file
  | dialect
  | imported
  | package
  | option
  | message
  | messageField
  | oneof
  | oneofField
  | fieldOption
  | enum
  | enumValue
  | enumValueOption
  | service
  | rpc
  | returnType
  | comment
  | typeDecl
  | scalarType
  | visibility
  | config
  deriving DecidableEq, Repr, Inhabited

namespace Kind

/-- Every kind, in the order of declaration. -/
def all : List Kind :=
  [file, dialect, imported, package, option, message, messageField, oneof, oneofField, fieldOption,
    enum, enumValue, enumValueOption, service, rpc, returnType, comment, typeDecl, scalarType,
    visibility, config]

/-- The word by which a kind is asked for. -/
def word : Kind → String
  | file => "file"
  | dialect => "syntax"
  | imported => "import"
  | package => "package"
  | option => "option"
  | message => "message"
  | messageField => "message_field"
  | oneof => "oneof"
  | oneofField => "oneof_field"
  | fieldOption => "field_option"
  | enum => "enum"
  | enumValue => "enum_field"
  | enumValueOption => "enum_value_option"
  | service => "service"
  | rpc => "rpc"
  | returnType => "return_type"
  | comment => "comment"
  | typeDecl => "nested_type"
  | scalarType => "scalar_type"
  | visibility => "visibility"
  | config => "config"

/-- The kind of a word. -/
def ofWord? (word : String) : Option Kind :=
  all.find? (·.word == word)

/-- The type of the values of a kind. -/
abbrev Value : Kind → Type
  | file => File
  | dialect => Dialect
  | imported => Import
  | package => Package
  | option => Setting
  | message => Message
  | messageField => MessageField
  | oneof => OneOf
  | oneofField => OneOfField
  | fieldOption => Setting
  | enum => Enumeration
  | enumValue => EnumValue
  | enumValueOption => Setting
  | service => Service
  | rpc => Rpc
  | returnType => ReturnType
  | comment => Comment
  | typeDecl => TypeDecl
  | scalarType => ScalarType
  | visibility => Visibility
  | config => Config

instance : (kind : Kind) → DecidableEq kind.Value
  | file => inferInstanceAs (DecidableEq File)
  | dialect => inferInstanceAs (DecidableEq Dialect)
  | imported => inferInstanceAs (DecidableEq Import)
  | package => inferInstanceAs (DecidableEq Package)
  | option => inferInstanceAs (DecidableEq Setting)
  | message => inferInstanceAs (DecidableEq Message)
  | messageField => inferInstanceAs (DecidableEq MessageField)
  | oneof => inferInstanceAs (DecidableEq OneOf)
  | oneofField => inferInstanceAs (DecidableEq OneOfField)
  | fieldOption => inferInstanceAs (DecidableEq Setting)
  | enum => inferInstanceAs (DecidableEq Enumeration)
  | enumValue => inferInstanceAs (DecidableEq EnumValue)
  | enumValueOption => inferInstanceAs (DecidableEq Setting)
  | service => inferInstanceAs (DecidableEq Service)
  | rpc => inferInstanceAs (DecidableEq Rpc)
  | returnType => inferInstanceAs (DecidableEq ReturnType)
  | comment => inferInstanceAs (DecidableEq Comment)
  | typeDecl => inferInstanceAs (DecidableEq TypeDecl)
  | scalarType => inferInstanceAs (DecidableEq ScalarType)
  | visibility => inferInstanceAs (DecidableEq Visibility)
  | config => inferInstanceAs (DecidableEq Config)

/-- Writes a value of any kind as JSON. -/
def toJson : (kind : Kind) → kind.Value → Json
  | file => File.toJson
  | dialect => Dialect.toJson
  | imported => Import.toJson
  | package => Package.toJson
  | option => Setting.toJson
  | message => Message.toJson
  | messageField => MessageField.toJson
  | oneof => OneOf.toJson
  | oneofField => OneOfField.toJson
  | fieldOption => Setting.toJson
  | enum => Enumeration.toJson
  | enumValue => EnumValue.toJson
  | enumValueOption => Setting.toJson
  | service => Service.toJson
  | rpc => Rpc.toJson
  | returnType => ReturnType.toJson
  | comment => Comment.toJson
  | typeDecl => TypeDecl.toJson
  | scalarType => ScalarType.toJson
  | visibility => Visibility.toJson
  | config => Config.toJson

/-- Reads a document as a value. -/
def decode (room : Nat) : (kind : Kind) → Decoder kind.Value
  | file => File.read room
  | dialect => Dialect.read
  | imported => Import.read room
  | package => Package.read
  | option => Setting.read Setting.plainTitle room
  | message => Message.read room
  | messageField => MessageField.read room
  | oneof => OneOf.read room
  | oneofField => OneOfField.read room
  | fieldOption => Setting.read Setting.fieldTitle room
  | enum => Enumeration.read room
  | enumValue => EnumValue.read room
  | enumValueOption => Setting.read Setting.enumValueTitle room
  | service => Service.read room
  | rpc => Rpc.read room
  | returnType => ReturnType.read room
  | comment => Comment.read room
  | typeDecl => TypeDecl.read room
  | scalarType => ScalarType.read room
  | visibility => Visibility.read room
  | config => Config.read room

/-- The error of a kind as it arises in a text. Declarations sort out their errors themselves,
because they may have set a part of the text aside. -/
def errorInText : Kind → ReadError → ReadError
  | typeDecl => id
  | _ => ReadError.inText

/-- Reads a document that stands in a text as a value. -/
def readDoc (kind : Kind) (doc : Doc) : Except ReadError kind.Value :=
  (kind.decode Decoder.maxNesting doc).mapError kind.errorInText

/-- Reads a whole text as a value. -/
def read (kind : Kind) (text : String) : Except ReadError kind.Value :=
  Decoder.ofText kind.readDoc text

/-- The JSON text of a value. -/
def write (kind : Kind) (value : kind.Value) : String :=
  (kind.toJson value).render

/-- The printable node that holds a value, for the kinds that can be printed. -/
def node? : (kind : Kind) → kind.Value → Option Node
  | file => fun value => some (.file value)
  | dialect => fun value => some (.dialect value)
  | imported => fun value => some (.imported value)
  | package => fun value => some (.package value)
  | option => fun value => some (.option value)
  | message => fun value => some (.message value)
  | messageField => fun value => some (.messageField value)
  | oneof => fun value => some (.oneof value)
  | oneofField => fun value => some (.oneofField value)
  | fieldOption => fun value => some (.fieldOption value)
  | enum => fun value => some (.enum value)
  | enumValue => fun value => some (.enumValue value)
  | enumValueOption => fun value => some (.enumValueOption value)
  | service => fun value => some (.service value)
  | rpc => fun value => some (.rpc value)
  | returnType => fun value => some (.returnType value)
  | comment => fun value => some (.comment value)
  | _ => fun _ => none

end Kind

end ProtoSchema
