/-!
# Imports and the head of a file

What stands before the declarations of a file: the dialect it is written in, its package, and the
files it imports.
-/

namespace ProtoSchema

/-- The dialect of a file. There is one. -/
inductive Dialect
  | proto3
  deriving DecidableEq, Repr, Inhabited

/-- The name of the dialect, as a file states it. -/
def Dialect.name : Dialect → String
  | proto3 => "proto3"

/-- The package that a file's declarations belong to; the empty name is no package. -/
structure Package where
  name : String := ""
  deriving DecidableEq, Repr, Inhabited

/-- Whether a file of this package states none. -/
def Package.isEmpty (package : Package) : Bool :=
  package.name.isEmpty

/-- How an import is passed on. -/
inductive Visibility
  | unspecified
  | weak
  | exported
  deriving DecidableEq, Repr, Inhabited

namespace Visibility

/-- The three visibilities in the order of their declaration. -/
def all : List Visibility :=
  [unspecified, weak, exported]

/-- The keyword in an import statement, empty for an unspecified visibility. -/
def keyword : Visibility → String
  | unspecified => ""
  | weak => "weak"
  | exported => "public"

/-- The word for a visibility, also for the unspecified one. -/
def word : Visibility → String
  | unspecified => "unspecified"
  | weak => "weak"
  | exported => "public"

end Visibility

/-- A file that another one imports. -/
structure Import where
  path : String
  visibility : Visibility := .unspecified
  deriving DecidableEq, Repr, Inhabited

/-- The import with a visibility in place of the one it has. -/
def Import.withVisibility (statement : Import) (visibility : Visibility) : Import :=
  { statement with visibility }

end ProtoSchema
