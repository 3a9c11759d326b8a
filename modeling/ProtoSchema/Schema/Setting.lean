/-!
# Option settings

Files, services, enums, enum values and fields all carry settings of the form `name = value`. The
value is raw text: whoever builds the setting writes quotes and literals as they shall appear.
-/

namespace ProtoSchema

/-- A setting `name = value` of an option. -/
structure Setting where
  name : String
  value : String
  deriving DecidableEq, Repr, Inhabited

end ProtoSchema
