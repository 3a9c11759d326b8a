/-!
# Print configuration

The one thing that can be chosen about the printed form is how far a block is indented.
-/

namespace ProtoSchema

/-- How many spaces a block is indented by unless a configuration says otherwise. -/
def defaultIndent : UInt64 := 2

/-- What can be chosen about printing. -/
structure Config where
  /-- How many spaces each block is indented by. -/
  indent : UInt64 := defaultIndent
  deriving DecidableEq, Repr, Inhabited

end ProtoSchema
