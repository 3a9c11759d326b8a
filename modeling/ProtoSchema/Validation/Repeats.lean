/-!
# Repeated members

The members of a list that occurred before, found in one walk that keeps what it has seen.
-/

namespace ProtoSchema

variable {α : Type} [DecidableEq α]

/-- The members of a list that are among those already seen or occur earlier in the list. -/
def repeatsAfter (seen : List α) : List α → List α
  | [] => []
  | member :: rest =>
    if member ∈ seen then
      member :: repeatsAfter seen rest
    else
      repeatsAfter (member :: seen) rest

/-- The members of a list that occur earlier in the list, one for each repetition. -/
def repeats (members : List α) : List α :=
  repeatsAfter [] members

end ProtoSchema
