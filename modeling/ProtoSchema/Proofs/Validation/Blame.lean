import Mathlib.Data.List.Dedup
import ProtoSchema.Validation.Validate

/-!
# Blame by position

What validation reports, said without a walk that remembers anything. Whether a member of a list is
to blame depends on the member and on those at earlier positions only, and `blameEach` collects the
blame of all positions in order. Messages at any depth are found by `Message.walk`, which lists them
in the order of the source text, each under the names that lead to it.

The main statement is `File.validate_eq_blame`. Its three parts are about lists that are scanned
with a set of what was seen (`map_repeats`, `fieldProblems_eq_blame`), about enums, whose scan is
left out when a count shows that it would find nothing, and about the recursion over nested
messages, where a dotted path takes the place of the list of names.
-/

namespace ProtoSchema

section Positions

variable {α β : Type}

/-- The blame of every position of a list in order, where the blame of a position depends on the
members before it and on the member itself. -/
def blameEach (blame : (earlier : List α) → α → List β) (members : List α) : List β :=
  (List.finRange members.length).flatMap fun (position : Fin members.length) =>
    blame (members.take position) (members.get position)

theorem blameEach_cons (blame : List α → α → List β) (member : α) (rest : List α) :
    blameEach blame (member :: rest) =
      blame [] member ++ blameEach (fun earlier => blame (member :: earlier)) rest := by
  simp only [blameEach, List.length_cons, List.finRange_succ, List.flatMap_cons, List.flatMap_map]
  rfl

/-- Blame for a member that also stands at an earlier position. -/
def blameCopy [DecidableEq α] (report : α → β) (earlier : List α) (member : α) : List β :=
  if member ∈ earlier then [report member] else []

/-- The scan that remembers what it has seen reports the members that stand at an earlier
position. -/
theorem map_repeatsAfter [DecidableEq α] (report : α → β) {seen earlier : List α}
    (same : ∀ member, member ∈ seen ↔ member ∈ earlier) (members : List α) :
    (repeatsAfter seen members).map report =
      blameEach (fun before => blameCopy report (earlier ++ before)) members := by
  induction members generalizing seen earlier with
  | nil => rfl
  | cons member rest ih =>
      have remembered : ∀ other, other ∈ member :: seen ↔ other ∈ earlier ++ [member] := by
        intro other
        simp only [List.mem_cons, List.mem_append, List.not_mem_nil, or_false, same]
        exact or_comm
      have shifted : (fun before => blameCopy report (earlier ++ member :: before)) =
          fun before => blameCopy report (earlier ++ [member] ++ before) := by
        funext before
        simp
      rw [blameEach_cons, List.append_nil, shifted, repeatsAfter]
      by_cases repeated : member ∈ seen
      · have remembered' : ∀ other, other ∈ seen ↔ other ∈ earlier ++ [member] := by
          intro other
          rw [← remembered, List.mem_cons]
          exact ⟨Or.inr, fun found => found.elim (fun equal => equal ▸ repeated) id⟩
        rw [if_pos repeated, List.map_cons, ih remembered', blameCopy,
          if_pos ((same member).mp repeated), List.singleton_append]
      · rw [if_neg repeated, ih remembered, blameCopy,
          if_neg (fun found => repeated ((same member).mpr found)), List.nil_append]

theorem map_repeats [DecidableEq α] (report : α → β) (members : List α) :
    (repeats members).map report = blameEach (blameCopy report) members :=
  map_repeatsAfter report (fun _ => Iff.rfl) members

theorem repeatsAfter_eq_nil [DecidableEq α] {seen members : List α} (distinct : members.Nodup)
    (unseen : ∀ member ∈ members, member ∉ seen) : repeatsAfter seen members = [] := by
  induction members generalizing seen with
  | nil => rfl
  | cons member rest ih =>
      rcases List.nodup_cons.mp distinct with ⟨member_new, rest_distinct⟩
      rw [repeatsAfter, if_neg (unseen member List.mem_cons_self)]
      apply ih rest_distinct
      intro other other_mem
      simp only [List.mem_cons, not_or]
      refine ⟨?_, unseen other (List.mem_cons_of_mem _ other_mem)⟩
      rintro rfl
      exact member_new other_mem

/-- In a list without copies there is nothing to report. -/
theorem repeats_eq_nil [DecidableEq α] {members : List α} (distinct : members.Nodup) :
    repeats members = [] :=
  repeatsAfter_eq_nil distinct fun _ _ => List.not_mem_nil

end Positions

/-- Blame for a declaration whose name an earlier one has. -/
def blameDeclarations (scope : String) (names : List String) : List Problem :=
  blameEach (blameCopy (.duplicateDeclaration scope)) names

/-- Blame for a field number by itself. -/
def blameIndex (message field : String) (index : UInt32) : List Problem :=
  if ¬(1 ≤ index.toNat ∧ index.toNat ≤ 536870911) then
    [.invalidFieldIndex message field index]
  else if 19000 ≤ index.toNat ∧ index.toNat ≤ 19999 then
    [.reservedFieldIndex message field index]
  else
    []

/-- Blame for a field after earlier fields of its message: for its name, then for its number as one
of several, then for its number by itself. -/
def blameField (message : String) (earlier : List (String × UInt32)) (field : String × UInt32) :
    List Problem :=
  (if ∃ other ∈ earlier, other.1 = field.1 then [.duplicateFieldName message field.1] else []) ++
    (if ∃ other ∈ earlier, other.2 = field.2 then [.duplicateFieldIndex message field.2] else []) ++
    blameIndex message field.1 field.2

/-- Blame for an enum and its values. -/
def Enumeration.blame (path : String) (enumeration : Enumeration) : List Problem :=
  (if enumeration.values = [] then [.emptyEnum path] else []) ++
    (enumeration.values.take 1).flatMap (fun first =>
      if first.index ≠ 0 then [.firstEnumValueNotZero path first.name first.index] else []) ++
    blameEach (blameCopy (.duplicateEnumValue path)) (enumeration.values.map EnumValue.name)

/-- Blame for a service. -/
def Service.blame (service : Service) : List Problem :=
  blameEach (blameCopy (.duplicateRpcName service.name)) (service.rpcs.map Rpc.name)

namespace Message

/-- The plain fields of a message and behind them the members of its oneofs. -/
def allFields (message : Message) : List (String × UInt32) :=
  message.fields.map (fun field => (field.name, field.index)) ++
    (message.oneofs.flatMap OneOf.fields).map fun field => (field.name, field.index)

/-- Blame for what stands in the body of a message, nested messages apart. -/
def blame (path : String) (message : Message) : List Problem :=
  blameEach (blameField path) message.allFields ++
    blameDeclarations ("message '" ++ path ++ "'")
      (message.messages.map Message.name ++ message.enums.map Enumeration.name ++
        message.oneofs.map OneOf.name) ++
    message.enums.flatMap fun enumeration => enumeration.blame (path ++ "." ++ enumeration.name)

mutual

/-- A message and all messages in it, each behind the one that holds it, with the names of the
enclosing messages and its own name. -/
def walk (enclosing : List String) : Message → List (List String × Message)
  | ⟨name, comment, fields, enums, messages, oneofs⟩ =>
    (enclosing ++ [name], ⟨name, comment, fields, enums, messages, oneofs⟩) ::
      walkAll (enclosing ++ [name]) messages

/-- Messages one after the other, each followed by the messages in it. -/
def walkAll (enclosing : List String) : List Message → List (List String × Message)
  | [] => []
  | first :: rest => walk enclosing first ++ walkAll enclosing rest

end

end Message

namespace File

/-- The scope that the declarations of a file are reported in. -/
def blameScope (file : File) : String :=
  if file.package.name = "" then "file" else "package '" ++ file.package.name ++ "'"

/-- Everything that is to blame in a file. -/
def blame (file : File) : List Problem :=
  blameDeclarations file.blameScope
      (file.messages.map Message.name ++ file.enums.map Enumeration.name ++
        file.services.map Service.name) ++
    (Message.walkAll [] file.messages).flatMap
      (fun (path, message) => message.blame (".".intercalate path)) ++
    file.enums.flatMap (fun enumeration => enumeration.blame enumeration.name) ++
    file.services.flatMap Service.blame

end File

theorem indexProblems_eq_blame (message field : String) (index : UInt32) :
    indexProblems message field index = blameIndex message field index := by
  have invalid_iff : (index = 0 ∨ maxFieldIndex < index) ↔
      ¬(1 ≤ index.toNat ∧ index.toNat ≤ 536870911) := by
    rw [← UInt32.toNat_inj, UInt32.lt_iff_toNat_lt]
    simp only [maxFieldIndex, UInt32.reduceToNat]
    omega
  have reserved_iff : (reservedStart ≤ index ∧ index ≤ reservedEnd) ↔
      (19000 ≤ index.toNat ∧ index.toNat ≤ 19999) := by
    simp only [UInt32.le_iff_toNat_le, reservedStart, reservedEnd, UInt32.reduceToNat]
  simp only [indexProblems, blameIndex, invalid_iff, reserved_iff]

/-- The scan over the fields of a message remembers exactly the names and numbers of the fields
before. -/
theorem fieldProblems_after (message : String) {names : List String} {indexes : List UInt32}
    {earlier : List (String × UInt32)}
    (sameNames : ∀ name, name ∈ names ↔ ∃ other ∈ earlier, other.1 = name)
    (sameIndexes : ∀ index, index ∈ indexes ↔ ∃ other ∈ earlier, other.2 = index)
    (fields : List (String × UInt32)) :
    fieldProblems message names indexes fields =
      blameEach (fun before => blameField message (earlier ++ before)) fields := by
  induction fields generalizing names indexes earlier with
  | nil => rfl
  | cons field rest ih =>
      rcases field with ⟨name, index⟩
      have moreNames : ∀ other, other ∈ name :: names ↔
          ∃ field ∈ earlier ++ [(name, index)], field.1 = other := by
        intro other
        simp only [List.mem_cons, sameNames, List.mem_append, List.not_mem_nil, or_false]
        grind
      have moreIndexes : ∀ other, other ∈ index :: indexes ↔
          ∃ field ∈ earlier ++ [(name, index)], field.2 = other := by
        intro other
        simp only [List.mem_cons, sameIndexes, List.mem_append, List.not_mem_nil, or_false]
        grind
      have shifted : (fun before => blameField message (earlier ++ (name, index) :: before)) =
          fun before => blameField message (earlier ++ [(name, index)] ++ before) := by
        funext before
        simp
      rw [blameEach_cons, List.append_nil, shifted, ← ih moreNames moreIndexes, fieldProblems,
        blameField, indexProblems_eq_blame]
      simp only [sameNames, sameIndexes]

theorem fieldProblems_eq_blame (message : String) (fields : List (String × UInt32)) :
    fieldProblems message [] [] fields = blameEach (blameField message) fields := by
  have noNames : ∀ name, name ∈ ([] : List String) ↔
      ∃ other ∈ ([] : List (String × UInt32)), other.1 = name := by
    simp
  have noIndexes : ∀ index, index ∈ ([] : List UInt32) ↔
      ∃ other ∈ ([] : List (String × UInt32)), other.2 = index := by
    simp
  exact fieldProblems_after message noNames noIndexes fields

namespace Enumeration

theorem valueNames_eq_dedup (enumeration : Enumeration) :
    enumeration.valueNames = (enumeration.values.map EnumValue.name).dedup := by
  rw [valueNames]
  induction enumeration.values with
  | nil => rfl
  | cons value rest ih =>
      rw [List.foldr_cons, List.map_cons, ih]
      by_cases repeated : value.name ∈ rest.map EnumValue.name
      · rw [List.dedup_cons_of_mem repeated, List.insert_of_mem (List.mem_dedup.mpr repeated)]
      · rw [List.dedup_cons_of_notMem repeated,
          List.insert_of_not_mem (fun found => repeated (List.mem_dedup.mp found))]

/-- As many distinct names as values means that no two values share a name. -/
theorem nodup_of_valueNames_length {enumeration : Enumeration}
    (length_eq : enumeration.valueNames.length = enumeration.values.length) :
    (enumeration.values.map EnumValue.name).Nodup := by
  rw [valueNames_eq_dedup, ← List.length_map (f := EnumValue.name)] at length_eq
  exact List.dedup_eq_self.mp ((List.dedup_sublist _).eq_of_length length_eq)

theorem valueProblems_eq_blame (enumeration : Enumeration) (path : String) :
    enumeration.valueProblems path =
      blameEach (blameCopy (.duplicateEnumValue path)) (enumeration.values.map EnumValue.name) := by
  rw [valueProblems, ← map_repeats]
  split
  · rename_i length_eq
    rw [repeats_eq_nil (nodup_of_valueNames_length length_eq), List.map_nil]
  · rfl

theorem problems_eq_blame (enumeration : Enumeration) (path : String) :
    enumeration.problems path = enumeration.blame path := by
  rw [problems, blame, ← valueProblems_eq_blame]
  cases values_eq : enumeration.values with
  | nil => simp [valueProblems, valueNames, values_eq]
  | cons first rest => simp

end Enumeration

theorem Service.problems_eq_blame (service : Service) : service.problems = service.blame :=
  map_repeats _ _

namespace Message

/-- The dotted path of the enclosing messages, if there are any. -/
def parentPath (enclosing : List String) : Option String :=
  if enclosing = [] then none else some (".".intercalate enclosing)

theorem pathBelow_parentPath (enclosing : List String) (name : String) :
    pathBelow (parentPath enclosing) name = ".".intercalate (enclosing ++ [name]) := by
  by_cases top : enclosing = []
  · simp [parentPath, top, pathBelow]
  · rw [String.intercalate_append_of_ne_nil top (by simp)]
    simp [parentPath, top, pathBelow]

theorem pathBelow_some (parent name : String) :
    pathBelow (some parent) name = parent ++ "." ++ name := rfl

theorem parentPath_concat (enclosing : List String) (name : String) :
    parentPath (enclosing ++ [name]) = some (".".intercalate (enclosing ++ [name])) := by
  simp [parentPath]

theorem fieldNumbers_eq_allFields (message : Message) :
    fieldNumbers message.fields message.oneofs = message.allFields := by
  simp [fieldNumbers, allFields, List.map_flatMap]

mutual

theorem problems_eq_blame (enclosing : List String) (message : Message) :
    problems (parentPath enclosing) message =
      (walk enclosing message).flatMap fun (path, message) =>
        message.blame (".".intercalate path) := by
  rcases message with ⟨name, comment, fields, enums, messages, oneofs⟩
  have fields_eq := fieldNumbers_eq_allFields ⟨name, comment, fields, enums, messages, oneofs⟩
  simp only at fields_eq
  rw [walk, List.flatMap_cons, ← problemsOfAll_eq_blame (enclosing ++ [name]) messages]
  simp only [problems, pathBelow_parentPath, fields_eq, fieldProblems_eq_blame, parentPath_concat,
    blame, blameDeclarations, declarationProblems, map_repeats, pathBelow_some,
    Enumeration.problems_eq_blame]

theorem problemsOfAll_eq_blame (enclosing : List String) (messages : List Message) :
    problemsOfAll (parentPath enclosing) messages =
      (walkAll enclosing messages).flatMap fun (path, message) =>
        message.blame (".".intercalate path) := by
  cases messages with
  | nil => rfl
  | cons first rest =>
      rw [problemsOfAll, walkAll, List.flatMap_append, problems_eq_blame enclosing first,
        problemsOfAll_eq_blame enclosing rest]

end

end Message

namespace File

theorem problems_eq_blame (file : File) : file.problems = file.blame := by
  have scope_eq : file.scope = file.blameScope := by
    by_cases unnamed : file.package.name = "" <;>
      simp [scope, blameScope, Package.isEmpty, unnamed]
  have messages_eq := Message.problemsOfAll_eq_blame [] file.messages
  simp only [Message.parentPath, if_true] at messages_eq
  have services_eq : Service.problems = Service.blame :=
    funext Service.problems_eq_blame
  simp only [problems, blame, scope_eq, messages_eq, declarationProblems, map_repeats,
    blameDeclarations, Enumeration.problems_eq_blame, services_eq]

/-- Validation answers with the blame of all positions in order, and accepts a file exactly if there
is none. -/
theorem validate_eq_blame (file : File) :
    file.validate = (if file.blame = [] then .ok () else .error file.blame) ∧
      (file.validate = .ok () ↔ file.blame = []) := by
  rw [validate, problems_eq_blame]
  cases file.blame with
  | nil => simp
  | cons first rest => simp

/-- What validation reports, which is nothing if it accepts the file. -/
def reported (file : File) : List Problem :=
  match file.validate with
  | .ok () => []
  | .error problems => problems

theorem reported_eq_problems (file : File) : file.reported = file.problems := by
  rw [reported, validate]
  cases file.problems <;> rfl

theorem validate_eq_ok_iff (file : File) : file.validate = .ok () ↔ file.reported = [] := by
  rw [reported, validate]
  cases file.problems <;> simp

end File

end ProtoSchema
