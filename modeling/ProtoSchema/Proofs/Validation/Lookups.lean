import ProtoSchema.Proofs.Validation.Blame

/-!
# Lookups in accepted files

A lookup answers with the first declaration of a name, whether or not others of the same name
follow. In a file that validation accepts there are no others: at the top a name is declared once in
all three categories together, and at any depth the fields of a message, its nested messages and the
procedures of a service can be told apart by their names. The fields of a message, including those
of its oneofs, can also be told apart by their numbers.

The link is made once. A list in which nobody is to blame is pairwise distinct,
`pairwise_of_blameEach_eq_nil`, and in a list with distinct names the first member of a name is the
only one, `filter_eq_find?_toList`.
-/

namespace ProtoSchema

section Lists

variable {α β : Type}

/-- If a member can be blamed for each earlier one that is in conflict with it, and nobody is to
blame, then there are no conflicts. -/
theorem pairwise_of_blameEach_eq_nil {apart : α → α → Prop} {blame : List α → α → List β}
    (blamed : ∀ (earlier : List α) (member : α), blame earlier member = [] →
      ∀ other ∈ earlier, apart other member)
    {members : List α} (nobody : blameEach blame members = []) : members.Pairwise apart := by
  rw [blameEach, List.flatMap_eq_nil_iff] at nobody
  apply List.pairwise_iff_getElem.mpr
  intro position later position_lt later_lt before
  have unblamed := nobody ⟨later, later_lt⟩ (List.mem_finRange _)
  apply blamed _ _ unblamed
  apply List.mem_take_iff_getElem.mpr
  exact ⟨position, Nat.lt_min.mpr ⟨before, position_lt⟩, rfl⟩

theorem nodup_of_blameCopy_eq_nil [DecidableEq α] {report : α → β} {members : List α}
    (nobody : blameEach (blameCopy report) members = []) : members.Nodup := by
  apply pairwise_of_blameEach_eq_nil _ nobody
  intro earlier member unblamed other other_mem same
  rw [blameCopy, if_pos (same ▸ other_mem)] at unblamed
  cases unblamed

/-- Where names are distinct, the first member of a name is the only one. -/
theorem filter_eq_find?_toList {nameOf : α → String} {members : List α}
    (distinct : (members.map nameOf).Nodup) (name : String) :
    members.filter (nameOf · == name) = (members.find? (nameOf · == name)).toList := by
  induction members with
  | nil => rfl
  | cons first rest ih =>
      rw [List.map_cons, List.nodup_cons] at distinct
      by_cases named : nameOf first = name
      · have others : rest.filter (nameOf · == name) = [] := by
          apply List.filter_eq_nil_iff.mpr
          intro member member_mem
          rw [beq_iff_eq]
          intro same
          apply distinct.1
          rw [named, ← same]
          exact List.mem_map_of_mem member_mem
        simp [named, others]
      · simp [named, ih distinct.2]

end Lists

/-- A declaration at the top of a file. -/
inductive TopDecl
  | message (message : Message)
  | enum (enumeration : Enumeration)
  | service (service : Service)
  deriving DecidableEq

/-- The name of a declaration. -/
def TopDecl.name : TopDecl → String
  | message declared => declared.name
  | enum declared => declared.name
  | service declared => declared.name

namespace File

/-- The declarations at the top of a file, which share one namespace. -/
def declarations (file : File) : List TopDecl :=
  file.messages.map .message ++ file.enums.map .enum ++ file.services.map .service

/-- The declarations of a name at the top of a file. -/
def declared (file : File) (name : String) : List TopDecl :=
  file.declarations.filter (·.name == name)

theorem map_name_declarations (file : File) :
    file.declarations.map TopDecl.name =
      file.messages.map Message.name ++ file.enums.map Enumeration.name ++
        file.services.map Service.name := by
  simp only [declarations, List.map_append, List.map_map]
  rfl

variable {file : File} (distinct : (file.declarations.map TopDecl.name).Nodup) (name : String)

include distinct

theorem length_declared_le_one : (file.declared name).length ≤ 1 := by
  rw [declared, filter_eq_find?_toList distinct]
  exact Option.length_toList_le

theorem declared_eq_lookups :
    file.declared name =
      (file.message? name).toList.map .message ++ (file.enum? name).toList.map .enum ++
        (file.service? name).toList.map .service := by
  rw [map_name_declarations, List.nodup_append, List.nodup_append] at distinct
  rcases distinct with ⟨⟨messages, enums, -⟩, services, -⟩
  rw [message?, enum?, service?, ← filter_eq_find?_toList messages, ← filter_eq_find?_toList enums,
    ← filter_eq_find?_toList services]
  simp only [declared, declarations, List.filter_append, List.filter_map]
  rfl

end File

namespace Message

/-- In a message that nobody is to blame for, all fields differ in name and in number, also those of
oneofs. -/
theorem allFields_pairwise_of_blame_eq_nil {path : String} {message : Message}
    (nobody : message.blame path = []) :
    message.allFields.Pairwise fun field other => field.1 ≠ other.1 ∧ field.2 ≠ other.2 := by
  simp only [blame, List.append_eq_nil_iff] at nobody
  apply pairwise_of_blameEach_eq_nil _ nobody.1.1
  intro earlier field unblamed other other_mem
  simp only [blameField, List.append_eq_nil_iff] at unblamed
  rcases unblamed with ⟨⟨nameUnblamed, indexUnblamed⟩, -⟩
  constructor
  · intro same
    rw [if_pos ⟨other, other_mem, same⟩] at nameUnblamed
    cases nameUnblamed
  · intro same
    rw [if_pos ⟨other, other_mem, same⟩] at indexUnblamed
    cases indexUnblamed

theorem fieldNames_nodup_of_blame_eq_nil {path : String} {message : Message}
    (nobody : message.blame path = []) : (message.fields.map MessageField.name).Nodup := by
  have apart := allFields_pairwise_of_blame_eq_nil nobody
  rw [allFields, List.pairwise_append, List.pairwise_map] at apart
  apply List.pairwise_map.mpr
  exact apart.1.imp And.left

theorem nestedNames_nodup_of_blame_eq_nil {path : String} {message : Message}
    (nobody : message.blame path = []) : (message.messages.map Message.name).Nodup := by
  simp only [blame, List.append_eq_nil_iff] at nobody
  have distinct := nodup_of_blameCopy_eq_nil nobody.1.2
  rw [List.nodup_append, List.nodup_append] at distinct
  exact distinct.1.1

end Message

namespace File

/-- In a file that validation accepts, at most one of the lookups of a name finds something, and
what it finds is the only declaration of that name. In every message of the file the lookups find
the only field and the only nested message of a name, and no two fields, plain or in a oneof, share
a name or a number. In every service the lookup finds the only procedure of a name. -/
theorem lookups_unambiguous (file : File) (accepted : file.validate = .ok ()) :
    (∀ name,
      [(file.message? name).isSome, (file.enum? name).isSome,
        (file.service? name).isSome].count true ≤ 1 ∧
      (∀ message, file.message? name = some message → file.declared name = [.message message]) ∧
      (∀ enumeration, file.enum? name = some enumeration →
        file.declared name = [.enum enumeration]) ∧
      (∀ service, file.service? name = some service → file.declared name = [.service service])) ∧
    (∀ path message, (path, message) ∈ Message.walkAll [] file.messages →
      (∀ name, message.fields.filter (·.name == name) = (message.field? name).toList) ∧
      (∀ name, message.messages.filter (·.name == name) = (message.nestedMessage? name).toList) ∧
      message.allFields.Pairwise fun field other => field.1 ≠ other.1 ∧ field.2 ≠ other.2) ∧
    (∀ service ∈ file.services, ∀ name,
      service.rpcs.filter (·.name == name) = (service.rpc? name).toList) := by
  rw [validate_eq_ok_iff, reported_eq_problems, problems_eq_blame] at accepted
  simp only [blame, List.append_eq_nil_iff, List.flatMap_eq_nil_iff] at accepted
  rcases accepted with ⟨⟨⟨names, messages⟩, -⟩, services⟩
  refine ⟨?_, ?_, ?_⟩
  · intro name
    have distinct := nodup_of_blameCopy_eq_nil names
    rw [← map_name_declarations] at distinct
    have atMostOne := length_declared_le_one distinct name
    rw [declared_eq_lookups distinct name] at atMostOne ⊢
    -- Two answers at once would be two declarations of the name.
    revert atMostOne
    cases file.message? name <;> cases file.enum? name <;> cases file.service? name <;> simp
  · intro path message reached
    have nobody := messages (path, message) reached
    refine ⟨?_, ?_, Message.allFields_pairwise_of_blame_eq_nil nobody⟩
    · exact filter_eq_find?_toList (Message.fieldNames_nodup_of_blame_eq_nil nobody)
    · exact filter_eq_find?_toList (Message.nestedNames_nodup_of_blame_eq_nil nobody)
  · intro service service_mem
    exact filter_eq_find?_toList (nodup_of_blameCopy_eq_nil (services service service_mem))

/-- A message and a service at the top, a field and a oneof further down, and a procedure. -/
theorem lookups_unambiguous_nested :
    let field : MessageField := { typeName := "string", name := "id", index := 1 }
    let member : OneOfField := { typeName := "bytes", name := "raw", index := 2 }
    let inner : Message :=
      { name := "User", fields := [field], oneofs := [{ name := "body", fields := [member] }] }
    let outer : Message := { name := "User", messages := [inner] }
    let rpc : Rpc := { name := "Get", input := { name := "User" }, output := { name := "User" } }
    let service : Service := { name := "Users", rpcs := [rpc] }
    let file : File := { messages := [outer], services := [service] }
    file.validate = .ok () ∧
      file.message? "User" = some outer ∧ file.declared "User" = [.message outer] ∧
      (["User", "User"], inner) ∈ Message.walkAll [] file.messages ∧
      inner.field? "id" = some field ∧ inner.fields.filter (·.name == "id") = [field] ∧
      service.rpcs.filter (·.name == "Get") = [rpc] := by
  intro field member inner outer rpc service file
  have accepted : file.validate = .ok () := by decide +kernel
  have reached : (["User", "User"], inner) ∈ Message.walkAll [] file.messages := by decide +kernel
  have found : file.message? "User" = some outer := by decide +kernel
  obtain ⟨top, nested, services⟩ := lookups_unambiguous file accepted
  refine ⟨accepted, found, (top "User").2.1 outer found, reached, rfl, ?_, ?_⟩
  · exact (nested _ inner reached).1 "id"
  · exact services service (List.mem_singleton_self service) "Get"

end File

end ProtoSchema
