import Mathlib.Data.List.Flatten
import ProtoSchema.Proofs.Schema.Additions
import ProtoSchema.Proofs.Validation.Blame

/-!
# Growing schemas

Whatever is added to a schema, the problems that were found before are found again, in the same
order, with new ones between them. An addition does not simply come last: a new message stands
before the enums in the namespace they share, and a new field before the members of oneofs, so what
counts as the repetition of an earlier name may move. Blame by position settles this once: a member
that is to blame stays so when more members stand before it, `blameEach_sublist`.

A message at any depth is named by its address, the positions of the messages that lead to it. That
an edit there hides nothing is carried outwards from message to message, `Message.Covers`.
-/

namespace ProtoSchema

section Positions

variable {α β : Type}

/-- With more members, and with no less blame for a member after more earlier ones, there is more
blame in the same order. -/
theorem blameEach_sublist {blame blame' : List α → α → List β} {members members' : List α}
    (more : members.Sublist members')
    (stays : ∀ (earlier earlier' : List α) (member : α), earlier ⊆ earlier' →
      (blame earlier member).Sublist (blame' earlier' member)) :
    (blameEach blame members).Sublist (blameEach blame' members') := by
  -- The blame functions take up the members that the induction has passed.
  induction more generalizing blame blame' with
  | slnil => exact List.Sublist.refl []
  | cons member _ ih =>
      rw [blameEach_cons]
      apply List.Sublist.trans _ (List.sublist_append_right _ _)
      apply ih
      intro earlier earlier' other subset
      apply stays
      exact List.Subset.trans subset (List.subset_cons_self member earlier')
  | cons_cons member _ ih =>
      rw [blameEach_cons, blameEach_cons]
      apply List.Sublist.append
      · exact stays [] [] member (List.Subset.refl [])
      · apply ih
        intro earlier earlier' other subset
        apply stays
        exact List.cons_subset_cons member subset

theorem ite_singleton_sublist {before after : Prop} [Decidable before] [Decidable after]
    (stays : before → after) (item : β) :
    (if before then [item] else []).Sublist (if after then [item] else []) := by
  by_cases holds : before
  · rw [if_pos holds, if_pos (stays holds)]
  · rw [if_neg holds]
    exact List.nil_sublist _

theorem blameCopy_sublist [DecidableEq α] (report : α → β) {earlier earlier' : List α}
    (member : α) (subset : earlier ⊆ earlier') :
    (blameCopy report earlier member).Sublist (blameCopy report earlier' member) := by
  apply ite_singleton_sublist
  intro member_mem
  exact subset member_mem

end Positions

theorem declarationProblems_sublist (scope : String) {names names' : List String}
    (more : names.Sublist names') :
    (declarationProblems scope names).Sublist (declarationProblems scope names') := by
  rw [declarationProblems, declarationProblems, map_repeats, map_repeats]
  apply blameEach_sublist more
  intro earlier earlier' name subset
  exact blameCopy_sublist _ name subset

theorem blameField_sublist (message : String) {earlier earlier' : List (String × UInt32)}
    (field : String × UInt32) (subset : earlier ⊆ earlier') :
    (blameField message earlier field).Sublist (blameField message earlier' field) := by
  apply List.Sublist.append _ (List.Sublist.refl _)
  apply List.Sublist.append
  · apply ite_singleton_sublist
    rintro ⟨other, other_mem, name_eq⟩
    exact ⟨other, subset other_mem, name_eq⟩
  · apply ite_singleton_sublist
    rintro ⟨other, other_mem, index_eq⟩
    exact ⟨other, subset other_mem, index_eq⟩

theorem fieldProblems_sublist (message : String) {fields fields' : List (String × UInt32)}
    (more : fields.Sublist fields') :
    (fieldProblems message [] [] fields).Sublist (fieldProblems message [] [] fields') := by
  rw [fieldProblems_eq_blame, fieldProblems_eq_blame]
  apply blameEach_sublist more
  intro earlier earlier' field subset
  exact blameField_sublist message field subset

namespace Message

/-- A message that can take the place of another one without hiding a problem. -/
structure Covers (message grown : Message) : Prop where
  name_eq : grown.name = message.name
  problems_sublist : ∀ parent, (message.problems parent).Sublist (grown.problems parent)

theorem covers_addAll (message : Message) (additions : List Addition) :
    Covers message (message.addAll additions) := by
  rw [addAll_eq]
  constructor
  · rfl
  · intro parent
    rw [problems_eq, problems_eq]
    apply List.Sublist.append
    · apply List.Sublist.append
      · apply List.Sublist.append
        · apply fieldProblems_sublist
          apply List.Sublist.append
          · exact (List.sublist_append_left _ _).map _
          · exact (List.sublist_append_left _ _).flatMap _
        · apply declarationProblems_sublist
          apply List.Sublist.append
          · apply List.Sublist.append
            · exact (List.sublist_append_left _ _).map _
            · exact (List.sublist_append_left _ _).map _
          · exact (List.sublist_append_left _ _).map _
      · exact (List.sublist_append_left _ _).flatMap _
    · exact (List.sublist_append_left _ _).flatMap _

section Modify

variable {edit : Message → Message} (covers : ∀ message, Covers message (edit message))

include covers

theorem map_name_modify (messages : List Message) (position : Nat) :
    (messages.modify position edit).map Message.name = messages.map Message.name := by
  induction messages generalizing position with
  | nil => simp
  | cons first rest ih =>
      cases position with
      | zero => simp [(covers first).name_eq]
      | succ position => simp [ih]

theorem problems_sublist_modify (parent : Option String) (messages : List Message)
    (position : Nat) :
    (messages.flatMap (problems parent)).Sublist
      ((messages.modify position edit).flatMap (problems parent)) := by
  induction messages generalizing position with
  | nil => simp
  | cons first rest ih =>
      cases position with
      | zero =>
          simp only [List.modify_zero_cons, List.flatMap_cons]
          exact ((covers first).problems_sublist parent).append (List.Sublist.refl _)
      | succ position =>
          simp only [List.modify_succ_cons, List.flatMap_cons]
          exact (List.Sublist.refl _).append (ih position)

/-- An edit of a nested message that hides nothing there hides nothing around it. -/
theorem covers_modify (host : Message) (position : Nat) :
    Covers host { host with messages := host.messages.modify position edit } := by
  constructor
  · rfl
  · intro parent
    rw [problems_eq, problems_eq]
    simp only [map_name_modify covers]
    apply List.Sublist.append (List.Sublist.refl _)
    exact problems_sublist_modify covers _ host.messages position

end Modify

/-- A message with an edit made inside it, to the message at an address: the positions of the
messages that lead to it. An address that leads nowhere changes nothing. -/
def editWithin (edit : Message → Message) : (address : List Nat) → Message → Message
  | [], message => edit message
  | position :: address, message =>
    { message with messages := message.messages.modify position (editWithin edit address) }

theorem covers_editWithin {edit : Message → Message}
    (covers : ∀ message, Covers message (edit message)) (address : List Nat) (message : Message) :
    Covers message (editWithin edit address message) := by
  induction address generalizing message with
  | nil => exact covers message
  | cons position address ih => exact covers_modify ih message position

end Message

namespace File

/-- The file with additions made to the message at an address, which starts with the position of a
message of the file and goes on inside that message. -/
def addWithin (file : File) (position : Nat) (address : List Nat)
    (additions : List Message.Addition) : File :=
  { file with
    messages := file.messages.modify position (Message.editWithin (·.addAll additions) address) }

/-- A way in which a file can grow: by its own additions, or by those of one of its messages. -/
inductive Growth
  | atTop (additions : List Addition)
  | within (position : Nat) (address : List Nat) (additions : List Message.Addition)

/-- A file after it has grown in one way. -/
def grow (file : File) : Growth → File
  | .atTop additions => file.addAll additions
  | .within position address additions => file.addWithin position address additions

/-- A file after a history of growth. -/
def growAll (file : File) (history : List Growth) : File :=
  history.foldl grow file

/-- Whether an addition brings a declaration: not an import, not an option, and not nothing. -/
def Addition.declares : Addition → Bool
  | .message (some _) | .enum (some _) | .service (some _) | .type (some _) => true
  | _ => false

theorem reported_sublist_addAll (file : File) (additions : List Addition) :
    file.reported.Sublist (file.addAll additions).reported := by
  rw [reported_eq_problems, reported_eq_problems, addAll_eq, problems, problems,
    Message.problemsOfAll_eq_flatMap, Message.problemsOfAll_eq_flatMap]
  apply List.Sublist.append
  · apply List.Sublist.append
    · apply List.Sublist.append
      · apply declarationProblems_sublist
        apply List.Sublist.append
        · apply List.Sublist.append
          · exact (List.sublist_append_left _ _).map _
          · exact (List.sublist_append_left _ _).map _
        · exact (List.sublist_append_left _ _).map _
      · exact (List.sublist_append_left _ _).flatMap _
    · exact (List.sublist_append_left _ _).flatMap _
  · exact (List.sublist_append_left _ _).flatMap _

theorem reported_sublist_addWithin (file : File) (position : Nat) (address : List Nat)
    (additions : List Message.Addition) :
    file.reported.Sublist (file.addWithin position address additions).reported := by
  have covers := Message.covers_editWithin (fun message => message.covers_addAll additions) address
  rw [reported_eq_problems, reported_eq_problems, problems, problems,
    Message.problemsOfAll_eq_flatMap, Message.problemsOfAll_eq_flatMap]
  simp only [addWithin, Message.map_name_modify covers]
  apply List.Sublist.append _ (List.Sublist.refl _)
  apply List.Sublist.append _ (List.Sublist.refl _)
  apply List.Sublist.append (List.Sublist.refl _)
  exact Message.problems_sublist_modify covers none file.messages position

theorem reported_sublist_grow (file : File) (growth : Growth) :
    file.reported.Sublist (file.grow growth).reported := by
  cases growth with
  | atTop additions => exact file.reported_sublist_addAll additions
  | within position address additions =>
      exact file.reported_sublist_addWithin position address additions

theorem reported_sublist_growAll (file : File) (history : List Growth) :
    file.reported.Sublist (file.growAll history).reported := by
  induction history generalizing file with
  | nil => exact List.Sublist.refl _
  | cons growth rest ih => exact (file.reported_sublist_grow growth).trans (ih (file.grow growth))

theorem Addition.brought_of_not_declares {addition : Addition}
    (silent : addition.declares = false) :
    addition.message? = none ∧ addition.enum? = none ∧ addition.service? = none := by
  rcases addition with _ | _ | (_ | _) | (_ | _) | (_ | _) | (_ | (_ | _)) <;>
    simp [declares, message?, enum?, service?] at silent ⊢

/-- Additions that declare nothing leave everything that is validated as it is. -/
theorem reported_addAll_of_not_declares (file : File) {additions : List Addition}
    (silent : ∀ addition ∈ additions, addition.declares = false) :
    (file.addAll additions).reported = file.reported := by
  have no_messages : additions.filterMap Addition.message? = [] := by
    apply List.filterMap_eq_nil_iff.mpr
    intro addition addition_mem
    exact (Addition.brought_of_not_declares (silent addition addition_mem)).1
  have no_enums : additions.filterMap Addition.enum? = [] := by
    apply List.filterMap_eq_nil_iff.mpr
    intro addition addition_mem
    exact (Addition.brought_of_not_declares (silent addition addition_mem)).2.1
  have no_services : additions.filterMap Addition.service? = [] := by
    apply List.filterMap_eq_nil_iff.mpr
    intro addition addition_mem
    exact (Addition.brought_of_not_declares (silent addition addition_mem)).2.2
  rw [reported_eq_problems, reported_eq_problems, addAll_eq, no_messages, no_enums, no_services]
  simp only [List.append_nil]
  rfl

end File

/-- Additions to a file keep all problems that were reported, in their order, and change nothing if
they declare nothing. Additions to a message at any depth keep them too. So a file that is rejected
stays rejected, however it grows. -/
theorem growth_keeps_problems :
    (∀ (file : File) (additions : List File.Addition),
      file.reported.Sublist (file.addAll additions).reported ∧
        ((∀ addition ∈ additions, addition.declares = false) →
          (file.addAll additions).reported = file.reported)) ∧
    (∀ (file : File) (position : Nat) (address : List Nat) (additions : List Message.Addition),
      file.reported.Sublist (file.addWithin position address additions).reported) ∧
    (∀ (file : File) (history : List File.Growth),
      file.reported.Sublist (file.growAll history).reported ∧
        (file.validate ≠ .ok () → (file.growAll history).validate ≠ .ok ())) := by
  refine ⟨?_, File.reported_sublist_addWithin, ?_⟩
  · intro file additions
    exact ⟨file.reported_sublist_addAll additions, file.reported_addAll_of_not_declares⟩
  · intro file history
    have kept := file.reported_sublist_growAll history
    refine ⟨kept, ?_⟩
    intro rejected accepted
    apply rejected
    rw [File.validate_eq_ok_iff] at accepted ⊢
    rw [accepted] at kept
    exact List.sublist_nil.mp kept

/-- A field of a nested message has the number zero. A field of the same name and number is added
before the member of a oneof, then a message of a name that an enum has already. -/
theorem growth_keeps_problems_nested :
    let member : OneOfField := { typeName := "bytes", name := "id", index := 0 }
    let inner : Message := { name := "Inner", oneofs := [{ name := "choice", fields := [member] }] }
    let file : File :=
      { messages := [{ name := "Outer", messages := [inner] }], enums := [{ name := "Kind" }] }
    let field : MessageField := { typeName := "bytes", name := "id", index := 0 }
    let history : List File.Growth :=
      [.within 0 [0] [.field (some field)], .atTop [.message (some { name := "Kind" })]]
    (file.addAll [.imported (some { path := "a.proto" }), .enum none]).reported = file.reported ∧
      file.reported = [.invalidFieldIndex "Outer.Inner" "id" 0, .emptyEnum "Kind"] ∧
      (file.growAll history).reported =
        [.duplicateDeclaration "file" "Kind", .invalidFieldIndex "Outer.Inner" "id" 0,
          .duplicateFieldName "Outer.Inner" "id", .duplicateFieldIndex "Outer.Inner" 0,
          .invalidFieldIndex "Outer.Inner" "id" 0, .emptyEnum "Kind"] ∧
      (file.growAll history).validate ≠ .ok () := by
  intro member inner file field history
  obtain ⟨additions, -, histories⟩ := growth_keeps_problems
  have rejected : file.validate ≠ .ok () := by decide +kernel
  refine ⟨?_, ?_, ?_, (histories file history).2 rejected⟩
  · exact (additions file _).2 (by decide)
  · decide +kernel
  · decide +kernel

end ProtoSchema
