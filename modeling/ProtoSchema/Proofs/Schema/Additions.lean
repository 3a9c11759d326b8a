import Mathlib.Data.List.Basic
import ProtoSchema.Codec.Kind
import ProtoSchema.Printing.Printer
import ProtoSchema.Validation.Validate

/-!
# Additions in any order

A file and a message grow by additions, each of which brings a child or nothing. The children are
kept by category, so what a history of additions builds depends only on the children that it brings
to each category, in their order: how the categories take turns, and where nothing is added, does
not show. This file proves that closed form for both owners.

Lookups follow from the way a category grows. A category that only grows at its end keeps its
earliest child of a name, so a lookup that has found a child answers with it from then on. The
argument is made once, for a `Category` of any owner.
-/

namespace ProtoSchema

/-- Some children of an owner, and the child that a step brings to them, if it brings one. -/
structure Category (Owner Step Child : Type) where
  children : Owner → List Child
  brought : Step → Option Child

/-- An answer to a lookup is the first of the children with the name, and it is missing only if no
child has the name. -/
def IsEarliest {Child : Type} (nameOf : Child → String) (name : String) (children : List Child) :
    Option Child → Prop
  | some child => ∃ before after, children = before ++ child :: after ∧ nameOf child = name ∧
      ∀ earlier ∈ before, nameOf earlier ≠ name
  | none => ∀ child ∈ children, nameOf child ≠ name

namespace Category

variable {Owner Step Child : Type}

/-- A step puts its child behind those that are there. -/
def GrowsBy (category : Category Owner Step Child) (apply : Owner → Step → Owner) : Prop :=
  ∀ owner step,
    category.children (apply owner step) =
      category.children owner ++ (category.brought step).toList

/-- A lookup answers with the earliest child of a name, and no later step changes an answer that
has been found. -/
structure FindsEarliest (category : Category Owner Step Child) (apply : Owner → Step → Owner)
    (nameOf : Child → String) (lookup : Owner → String → Option Child) : Prop where
  earliest : ∀ (owner : Owner) (steps : List Step) (name : String),
    IsEarliest nameOf name (category.children owner ++ steps.filterMap category.brought)
      (lookup (steps.foldl apply owner) name)
  lasting : ∀ (owner : Owner) (steps later : List Step) (name : String) (child : Child),
    lookup (steps.foldl apply owner) name = some child →
      lookup ((steps ++ later).foldl apply owner) name = some child

variable {category : Category Owner Step Child} {apply : Owner → Step → Owner}

theorem GrowsBy.children_foldl (grows : category.GrowsBy apply) (owner : Owner)
    (steps : List Step) :
    category.children (steps.foldl apply owner) =
      category.children owner ++ steps.filterMap category.brought := by
  induction steps generalizing owner with
  | nil => simp
  | cons step rest ih =>
      simp only [List.foldl_cons, ih, grows owner step, List.filterMap_eq_flatMap_toList,
        List.flatMap_cons, List.append_assoc]

theorem isEarliest_find? (nameOf : Child → String) (name : String) (children : List Child) :
    IsEarliest nameOf name children (children.find? (nameOf · == name)) := by
  cases found : children.find? (nameOf · == name) with
  | none =>
      intro child child_mem
      simpa using List.find?_eq_none.mp found child child_mem
  | some child =>
      rcases List.find?_eq_some_iff_append.mp found with ⟨named, before, after, split, others⟩
      refine ⟨before, after, split, by simpa using named, ?_⟩
      intro earlier earlier_mem
      simpa using others earlier earlier_mem

theorem GrowsBy.findsEarliest (grows : category.GrowsBy apply) {nameOf : Child → String}
    {lookup : Owner → String → Option Child}
    (lookup_eq : ∀ owner name, lookup owner name =
      (category.children owner).find? (nameOf · == name)) :
    category.FindsEarliest apply nameOf lookup := by
  constructor
  · intro owner steps name
    rw [lookup_eq, grows.children_foldl]
    apply isEarliest_find?
  · intro owner steps later name child found
    rw [lookup_eq] at found ⊢
    -- The later steps only append, so the search ends before it reaches what they brought.
    rw [List.foldl_append, grows.children_foldl, List.find?_append, found, Option.some_or]

end Category

namespace File

/-- One addition to a file, with a child or without. -/
inductive Addition
  | imported (statement : Option Import)
  | option (setting : Option Setting)
  | message (message : Option Message)
  | enum (enumeration : Option Enumeration)
  | service (service : Option Service)
  | type (declaration : Option TypeDecl)
  deriving DecidableEq

/-- Makes an addition to a file. -/
def add (file : File) : Addition → File
  | .imported statement => file.addImport statement
  | .option setting => file.addOption setting
  | .message message => file.addMessage message
  | .enum enumeration => file.addEnum enumeration
  | .service service => file.addService service
  | .type declaration => file.addType declaration

/-- Makes additions to a file one after the other. -/
def addAll (file : File) (additions : List Addition) : File :=
  additions.foldl add file

namespace Addition

/-- The import that an addition brings. -/
def import? : Addition → Option Import
  | .imported child => child
  | _ => none

/-- The option that an addition brings. -/
def option? : Addition → Option Setting
  | .option child => child
  | _ => none

/-- The message that an addition brings, as a message or as a type. -/
def message? : Addition → Option Message
  | .message child => child
  | .type (some (.message child)) => some child
  | _ => none

/-- The enum that an addition brings, as an enum or as a type. -/
def enum? : Addition → Option Enumeration
  | .enum child => child
  | .type (some (.enum child)) => some child
  | _ => none

/-- The service that an addition brings. -/
def service? : Addition → Option Service
  | .service child => child
  | _ => none

/-- Two histories bring the same children to each category, in the same order. -/
structure SameChildren (first second : List Addition) : Prop where
  imports : first.filterMap import? = second.filterMap import?
  options : first.filterMap option? = second.filterMap option?
  messages : first.filterMap message? = second.filterMap message?
  enums : first.filterMap enum? = second.filterMap enum?
  services : first.filterMap service? = second.filterMap service?

end Addition

theorem add_eq (file : File) (addition : Addition) :
    file.add addition = { file with
      imports := file.imports ++ addition.import?.toList
      options := file.options ++ addition.option?.toList
      messages := file.messages ++ addition.message?.toList
      enums := file.enums ++ addition.enum?.toList
      services := file.services ++ addition.service?.toList } := by
  rcases addition with statement | setting | message | enumeration | service |
      (_ | (message | enumeration)) <;>
    simp [add, addImport, addOption, addMessage, addEnum, addService, addType, Addition.import?,
      Addition.option?, Addition.message?, Addition.enum?, Addition.service?]

theorem addAll_eq (file : File) (additions : List Addition) :
    file.addAll additions = { file with
      imports := file.imports ++ additions.filterMap Addition.import?
      options := file.options ++ additions.filterMap Addition.option?
      messages := file.messages ++ additions.filterMap Addition.message?
      enums := file.enums ++ additions.filterMap Addition.enum?
      services := file.services ++ additions.filterMap Addition.service? } := by
  induction additions generalizing file with
  | nil => simp [addAll]
  | cons addition rest ih =>
      have step : file.addAll (addition :: rest) = (file.add addition).addAll rest := rfl
      simp only [step, ih, add_eq, List.filterMap_eq_flatMap_toList, List.flatMap_cons,
        List.append_assoc]

theorem addAll_congr (file : File) {first second : List Addition}
    (same : Addition.SameChildren first second) : file.addAll first = file.addAll second := by
  simp only [addAll_eq, same.imports, same.options, same.messages, same.enums, same.services]

theorem message?_findsEarliest :
    Category.FindsEarliest ⟨File.messages, Addition.message?⟩ add Message.name message? := by
  apply Category.GrowsBy.findsEarliest
  · intro file addition
    simp only [add_eq]
  · intro file name
    rfl

theorem enum?_findsEarliest :
    Category.FindsEarliest ⟨File.enums, Addition.enum?⟩ add Enumeration.name enum? := by
  apply Category.GrowsBy.findsEarliest
  · intro file addition
    simp only [add_eq]
  · intro file name
    rfl

theorem service?_findsEarliest :
    Category.FindsEarliest ⟨File.services, Addition.service?⟩ add Service.name service? := by
  apply Category.GrowsBy.findsEarliest
  · intro file addition
    simp only [add_eq]
  · intro file name
    rfl

end File

namespace Message

/-- One addition to a message, with a child or without. -/
inductive Addition
  | field (field : Option MessageField)
  | enum (enumeration : Option Enumeration)
  | message (nested : Option Message)
  | oneof (oneof : Option OneOf)
  | type (declaration : Option TypeDecl)
  deriving DecidableEq

/-- Makes an addition to a message. -/
def add (message : Message) : Addition → Message
  | .field field => message.addField field
  | .enum enumeration => message.addEnum enumeration
  | .message nested => message.addMessage nested
  | .oneof oneof => message.addOneOf oneof
  | .type declaration => message.addType declaration

/-- Makes additions to a message one after the other. -/
def addAll (message : Message) (additions : List Addition) : Message :=
  additions.foldl add message

namespace Addition

/-- The field that an addition brings. -/
def field? : Addition → Option MessageField
  | .field child => child
  | _ => none

/-- The enum that an addition brings, as an enum or as a type. -/
def enum? : Addition → Option Enumeration
  | .enum child => child
  | .type (some (.enum child)) => some child
  | _ => none

/-- The nested message that an addition brings, as a message or as a type. -/
def message? : Addition → Option Message
  | .message child => child
  | .type (some (.message child)) => some child
  | _ => none

/-- The oneof that an addition brings. -/
def oneof? : Addition → Option OneOf
  | .oneof child => child
  | _ => none

/-- Two histories bring the same children to each category, in the same order. -/
structure SameChildren (first second : List Addition) : Prop where
  fields : first.filterMap field? = second.filterMap field?
  enums : first.filterMap enum? = second.filterMap enum?
  messages : first.filterMap message? = second.filterMap message?
  oneofs : first.filterMap oneof? = second.filterMap oneof?

end Addition

theorem add_eq (message : Message) (addition : Addition) :
    message.add addition = { message with
      fields := message.fields ++ addition.field?.toList
      enums := message.enums ++ addition.enum?.toList
      messages := message.messages ++ addition.message?.toList
      oneofs := message.oneofs ++ addition.oneof?.toList } := by
  cases message
  rcases addition with field | enumeration | nested | oneof | (_ | (nested | enumeration)) <;>
    simp [add, addField, addEnum, addMessage, addOneOf, addType, Addition.field?, Addition.enum?,
      Addition.message?, Addition.oneof?]

theorem addAll_eq (message : Message) (additions : List Addition) :
    message.addAll additions = { message with
      fields := message.fields ++ additions.filterMap Addition.field?
      enums := message.enums ++ additions.filterMap Addition.enum?
      messages := message.messages ++ additions.filterMap Addition.message?
      oneofs := message.oneofs ++ additions.filterMap Addition.oneof? } := by
  induction additions generalizing message with
  | nil => cases message; simp [addAll]
  | cons addition rest ih =>
      have step : message.addAll (addition :: rest) = (message.add addition).addAll rest := rfl
      simp only [step, ih, add_eq, List.filterMap_eq_flatMap_toList, List.flatMap_cons,
        List.append_assoc]

theorem addAll_congr (message : Message) {first second : List Addition}
    (same : Addition.SameChildren first second) :
    message.addAll first = message.addAll second := by
  simp only [addAll_eq, same.fields, same.enums, same.messages, same.oneofs]

theorem field?_findsEarliest :
    Category.FindsEarliest ⟨Message.fields, Addition.field?⟩ add MessageField.name field? := by
  apply Category.GrowsBy.findsEarliest
  · intro message addition
    simp only [add_eq]
  · intro message name
    rfl

theorem nestedMessage?_findsEarliest :
    Category.FindsEarliest ⟨Message.messages, Addition.message?⟩ add Message.name
      nestedMessage? := by
  apply Category.GrowsBy.findsEarliest
  · intro message addition
    simp only [add_eq]
  · intro message name
    rfl

end Message

/-- A file holds in each category its old children followed by those that were added to it, in the
order of the additions and whatever else was added between them. Additions that agree in this build
the same file, and a lookup answers with the earliest child of a name at all times. A message grows
in the same way. -/
theorem additions_by_category :
    (∀ (file : File) (additions : List File.Addition),
      file.addAll additions = { file with
        imports := file.imports ++ additions.filterMap File.Addition.import?
        options := file.options ++ additions.filterMap File.Addition.option?
        messages := file.messages ++ additions.filterMap File.Addition.message?
        enums := file.enums ++ additions.filterMap File.Addition.enum?
        services := file.services ++ additions.filterMap File.Addition.service? }) ∧
    (∀ (file : File) (first second : List File.Addition),
      File.Addition.SameChildren first second →
        file.addAll first = file.addAll second ∧
        (file.addAll first).print = (file.addAll second).print ∧
        Kind.file.write (file.addAll first) = Kind.file.write (file.addAll second) ∧
        (file.addAll first).validate = (file.addAll second).validate) ∧
    Category.FindsEarliest ⟨File.messages, File.Addition.message?⟩ File.add Message.name
      File.message? ∧
    Category.FindsEarliest ⟨File.enums, File.Addition.enum?⟩ File.add Enumeration.name
      File.enum? ∧
    Category.FindsEarliest ⟨File.services, File.Addition.service?⟩ File.add Service.name
      File.service? ∧
    (∀ (message : Message) (additions : List Message.Addition),
      message.addAll additions = { message with
        fields := message.fields ++ additions.filterMap Message.Addition.field?
        enums := message.enums ++ additions.filterMap Message.Addition.enum?
        messages := message.messages ++ additions.filterMap Message.Addition.message?
        oneofs := message.oneofs ++ additions.filterMap Message.Addition.oneof? }) ∧
    (∀ (message : Message) (first second : List Message.Addition),
      Message.Addition.SameChildren first second →
        message.addAll first = message.addAll second ∧
        (Node.message (message.addAll first)).print = (Node.message (message.addAll second)).print ∧
        Kind.message.write (message.addAll first) = Kind.message.write (message.addAll second)) ∧
    Category.FindsEarliest ⟨Message.fields, Message.Addition.field?⟩ Message.add MessageField.name
      Message.field? ∧
    Category.FindsEarliest ⟨Message.messages, Message.Addition.message?⟩ Message.add Message.name
      Message.nestedMessage? := by
  refine ⟨File.addAll_eq, ?_, File.message?_findsEarliest, File.enum?_findsEarliest,
    File.service?_findsEarliest, Message.addAll_eq, ?_, Message.field?_findsEarliest,
    Message.nestedMessage?_findsEarliest⟩
  · intro file first second same
    simp only [file.addAll_congr same, and_self]
  · intro message first second same
    simp only [message.addAll_congr same, and_self]

/-- Two messages of one name and an enum, added as such in one history and as types in the other. -/
theorem additions_by_category_interleaved :
    let earlier : Message := { name := "User", comment := ⟨["first"]⟩ }
    let later : Message := { name := "User" }
    let kind : Enumeration := { name := "Kind" }
    let first : List File.Addition :=
      [.message (some earlier), .imported none, .type (some (.enum kind)), .message (some later)]
    let second : List File.Addition :=
      [.enum (some kind), .type (some (.message earlier)), .type none,
        .type (some (.message later))]
    File.Addition.SameChildren first second ∧
      ({} : File).addAll first = ({} : File).addAll second ∧
      (({} : File).addAll second).message? "User" = some earlier := by
  intro earlier later kind first second
  have same : File.Addition.SameChildren first second := ⟨rfl, rfl, rfl, rfl, rfl⟩
  obtain ⟨-, interleaved, messages, -⟩ := additions_by_category
  refine ⟨same, (interleaved {} first second same).1, ?_⟩
  exact messages.lasting {} (second.take 2) (second.drop 2) "User" earlier (by decide)

end ProtoSchema
