import ProtoSchema.Proofs.Printing.Declarations
import ProtoSchema.Proofs.Printing.Refinement
import ProtoSchema.Proofs.Text.LossyDecoding

/-!
# Reading files back

A file is printed as its head, which is made of statements, and its declarations, each of which
stands below an empty line. The parts of the head are told apart by their first words and the signs
behind these: an option may be called `import`, but an equality sign follows its name. An empty line
ends the head, and the declarations are told apart by their keywords.

Every legible file can be read back from its lines, and hence from its printed form:
`File.print_injective`.
-/

namespace ProtoSchema

open Text

namespace Item

/-- The lines of a declaration of a file. -/
def apart (width : Nat) (items : List Item) : List (List Char) :=
  [] :: items.flatMap (lines width)

/-- Below an empty line there are lines of a certain form. -/
def OpensApart (form : List Char → Prop) (lines : List (List Char)) : Prop :=
  ∃ more, lines = [] :: more ∧ Opens form more

variable {α : Type} {width : Nat} {keyword : List Char} {itemsOf : α → List Item}
  {values : List α} {form : List Char → Prop} {lines rest : List (List Char)}

theorem opensApart_cons : OpensApart form ([] :: lines) ↔ Opens form lines := by
  simp [OpensApart]

theorem not_opensApart_nil : ¬OpensApart form [] := by
  simp [OpensApart]

theorem not_opens_nil : ¬Opens form [] := by
  simp [Opens, subject?]

theorem opens_blank : Opens form ([] :: lines) ↔ form [] := by
  simp [Opens, subject?]

theorem delimits_apart {valid : α → Prop}
    (delimits : Delimits valid fun value => (itemsOf value).flatMap (Item.lines width)) :
    Delimits valid fun value => apart width (itemsOf value) := by
  constructor
  intro value value' rest rest' isValid isValid' apart_eq
  exact delimits.unique isValid isValid' (List.cons.inj apart_eq).2

/-- Declarations do not look like parts of the head of a file. -/
theorem not_opens_apart (visible : ¬form []) (ends : ¬Opens form rest) :
    ¬Opens form (values.flatMap (fun value => apart width (itemsOf value)) ++ rest) :=
  not_opens_flatMap (fun _ _ _ => mt opens_blank.mp visible) ends

/-- Declarations of one kind do not look like those of another kind. -/
theorem not_opensApart_apart
    (allBlocks : ∀ value ∈ values,
      IsBlock width 0 keyword ((itemsOf value).flatMap (Item.lines width)))
    (foreign : ∀ name, ¬form (headLine keyword name)) (ends : ¬OpensApart form rest) :
    ¬OpensApart form (values.flatMap (fun value => apart width (itemsOf value)) ++ rest) := by
  refine not_opens_flatMap ?_ ends
  intro value value_mem rest
  exact mt opensApart_cons.mp ((allBlocks value value_mem).not_opens foreign rest)

/-- Declarations of one kind are told apart if no other one of that kind follows them. -/
theorem apart_unique {valid : α → Prop} {values' : List α} {rest' : List (List Char)}
    (delimits : Delimits valid fun value => (itemsOf value).flatMap (Item.lines width))
    (isBlock : ∀ value, valid value →
      IsBlock width 0 keyword ((itemsOf value).flatMap (Item.lines width)))
    (form : List Char → Prop) (forms : ∀ name, form (headLine keyword name))
    (allValid : ∀ value ∈ values, valid value) (allValid' : ∀ value ∈ values', valid value)
    (ends : ¬OpensApart form rest) (ends' : ¬OpensApart form rest')
    (lines_eq : values.flatMap (fun value => apart width (itemsOf value)) ++ rest =
      values'.flatMap (fun value => apart width (itemsOf value)) ++ rest') :
    values = values' ∧ rest = rest' := by
  have opens : ∀ value, valid value → ∀ rest,
      OpensApart form (apart width (itemsOf value) ++ rest) :=
    fun value isValid rest => opensApart_cons.mpr ((isBlock value isValid).opens forms rest)
  exact (delimits_apart delimits).flatMap (OpensApart form) opens allValid allValid' ends ends'
    lines_eq

end Item

/-- A comment alone is printed as its lines. -/
theorem Comment.lines_flat {comment : Comment} (legible : comment.legible = true) (width : Nat) :
    Item.lines width ⟨0, comment.flat⟩ =
      comment.lines.map fun line => Item.pad width 0 ++ '/' :: '/' :: ' ' :: line.toList := by
  have text_eq : (Item.mk 0 comment.flat).text.toList = unlines
      (comment.lines.map fun line => '/' :: '/' :: ' ' :: line.toList) := comment.toList_flat
  rw [Item.lines_of_toList text_eq (comment.newline_notMem legible)]
  simp [padLine]

/-- The statement of a dialect. -/
def Dialect.body (dialect : Dialect) : List Char :=
  ['s', 'y', 'n', 't', 'a', 'x', ' ', '=', ' ', '"'] ++ (dialect.name.toList ++ ['"', ';'])

theorem Dialect.lines_item (dialect : Dialect) (width : Nat) :
    dialect.item.lines width = Item.commented (Item.pad width 0) {} dialect.body := by
  apply Item.lines_commented
  · simp [Dialect.item, body, Comment.flat]
  · rfl
  · simp [body]
  · cases dialect
    decide

theorem Dialect.body_stands (dialect : Dialect) : Item.Stands dialect.body := by
  simp [Item.Stands, body]

namespace File

/-- The package of a file, if it has one. -/
def packages (file : File) : List Package :=
  if file.package.name = "" then [] else [file.package]

/-- What legibility says of a file. -/
theorem of_legible {file : File} (legible : file.legible = true) :
    file.comment.legible = true ∧ (∀ statement ∈ file.imports, statement.legible = true) ∧
      (∀ package ∈ file.packages, isQualified package.name.toList = true) ∧
      (∀ setting ∈ file.options, setting.legible = true) ∧
      (∀ message ∈ file.messages, message.legible = true) ∧
      (∀ enumeration ∈ file.enums, enumeration.legible = true) ∧
      ∀ service ∈ file.services, service.legible = true := by
  simp only [File.legible, Bool.and_eq_true, List.all_eq_true, Message.allLegible_iff] at legible
  rcases legible with
    ⟨⟨⟨⟨⟨⟨package_legible, comment_legible⟩, imports_legible⟩, options_legible⟩, messages_legible⟩,
      enums_legible⟩, services_legible⟩
  refine ⟨comment_legible, imports_legible, ?_, options_legible, messages_legible, enums_legible,
    services_legible⟩
  intro package package_mem
  by_cases unnamed : file.package.name = ""
  · simp [packages, unnamed] at package_mem
  · rw [packages, if_neg unnamed, List.mem_singleton] at package_mem
    simpa [Package.legible, unnamed, package_mem] using package_legible

theorem package_eq_of_packages_eq {file file' : File}
    (packages_eq : file.packages = file'.packages) : file.package = file'.package := by
  rw [packages, packages] at packages_eq
  by_cases unnamed : file.package.name = "" <;> by_cases unnamed' : file'.package.name = ""
  · cases package_eq : file.package
    cases package_eq' : file'.package
    rw [package_eq] at unnamed
    rw [package_eq'] at unnamed'
    rw [Package.mk.injEq]
    exact unnamed.trans unnamed'.symm
  · simp [unnamed, unnamed'] at packages_eq
  · simp [unnamed, unnamed'] at packages_eq
  · simpa [unnamed, unnamed'] using packages_eq

/-- The lines of the declarations of a file. -/
def declarationLines (width : Nat) (file : File) : List (List Char) :=
  (file.messages.flatMap fun message => Item.apart width (message.items 0)) ++
    ((file.enums.flatMap fun enumeration => Item.apart width (enumeration.items 0)) ++
      ((file.services.flatMap fun service => Item.apart width (service.items 0)) ++ []))

theorem lines_items {file : File} (legible : file.legible = true) (width : Nat) :
    file.items.flatMap (Item.lines width) =
      Item.commented (Item.pad width 0) file.comment file.dialect.body ++
        ((file.imports.flatMap fun statement => statement.item.lines width) ++
          ((file.packages.flatMap fun package => package.item.lines width) ++
            ((file.options.flatMap fun setting => (setting.item 0).lines width) ++
              file.declarationLines width))) := by
  rcases of_legible legible with ⟨comment_legible, -⟩
  have package_eq : (if file.package.name = "" then [] else [file.package.item]).flatMap
      (Item.lines width) = file.packages.flatMap fun package => package.item.lines width := by
    rw [packages]
    split <;> rfl
  have apart_eq : ∀ items : List Item,
      (Item.blank :: items).flatMap (Item.lines width) = Item.apart width items := fun _ => rfl
  simp only [File.items, declarationLines, List.flatMap_append, List.flatMap_map,
    List.flatMap_assoc, package_eq, apart_eq, List.flatMap_cons, List.flatMap_nil, List.append_nil,
    List.append_assoc, Comment.lines_flat comment_legible, Dialect.lines_item, Item.commented,
    List.map_nil, List.nil_append]

section

variable {file file' : File} {form : List Char → Prop} {width : Nat}

theorem not_opens_declarationLines (file : File) (visible : ¬form []) :
    ¬Item.Opens form (file.declarationLines width) := by
  apply Item.not_opens_apart visible
  apply Item.not_opens_apart visible
  exact Item.not_opens_apart visible Item.not_opens_nil

theorem not_opens_options (legible : file.legible = true) (visible : ¬form [])
    (noOption : ∀ setting : Setting, setting.legible = true → ¬form setting.body) :
    ¬Item.Opens form
      ((file.options.flatMap fun setting => (setting.item 0).lines width) ++
        file.declarationLines width) := by
  rcases of_legible legible with ⟨-, -, -, options_legible, -⟩
  apply not_opens_flatMap _ (file.not_opens_declarationLines visible)
  intro setting setting_mem rest
  have setting_legible := options_legible setting setting_mem
  rw [Item.opens_iff (Setting.lines_item setting_legible width 0)
    (Setting.body_stands setting_legible)]
  exact noOption setting setting_legible

theorem not_opens_packages (legible : file.legible = true) (visible : ¬form [])
    (noOption : ∀ setting : Setting, setting.legible = true → ¬form setting.body)
    (noPackage : ∀ package : Package, ¬form package.body) :
    ¬Item.Opens form
      ((file.packages.flatMap fun package => package.item.lines width) ++
        ((file.options.flatMap fun setting => (setting.item 0).lines width) ++
          file.declarationLines width)) := by
  rcases of_legible legible with ⟨-, -, packages_qualified, -⟩
  apply not_opens_flatMap _ (not_opens_options legible visible noOption)
  intro package package_mem rest
  rw [Item.opens_iff (Package.lines_item (packages_qualified package package_mem) width)
    package.body_stands]
  exact noPackage package

theorem not_opensApart_services (legible : file.legible = true) {char : Char}
    (foreign : char ≠ 's') :
    ¬Item.OpensApart (StartsWith char)
      ((file.services.flatMap fun service => Item.apart width (service.items 0)) ++ []) := by
  rcases of_legible legible with ⟨-, -, -, -, -, -, services_legible⟩
  exact Item.not_opensApart_apart
    (fun service service_mem =>
      Service.isBlock_items (services_legible service service_mem) width 0)
    (by simp [StartsWith, Item.headLine, foreign.symm]) Item.not_opensApart_nil

theorem not_opensApart_enums (legible : file.legible = true) :
    ¬Item.OpensApart (StartsWith 'm')
      ((file.enums.flatMap fun enumeration => Item.apart width (enumeration.items 0)) ++
        ((file.services.flatMap fun service => Item.apart width (service.items 0)) ++ [])) := by
  rcases of_legible legible with ⟨-, -, -, -, -, enums_legible, -⟩
  exact Item.not_opensApart_apart
    (fun enumeration enumeration_mem =>
      Enumeration.isBlock_items (enums_legible enumeration enumeration_mem) width 0)
    (by simp [StartsWith, Item.headLine]) (not_opensApart_services legible (by decide))

theorem declarationLines_injective (legible : file.legible = true) (legible' : file'.legible = true)
    (lines_eq : file.declarationLines width = file'.declarationLines width) :
    file.messages = file'.messages ∧ file.enums = file'.enums ∧ file.services = file'.services := by
  rcases of_legible legible with
    ⟨-, -, -, -, messages_legible, enums_legible, services_legible⟩
  rcases of_legible legible' with
    ⟨-, -, -, -, messages_legible', enums_legible', services_legible'⟩
  rcases Item.apart_unique (Message.delimits_items width 0)
    (fun _ legible => Message.isBlock_items legible width 0) (StartsWith 'm') (fun _ => rfl)
    messages_legible messages_legible' (not_opensApart_enums legible)
    (not_opensApart_enums legible') lines_eq with ⟨messages_eq, lines_eq⟩
  rcases Item.apart_unique (Enumeration.delimits_items width 0)
    (fun _ legible => Enumeration.isBlock_items legible width 0) (StartsWith 'e') (fun _ => rfl)
    enums_legible enums_legible' (not_opensApart_services legible (by decide))
    (not_opensApart_services legible' (by decide)) lines_eq with ⟨enums_eq, lines_eq⟩
  rcases Item.apart_unique (Service.delimits_items width 0)
    (fun _ legible => Service.isBlock_items legible width 0) (StartsWith 's') (fun _ => rfl)
    services_legible services_legible' Item.not_opensApart_nil Item.not_opensApart_nil
    lines_eq with ⟨services_eq, -⟩
  exact ⟨messages_eq, enums_eq, services_eq⟩

/-- Legible files with the same lines are the same. -/
theorem lines_injective (legible : file.legible = true) (legible' : file'.legible = true)
    (lines_eq : file.items.flatMap (Item.lines width) = file'.items.flatMap (Item.lines width)) :
    file = file' := by
  rw [lines_items legible, lines_items legible'] at lines_eq
  rcases Item.commented_unique file.dialect.body_stands file'.dialect.body_stands lines_eq with
    ⟨comment_eq, -, lines_eq⟩
  rcases of_legible legible with ⟨-, imports_legible, packages_qualified, options_legible,
    messages_legible, enums_legible, services_legible⟩
  rcases of_legible legible' with ⟨-, imports_legible', packages_qualified', options_legible',
    messages_legible', enums_legible', services_legible'⟩
  have noOption : ∀ {word : List Char}, ' ' ∉ word → ∀ setting : Setting, setting.legible = true →
      ¬IsKeyword word setting.body :=
    fun absent _ legible => Setting.not_isKeyword_body legible absent
  rcases (Import.delimits_item width).flatMap (Item.Opens (IsKeyword Import.word))
    (fun statement legible rest =>
      (Item.opens_iff (Import.lines_item legible width) statement.body_stands rest).mpr
        statement.isKeyword_body)
    imports_legible imports_legible'
    (not_opens_packages legible (not_isKeyword_nil _) (noOption (by decide))
      Package.not_isKeyword_import)
    (not_opens_packages legible' (not_isKeyword_nil _) (noOption (by decide))
      Package.not_isKeyword_import)
    lines_eq with ⟨imports_eq, lines_eq⟩
  rcases (Package.delimits_item width).flatMap (Item.Opens (IsKeyword Package.word))
    (fun package qualified rest =>
      (Item.opens_iff (Package.lines_item qualified width) package.body_stands rest).mpr
        (Package.isKeyword_body qualified))
    packages_qualified packages_qualified'
    (not_opens_options legible (not_isKeyword_nil _) (noOption (by decide)))
    (not_opens_options legible' (not_isKeyword_nil _) (noOption (by decide)))
    lines_eq with ⟨packages_eq, lines_eq⟩
  rcases (Setting.delimits_item width 0).flatMap (Item.Opens (· ≠ []))
    (fun _ legible rest =>
      (Item.opens_iff (Setting.lines_item legible width 0) (Setting.body_stands legible) rest).mpr
        (by simp [Setting.body]))
    options_legible options_legible' (file.not_opens_declarationLines (by simp))
    (file'.not_opens_declarationLines (by simp)) lines_eq with ⟨options_eq, lines_eq⟩
  rcases declarationLines_injective legible legible' lines_eq with
    ⟨messages_eq, enums_eq, services_eq⟩
  -- there is only one dialect
  have dialect_eq : file.dialect = file'.dialect := rfl
  cases file
  cases file'
  rw [File.mk.injEq]
  exact ⟨dialect_eq, package_eq_of_packages_eq packages_eq, comment_eq, imports_eq, options_eq,
    messages_eq, enums_eq, services_eq⟩

end

/-- What is printed of a file is its flat text. -/
theorem print_eq_flatText (file : File) : file.print = (Node.file file).flatText 2 := by
  rw [File.print, Node.print, rendering_some, decodeLossy_bytes]
  rfl

/-- Legible files with the same printed form are the same. -/
theorem print_injective (file file' : File) (legible : file.legible = true)
    (legible' : file'.legible = true) (print_eq : file.print = file'.print) : file = file' := by
  rw [print_eq_flatText, print_eq_flatText] at print_eq
  exact lines_injective legible legible'
    (Item.lines_eq_of_renderAll_eq file.endsLine_items file'.endsLine_items print_eq)

/-- One file is put together step by step, and the other one is written down. They have an option
called `import`, a repeated field next to one of a type called `repeated`, a comment whose
lines look like code, and an enum with an option and a negative value. -/
theorem print_injective_assembled :
    let entry : Message := ((({ name := "Entry" } : Message).withComment
      (.ofText "int32 a = 1;\n\x7d")).addField (some (.many ScalarType.string "keys" 1))).addField
      (some ⟨false, "repeated", "value", 2, [⟨"(a.b)", "1"⟩, ⟨"c", ""⟩], {}⟩)
    let level : Enumeration := (({ name := "Level" } : Enumeration).addOption
      (some ⟨"a", "true"⟩)).addValue (some ⟨"a", -1, [], {}⟩)
    let assembled : File := ((({} : File).addOption (some ⟨"import", "\"x\""⟩)).addMessage
      (some (({ name := "Table" } : Message).addType (some (.message entry))))).addType
      (some (.enum level))
    let written : File := {
      options := [⟨"import", "\"x\""⟩]
      messages := [⟨"Table", {}, [], [], [⟨"Entry", ⟨["int32 a = 1;", "\x7d"]⟩,
        [⟨true, "string", "keys", 1, [], {}⟩,
          ⟨false, "repeated", "value", 2, [⟨"(a.b)", "1"⟩, ⟨"c", ""⟩], {}⟩], [], [], []⟩], []⟩]
      enums := [⟨"Level", [⟨"a", "true"⟩], [⟨"a", -1, [], {}⟩], {}⟩] }
    assembled.legible = true ∧ written.legible = true ∧ assembled.print = written.print ∧
      assembled = written := by
  intro entry level assembled written
  have legible : assembled.legible = true := by decide +kernel
  have legible' : written.legible = true := by decide +kernel
  have print_eq : assembled.print = written.print := by
    rw [print_eq_flatText, print_eq_flatText]
    decide +kernel
  exact ⟨legible, legible', print_eq, print_injective assembled written legible legible' print_eq⟩

/-- An option of an enum that goes on like a number is printed like a value. -/
example :
    let first : File := { enums := [⟨"Level", [⟨"LOW", "1"⟩], [], {}⟩] }
    let second : File := { enums := [⟨"Level", [], [⟨"LOW", 1, [], {}⟩], {}⟩] }
    first.print = second.print ∧ first ≠ second ∧ second.legible = true := by
  decide +kernel

end File

end ProtoSchema
